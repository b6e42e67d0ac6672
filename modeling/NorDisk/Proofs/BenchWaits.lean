import NorDisk.Proofs.Execution
import NorDisk.Proofs.RequestOutcomes

/-!
# Waits that end

Two invariants of a simulated part next to a clock, which whatever a disk does to the part keeps.
Under the first one no wait runs out of polls, so a command is seen through or refused as stalled.
Under the second one no wait is given up.

* **`Bench.Patient`** — the clock moves and the timeout passes (`Bench.execute_stalls`).
* **`NorPart.Prompt`**, **`Bench.Healthy`** — the part is also idle before the timeout
  (`Bench.Healthy.execute`).
-/

namespace NorDisk

open Outcome

/-! ## A part that may stall -/

/-- A command is refused as stalled, at its own offset or another. -/
def Fault.IsStall (fault : Fault FlashError) : Prop := ∃ offset, fault = .refused (.stalled offset)

namespace Bench

variable {b : Bench NorPart} {patience : Patience}

/-- Waits that end on one reading of the clock end on all later ones. -/
def Patient (patience : Patience) (b : Bench NorPart) : Prop := patience.Ample b.clock.step

/-- A wait ends with an idle part or is given up, and the clock keeps its pace. -/
theorem waitIdle_stalls (h : b.Patient patience) (offset : UInt32) :
    Meets (fun _ => Patient patience)
      (fun fault b' => fault.IsStall ∧ b'.Patient patience)
      (Controller.waitIdle patience offset b) := by
  rw [waitIdle_eq h]
  split
  · exact h
  · exact ⟨⟨offset, rfl⟩, h⟩

/-- A command is seen through or refused as stalled. -/
theorem execute_stalls (h : b.Patient patience) (command : Command) :
    Meets (fun _ => Patient patience)
      (fun fault b' => fault.IsStall ∧ b'.Patient patience)
      (Controller.execute patience command b) := by
  unfold Controller.execute
  apply Action.Meets.bind (waitIdle_stalls h command.offset)
  intro _ b₁ h₁
  rw [Action.ofUpdate_bind]
  have hissue : (Controller.issue command b₁).Patient patience := by cases command <;> exact h₁
  exact waitIdle_stalls hissue command.offset

/-- Whatever a disk does to a part next to a moving clock, the only failure is a stall. -/
theorem carrier (patience : Patience) : Carrier patience (Patient patience) Fault.IsStall where
  enterMapped _ h := h
  enterCommand _ h := h
  readMapped _ _ _ h := h
  execute command _ h := (execute_stalls h command).mono (fun _ _ h' => h') fun _ _ h' => h'.1

/-- Such a bench is in lockstep with itself, and none of its faults is a trap. -/
theorem lockstep (l : Layout) (patience : Patience) :
    Lockstep l patience Fault.IsRefusal fun _ s t => s = t ∧ Patient patience s where
  refusal _ := trivial
  enterMapped h := ⟨congrArg _ h.1, h.2⟩
  enterCommand h := ⟨congrArg _ h.1, h.2⟩
  readMapped _ _ _ h := ⟨by rw [h.1], by rw [h.1], h.2⟩
  execute := by
    intro command s _ _ h
    obtain ⟨rfl, h⟩ := h
    have hexecute := execute_stalls h command
    match Controller.execute patience command s, hexecute with
    | .ok _ s', h' => exact ⟨rfl, rfl, h'⟩
    | .error fault s', h' =>
      -- A stall is a refusal.
      obtain ⟨⟨offset, rfl⟩, h'⟩ := h'
      exact ⟨rfl, trivial, rfl, h'⟩

end Bench

/-! ## A part that is never slow -/

/-- No command keeps the part busy for more than some number of polls. -/
structure NorPart.Prompt (polls : Nat) (p : NorPart) : Prop where
  stalled : p.stalled = false
  busyPolls_le : p.busyPolls ≤ polls
  busyLeft_le : p.busyLeft ≤ polls

namespace NorPart.Prompt

variable {polls : Nat} {p : NorPart}

/-- Logging leaves a part prompt. -/
theorem record (h : p.Prompt polls) (primitive : Primitive) : (p.record primitive).Prompt polls :=
  ⟨(stalled_record primitive p).trans h.stalled,
    Nat.le_trans (Nat.le_of_eq (busyPolls_record primitive p)) h.busyPolls_le,
    Nat.le_trans (Nat.le_of_eq (busyLeft_record primitive p)) h.busyLeft_le⟩

/-- Taking a command makes a prompt part busy for its usual time. -/
theorem accept (h : p.Prompt polls) : p.accept.2.Prompt polls := by
  unfold NorPart.accept
  split
  · exact ⟨h.stalled, h.busyPolls_le, h.busyLeft_le⟩
  · split
    · exact ⟨h.stalled, h.busyPolls_le, h.busyLeft_le⟩
    · exact ⟨h.stalled, h.busyPolls_le, h.busyPolls_le⟩

/-- What a command does to the memory and the counts is not seen here. -/
theorem done (h : p.Prompt polls) (memory : ByteArray) (erases programs : Nat) :
    NorPart.Prompt polls { p with memory, erases, programs } :=
  ⟨h.stalled, h.busyPolls_le, h.busyLeft_le⟩

/-- Taken or ignored, a command leaves a prompt part. -/
theorem issue (h : p.Prompt polls) (command : Command) :
    (Controller.issue command p).Prompt polls := by
  cases command with
  | erase offset =>
    have haccept := (h.record (.erase offset)).accept
    show (beginErase offset p).Prompt polls
    unfold beginErase
    split
    · -- The command was ignored.
      rename_i q hq
      rwa [hq] at haccept
    · -- The command was taken.
      rename_i q hq
      rw [hq] at haccept
      exact haccept.done _ _ _
  | program offset data =>
    have haccept := (h.record (.program offset data.length)).accept
    show (beginProgram offset data p).Prompt polls
    unfold beginProgram
    split
    · rename_i q hq
      rwa [hq] at haccept
    · rename_i q hq
      rw [hq] at haccept
      exact haccept.done _ _ _

/-- Reading the window leaves a part prompt. -/
theorem readMapped (h : p.Prompt polls) (addr : UInt32) (len : Nat) :
    (NorPart.readMapped addr len p).2.Prompt polls := by
  have hrecord := h.record (.read addr len)
  simp only [NorPart.readMapped]
  split
  · exact ⟨hrecord.stalled, hrecord.busyPolls_le, hrecord.busyLeft_le⟩
  · exact hrecord

end NorPart.Prompt

namespace Bench

/-- A prompt part next to a clock on which it is idle before the timeout. -/
structure Healthy (patience : Patience) (polls : Nat) (b : Bench NorPart) : Prop where
  part : b.part.Prompt polls
  patient : b.Patient patience
  in_time : polls * b.clock.step.toNat ≤ patience.timeout.toNat

variable {patience : Patience} {polls : Nat} {b : Bench NorPart}

/-- A healthy part will be seen idle in time. -/
theorem Healthy.responsive (h : b.Healthy patience polls) : b.Responsive patience.timeout :=
  ⟨h.part.stalled, Nat.le_trans (Nat.mul_le_mul_right _ h.part.busyLeft_le) h.in_time⟩

/-- A brisk part is healthy with its own busy time. -/
theorem Healthy.of_brisk (h : patience.Ample b.clock.step)
    (hbrisk : b.setting.Brisk patience.timeout)
    (hleft : b.part.busyLeft ≤ b.part.busyPolls) : b.Healthy patience b.part.busyPolls :=
  ⟨⟨hbrisk.1, Nat.le_refl _, hleft⟩, h, hbrisk.2⟩

/-- A wait on a healthy part ends with an idle part. -/
theorem Healthy.waitIdle (h : b.Healthy patience polls) (offset : UInt32) :
    Meets (fun _ => Healthy patience polls) (fun _ _ => False)
      (Controller.waitIdle patience offset b) := by
  rw [waitIdle_eq h.patient, if_pos h.responsive]
  refine ⟨⟨h.part.stalled, h.part.busyPolls_le, ?_⟩, h.patient, h.in_time⟩
  rw [busyLeft_polled_self h.part.stalled]
  exact Nat.zero_le _

/-- Every command is seen through. -/
theorem Healthy.execute (h : b.Healthy patience polls) (command : Command) :
    Meets (fun _ => Healthy patience polls) (fun _ _ => False)
      (Controller.execute patience command b) := by
  unfold Controller.execute
  apply Action.Meets.bind (h.waitIdle command.offset)
  intro _ b₁ h₁
  rw [Action.ofUpdate_bind, issue_eq]
  have hissue : Healthy patience polls { b₁ with part := Controller.issue command b₁.part } :=
    ⟨h₁.part.issue command, h₁.patient, h₁.in_time⟩
  exact hissue.waitIdle command.offset

/-- Opening the window leaves a part healthy. -/
theorem Healthy.enterMapped (h : b.Healthy patience polls) :
    (Controller.enterMapped b).Healthy patience polls :=
  ⟨⟨(h.part.record .enterMapped).stalled, (h.part.record .enterMapped).busyPolls_le,
    (h.part.record .enterMapped).busyLeft_le⟩, h.patient, h.in_time⟩

/-- Closing the window leaves a part healthy. -/
theorem Healthy.enterCommand (h : b.Healthy patience polls) :
    (Controller.enterCommand b).Healthy patience polls :=
  ⟨⟨(h.part.record .enterCommand).stalled, (h.part.record .enterCommand).busyPolls_le,
    (h.part.record .enterCommand).busyLeft_le⟩, h.patient, h.in_time⟩

/-- Reading the window leaves a part healthy. -/
theorem Healthy.readMapped (h : b.Healthy patience polls) (addr : UInt32) (len : Nat) :
    (Controller.readMapped addr len b).2.Healthy patience polls :=
  ⟨h.part.readMapped addr len, h.patient, h.in_time⟩

/-- No command fails on a healthy part. -/
theorem healthy_carrier (patience : Patience) (polls : Nat) :
    Carrier patience (Healthy patience polls) fun _ => False where
  enterMapped _ h := h.enterMapped
  enterCommand _ h := h.enterCommand
  readMapped addr len _ h := h.readMapped addr len
  execute command _ h := h.execute command

end Bench

end NorDisk
