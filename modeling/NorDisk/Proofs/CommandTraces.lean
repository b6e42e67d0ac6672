import NorDisk.Proofs.RequestOutcomes
import NorDisk.Proofs.Retry

/-!
# What a controller sees of a list of commands

A wait ends with the first idle answer, or with the first busy one that comes too late
(`Controller.pollIdle_exact`). So the trace of a command has one of three shapes: the command
between two waits that ended idle, a first wait that was given up, or a second one that was. A list
of commands is seen through up to one of the last two shapes.

* **`SeenThrough`** — the trace of commands that were issued to an idle part and seen complete.
* **`StalledOn`** — the trace of a command on which the part stalled, before or after it was issued.
* **`Traced.execute_served`** — one command on a simulated part, with its trace and the memory.
* **`Disk.writeBlocks_served`** — the commands of a write at once.
-/

namespace NorDisk

open Outcome

namespace Signal

/-- The polls of a wait: `n` busy answers and then an idle one. -/
def idleAfter (n : Nat) : List Signal := List.replicate n (.poll true) ++ [.poll false]

/-- The polls of a wait that is given up on its last busy answer. -/
def busyFor (n : Nat) : List Signal := List.replicate n (.poll true)

/-- The command of a signal, if it is one. -/
def command? : Signal → Option Command
  | .command c => some c
  | _ => none

/-- Polls that answer busy come one by one. -/
theorem busyFor_succ (n : Nat) : busyFor (n + 1) = .poll true :: busyFor n := List.replicate_succ

@[simp] theorem filterMap_idleAfter (n : Nat) : (idleAfter n).filterMap command? = [] := by
  simp [idleAfter, command?]

end Signal

open Signal

/-- The trace of commands that were issued to an idle part and seen complete, one by one. -/
inductive SeenThrough : List Command → List Signal → Prop
  | nil : SeenThrough [] []
  | snoc {commands trace} (h : SeenThrough commands trace) (command : Command)
    (before after : Nat) : SeenThrough (commands ++ [command])
      (trace ++ (idleAfter before ++ .command command :: idleAfter after))

/-- The trace of a command on which the part stalled, and whether it was issued. -/
inductive StalledOn (command : Command) : Bool → List Signal → Prop
  | before (n : Nat) : StalledOn command false (busyFor (n + 1))
  | after (m n : Nat) : StalledOn command true (idleAfter m ++ .command command :: busyFor (n + 1))

/-- The commands of such a trace are those that were seen through. -/
theorem SeenThrough.filterMap_eq {commands : List Command} {trace : List Signal}
    (h : SeenThrough commands trace) : trace.filterMap command? = commands := by
  induction h with
  | nil => rfl
  | snoc _ command before after ih => simp [ih, command?]

namespace Traced

variable {κ : Type}

/-- The commands that the controller received, in order. -/
def commands (s : Traced κ) : List Command := s.trace.filterMap command?

/-- A traced controller hands commands on. -/
theorem inner_issue [Controller κ] (command : Command) (s : Traced κ) :
    (Controller.issue command s).inner = Controller.issue command s.inner := by
  cases command <;> rfl

/-- A command leaves one signal. -/
theorem trace_issue [Controller κ] (command : Command) (s : Traced κ) :
    (Controller.issue command s).trace = s.trace ++ [.command command] := by
  cases command <;> rfl

/-! ## A wait -/

section Wait

variable [Controller κ] [TickSource κ]

omit [TickSource κ] in
/-- A poll leaves its answer. -/
theorem trace_isBusy (s : Traced κ) :
    (Controller.isBusy s).2.trace = s.trace ++ [.poll (Controller.isBusy s).1] := rfl

/-- The trace of polls that answer busy. -/
theorem trace_polled {n : Nat} {s : Traced κ} (h : ∀ i < n, Controller.busyAt i s = true) :
    (Controller.polled n s).trace = s.trace ++ busyFor n := by
  induction n generalizing s with
  | zero => simp [Controller.polled, busyFor]
  | succ n ih =>
    rw [Nat.forall_lt_succ_left] at h
    have hanswer : (Controller.isBusy s).1 = true := h.1
    -- The first poll answers busy; what follows is one poll shorter.
    have htrace : (TickSource.now (Controller.isBusy s).2).2.trace = s.trace ++ [.poll true] := by
      rw [← hanswer]
      rfl
    rw [Controller.polled, ih h.2, htrace, busyFor_succ, List.append_assoc]
    rfl

/-- The trace of polls up to the first idle answer. -/
theorem trace_idle {n : Nat} {s : Traced κ} (hbusy : ∀ i < n, Controller.busyAt i s = true)
    (hidle : Controller.busyAt n s = false) :
    (Controller.isBusy (Controller.polled n s)).2.trace = s.trace ++ idleAfter n := by
  have hanswer : (Controller.isBusy (Controller.polled n s)).1 = false := hidle
  rw [trace_isBusy, hanswer, trace_polled hbusy, List.append_assoc]
  rfl

/-- The trace of a wait. -/
theorem waitIdle_trace (patience : Patience) (offset : UInt32) (s : Traced κ) :
    Meets (fun _ s' => ∃ n, s'.trace = s.trace ++ idleAfter n)
      (fun fault s' => fault = .trap .stuck ∨
        fault = .refused (.stalled offset) ∧ ∃ n, s'.trace = s.trace ++ busyFor (n + 1))
      (Controller.waitIdle patience offset s) := by
  rw [Controller.waitIdle, Action.ofStep_bind]
  apply (Controller.pollIdle_exact _ _ _ _ _).mono
  · rintro - s' ⟨n, hbusy, hidle, rfl⟩
    exact ⟨n, trace_idle (fun i hi => (hbusy i hi).1) hidle⟩
  · -- Given up: all polls were busy, the last one included.
    rintro fault s' (⟨hstuck, -⟩ | ⟨hstall, n, hbusy, hlast, -, rfl⟩)
    · exact Or.inl hstuck
    · exact Or.inr ⟨hstall, n, trace_polled (Nat.forall_lt_succ_right.mpr
        ⟨fun i hi => (hbusy i hi).1, hlast⟩)⟩

end Wait

/-! ## Commands on a simulated part -/

variable {τ : Type} [TickSource τ] {s : Traced (Timed τ)} {start : List Signal}
  {memory : ByteArray} {sent : List Command} {command : Command}

/-- A wait keeps the memory, and an idle answer tells that the part is idle. -/
theorem waitIdle_serves (h : s.inner.Serves memory) (patience : Patience) (offset : UInt32) :
    Meets
      (fun _ s' => s'.inner.Serves memory ∧ s'.inner.part.stalled = false ∧
        s'.inner.part.busyLeft = 0)
      (fun _ s' => s'.inner.Serves memory) (Controller.waitIdle patience offset s) :=
  ((transparent.waitIdle_agree patience offset rfl).meets
    (Timed.waitIdle_serves h patience offset)).mono
    (fun _ _ ⟨_, hinner, h'⟩ => hinner ▸ h') fun _ _ ⟨_, hinner, h'⟩ => hinner ▸ h'

/-- After `start` the commands of a list were seen through, on a memory. -/
structure Served (start : List Signal) (memory : ByteArray) (commands : List Command)
    (s : Traced (Timed τ)) : Prop where
  trace_eq : ∃ done, SeenThrough commands done ∧ s.trace = start ++ done
  serves : s.inner.Serves (Command.applyAll commands memory)

omit [TickSource τ] in
/-- The commands received are those at the start and those served since. -/
theorem Served.commands_eq (h : s.Served start memory sent) :
    s.commands = start.filterMap command? ++ sent := by
  obtain ⟨done, hdone, htrace⟩ := h.trace_eq
  rw [commands, htrace, List.filterMap_append, hdone.filterMap_eq]

/-- After `start` the commands of a list were seen through, on a memory, and the part stalled on
the next one; `issued` tells whether that was issued, and so applied. -/
structure Stopped (start : List Signal) (memory : ByteArray) (commands : List Command)
    (command : Command) (issued : Bool) (s : Traced (Timed τ)) : Prop where
  trace_eq : ∃ done last, SeenThrough commands done ∧ StalledOn command issued last ∧
    s.trace = start ++ (done ++ last)
  memory_eq : s.inner.part.memory =
    Command.applyAll (if issued then commands ++ [command] else commands) memory

/-- After some commands were seen through the part stalled on one more, or the waits for it ran out
of polls. -/
def Halted (start : List Signal) (memory : ByteArray) (sent : List Command) (command : Command)
    (fault : Fault FlashError) (s : Traced (Timed τ)) : Prop :=
  fault = .trap .stuck ∨
    fault = .refused (.stalled command.offset) ∧
      ∃ issued, s.Stopped start memory sent command issued

/-- **One command.** It is seen through, or the part stalls on it. -/
theorem execute_served (h : s.Served start memory sent) (patience : Patience)
    (command : Command) :
    Meets (fun _ => Served start memory (sent ++ [command])) (Halted start memory sent command)
      (Controller.execute patience command s) := by
  obtain ⟨done, hdone, htrace⟩ := h.trace_eq
  unfold Controller.execute
  apply Action.Meets.bind_of ((waitIdle_trace patience command.offset s).and
    (waitIdle_serves h.serves patience command.offset))
  · -- The wait before the command failed, so it was not issued.
    rintro fault s' ⟨hstuck | ⟨hstall, n, hs'⟩, hserves⟩
    · exact Or.inl hstuck
    · refine Or.inr ⟨hstall, false, ⟨done, _, hdone, .before n, ?_⟩, hserves.2⟩
      rw [hs', htrace, List.append_assoc]
  · rintro - s₁ ⟨⟨before, hs₁⟩, hserves, hstalled, hleft⟩
    rw [Action.ofUpdate_bind]
    have hissued : (Controller.issue command s₁).inner.Serves
        (Command.applyAll (sent ++ [command]) memory) := by
      rw [Command.applyAll_append, inner_issue]
      exact hserves.issue hstalled hleft command
    have htrace₂ : (Controller.issue command s₁).trace =
        start ++ (done ++ (idleAfter before ++ [.command command])) := by
      simp [trace_issue, hs₁, htrace]
    apply ((waitIdle_trace patience command.offset _).and
      (waitIdle_serves hissued patience command.offset)).mono
    · rintro - s₂ ⟨⟨after, hs₂⟩, hserves, -⟩
      exact ⟨⟨_, hdone.snoc command before after, by simp [hs₂, htrace₂]⟩, hserves⟩
    · -- The wait after the command failed, so it was issued and applied.
      rintro fault s₂ ⟨hstuck | ⟨hstall, n, hs₂⟩, hserves⟩
      · exact Or.inl hstuck
      · exact Or.inr ⟨hstall, true, ⟨done, _, hdone, .after before n, by simp [hs₂, htrace₂]⟩,
          hserves.2⟩

/-- **A list of commands** is seen through, or halts on one of them after those before it. -/
theorem executeAll_served {commands : List Command} (h : s.Served start memory [])
    (patience : Patience) :
    Meets (fun _ => Served start memory commands)
      (fun fault s' => ∃ sent command, sent ++ [command] <+: commands ∧
        s'.Halted start memory sent command fault)
      (Controller.executeAll patience commands s) :=
  Controller.executeAll_upTo (S := Served start memory)
    (fun _ command _ _ hs => execute_served hs patience command) h

end Traced

/-! ## A write at once -/

namespace Disk

variable {τ : Type} [TickSource τ] {d : Disk (Traced (Timed τ))} {lba count : UInt32}

/-- The trace of a disk that has switched to commands. -/
def commandStart (d : Disk (Traced (Timed τ))) : List Signal := d.device.trace ++ [.enterCommand]

omit [TickSource τ] in
/-- Switching to commands is no command. -/
theorem filterMap_commandStart (d : Disk (Traced (Timed τ))) :
    d.commandStart.filterMap command? = d.device.commands := by
  rw [commandStart, List.filterMap_append]
  exact List.append_nil _

/-- The memory of the part behind a disk. -/
def memory (d : Disk (Traced (Timed τ))) : ByteArray := d.device.inner.part.memory

omit [TickSource τ] in
/-- At the start no command has been served. -/
theorem entered_served (d : Disk (Traced (Timed τ))) :
    (Controller.enterCommand d.device).Served d.commandStart d.memory [] :=
  ⟨⟨[], .nil, (List.append_nil _).symm⟩, rfl, NorPart.memory_record _ _⟩

/-- Writing blocks at once sees the commands of the blocks through. -/
theorem writeEach_served (d : Disk (Traced (Timed τ))) (lba : UInt32)
    (blocks : List (List UInt8)) :
    Meets
      (fun _ d' => d'.device.Served d.commandStart d.memory (d.store.layout.writes lba blocks))
      (fun fault d' => ∃ sent command, sent ++ [command] <+: d.store.layout.writes lba blocks ∧
        d'.device.Halted d.commandStart d.memory sent command fault)
      (writeEach lba blocks d) := by
  rw [writeEach_eq]
  exact (onDevice_meets (Traced.executeAll_served d.entered_served d.store.patience)).mono
    (fun _ _ h => h.2) fun _ _ h => h.2

/-- **A write at once** of some blocks sees its commands through, or it is refused, or it halts on
one of them. -/
theorem writeBlocks_served (hpolicy : d.store.policy = .onSectorStart) (source : List UInt8)
    (lba : UInt32) (hcount : count ≠ 0) :
    let commands := d.store.layout.requestCommands source lba.toNat count.toNat
    Meets (fun _ d' => d'.device.Served d.commandStart d.memory commands)
      (fun fault d' =>
        (∃ error, fault = .refused error ∧
          d.store.layout.refusal? lba count source.length = some error) ∨
        ∃ sent command, sent ++ [command] <+: commands ∧
          d'.device.Halted d.commandStart d.memory sent command fault)
      (writeBlocks source lba count d) := by
  intro commands
  cases hrefusal : d.store.layout.refusal? lba count source.length with
  | some error =>
    rw [writeBlocks_of_refusal hrefusal]
    exact Or.inl ⟨error, rfl, rfl⟩
  | none =>
    -- The blocks are those of the region, so their commands depend on their numbers only.
    obtain ⟨-, hrange, -⟩ := Layout.of_refusal?_eq_none hcount hrefusal
    have hserved := writeEach_served d lba (Bytes.pieces 256 count.toNat source)
    rw [Layout.writes_pieces d.store.layout_valid hrange] at hserved
    rw [writeBlocks_of_accepted hcount hrefusal, hpolicy]
    exact hserved.mono (fun _ _ h => h) fun _ _ => Or.inr

end Disk

end NorDisk
