import NorDisk.Proofs.Lockstep
import NorDisk.Uf2.Transfer

/-!
# Intakes in lockstep

An intake adds the state of a transfer to a disk. What it does next depends on the record, on that
state, on the layout and on the answers of the disk; so two intakes with one transfer whose disks
are in lockstep stay so, whatever bytes arrive as a record (`receive_agree`), and a record cannot
trap: its placement is decided without leaving a word (`placement_no_trap`).
-/

namespace NorDisk

open Outcome

namespace Uf2

variable {l : Layout}

/-- A record is placed or refused. -/
theorem placement_no_trap (hv : l.Valid) (hw : l.WindowFits) (r : Record) (cause : Trap) :
    placement l r ≠ .error (.trap cause) := by
  unfold placement
  split
  · exact nofun
  · split
    · exact nofun
    · split
      · rename_i other h
        exact absurd h (Layout.blockAt?_ne_error hv hw r.target other)
      · exact nofun
      · exact nofun

namespace Intake

variable {σ τ : Type} {patience : Patience} {R : Mode → σ → τ → Prop}

/-- Two intakes with one transfer and related disks. -/
structure Paired (l : Layout) (patience : Patience) (R : Mode → σ → τ → Prop) (i : Intake σ)
    (j : Intake τ) : Prop where
  transfer_eq : i.transfer = j.transfer
  disk : Disk.Paired l patience R i.disk j.disk

variable {i : Intake σ} {j : Intake τ} {ε α β : Type}

/-- What the disks agree on leaves the transfer alone. -/
theorem withDisk_agree {act : Action ε (Disk σ) α} {act' : Action ε (Disk τ) α}
    (h : Paired l patience R i j)
    (hact : Agree Fault.IsRefusal (Disk.Paired l patience R) (fun _ => Disk.Paired l patience R)
      (act i.disk) (act' j.disk)) :
    Agree Fault.IsRefusal (Paired l patience R) (fun _ => Paired l patience R)
      (withDisk act i) (withDisk act' j) := by
  obtain ⟨transfer, disk⟩ := i
  obtain ⟨transfer', disk'⟩ := j
  unfold withDisk
  match hd : act disk, hd' : act' disk', hact with
  | .ok a d, .ok b d', hact => simpa [hd, hd'] using ⟨hact.1, ⟨h.transfer_eq, hact.2⟩⟩
  | .error f d, .error g d', hact =>
    simpa [hd, hd'] using ⟨hact.1, hact.2.1, ⟨h.transfer_eq, hact.2.2⟩⟩

/-- An action on the disk leaves the transfer alone, and its refusal is wrapped on both sides. -/
theorem onDisk_agree {act : Action FlashError (Disk σ) α} {act' : Action FlashError (Disk τ) α}
    (h : Paired l patience R i j)
    (hact : Agree Fault.IsRefusal (Disk.Paired l patience R) (fun _ => Disk.Paired l patience R)
      (act i.disk) (act' j.disk)) :
    Agree Fault.IsRefusal (Paired l patience R) (fun _ => Paired l patience R)
      (onDisk act i) (onDisk act' j) :=
  Action.Agree.mapError (withDisk_agree h hact)

/-- Asking changes nothing. -/
theorem ask_bind (f : Transfer → Layout → α) (k : α → Action Error (Intake σ) β) (i : Intake σ) :
    (ask f >>= k) i = k (f i.transfer i.disk.store.layout) i := rfl

variable [Controller σ] [TickSource σ] [Controller τ] [TickSource τ]

/-- Counting a record depends on the transfer alone, and a complete transfer is flushed on both. -/
theorem track_agree (hlock : Lockstep l patience Fault.IsRefusal R) (h : Paired l patience R i j)
    (r : Record) :
    Agree Fault.IsRefusal (Paired l patience R) (fun _ => Paired l patience R)
      (track r i) (track r j) := by
  have hcounted : Paired l patience R { i with transfer := (i.transfer.track r).2 }
      { j with transfer := (j.transfer.track r).2 } := ⟨by rw [h.transfer_eq], h.disk⟩
  rw [track, track, Action.ofStep_bind, Action.ofStep_bind]
  simp only [← h.transfer_eq] at hcounted ⊢
  cases (i.transfer.track r).1 with
  | false => exact ⟨rfl, hcounted⟩
  | true =>
    refine Action.Agree.bind (onDisk_agree hcounted (Disk.flush_agree hlock hcounted.disk)) ?_
    intro _ i' j' h'
    exact ⟨rfl, h'⟩

/-- **Records in lockstep.** Whatever bytes arrive, both intakes do the same with them. -/
theorem receive_agree (hlock : Lockstep l patience Fault.IsRefusal R) (hw : l.WindowFits)
    (h : Paired l patience R i j) (bytes : List UInt8) :
    Agree Fault.IsRefusal (Paired l patience R) (fun _ => Paired l patience R)
      (receive bytes i) (receive bytes j) := by
  have hv := h.disk.valid
  unfold receive
  cases Record.decode bytes with
  | error error => exact ⟨rfl, trivial, h⟩
  | ok r =>
    rw [Action.ofExcept_bind, Action.ofExcept_bind, ask_bind, ask_bind, ← h.transfer_eq,
      Action.ite_apply, Action.ite_apply]
    split
    · exact ⟨rfl, h⟩
    · split
      · rw [ask_bind, ask_bind, ← h.disk.store_eq, h.disk.layout_eq]
        -- A record for the flash of this board: it is placed by the layout, which both share.
        cases hplace : placement l r with
        | ok lba =>
          refine Action.Agree.bind (onDisk_agree h
            (Disk.writeBlocks_agree hlock hw h.disk r.payload lba 1)) ?_
          intro _ i₁ j₁ h₁
          refine Action.Agree.bind (track_agree hlock h₁ r) ?_
          intro complete i₂ j₂ h₂
          cases complete <;> exact ⟨rfl, h₂⟩
        | error fault =>
          cases fault with
          | trap cause => exact absurd hplace (placement_no_trap hv hw r cause)
          | refused error =>
            -- A misplaced record is counted all the same, and refused afterwards.
            refine Action.Agree.bind (Action.Agree.discard (track_agree hlock h r)) ?_
            intro _ i₁ j₁ h₁
            exact ⟨rfl, trivial, h₁⟩
      · refine Action.Agree.bind (track_agree hlock h r) ?_
        intro complete i₁ j₁ h₁
        cases complete <;> exact ⟨rfl, h₁⟩

/-! ## Requests and records -/

end Intake

/-- A call to a board: a request to its disk, or the bytes of a record. -/
inductive Call where
  | request (request : Request)
  | record (bytes : List UInt8)
deriving DecidableEq, Repr

/-- What a board answers to a call that it does not refuse. -/
inductive Reply where
  | answer (answer : Answer)
  | status (status : Status)
deriving DecidableEq, Repr

namespace Intake

variable {σ τ : Type} [Controller σ] [TickSource σ] [Controller τ] [TickSource τ]
  {patience : Patience} {R : Mode → σ → τ → Prop}

/-- Serve a call; requests go to the disk past the transfer. -/
def serve : Call → Action Error (Intake σ) Reply
  | .request request => return .answer (← onDisk (Disk.serve request))
  | .record bytes => return .status (← receive bytes)

/-- An act of the world on the device. -/
def world {ω : Type} (act : ω → σ → σ) (w : ω) (i : Intake σ) : Intake σ :=
  { i with disk := i.disk.world act w }

/-- A board whose part has a memory and that has served no call yet. -/
def fresh (transfer : Transfer) (l : Layout) (hv : l.Valid) (policy : ErasePolicy)
    (timeout : UInt32) (busyPolls : Nat) (clock : StepClock) (memory : ByteArray) :
    Intake (Bench NorPart) where
  transfer := transfer
  disk := Disk.fresh l hv policy { timeout } (Bench.fresh memory busyPolls clock)

/-- **Calls in lockstep.** -/
theorem serve_agree (hlock : Lockstep l patience Fault.IsRefusal R) (hw : l.WindowFits)
    {i : Intake σ} {j : Intake τ} (h : Paired l patience R i j) (call : Call) :
    Agree Fault.IsRefusal (Paired l patience R) (fun _ => Paired l patience R)
      (serve call i) (serve call j) := by
  cases call with
  | request request =>
    refine Action.Agree.bind (onDisk_agree h (Disk.serve_agree hlock hw h.disk request)) ?_
    intro answer i' j' h'
    exact ⟨rfl, h'⟩
  | record bytes =>
    refine Action.Agree.bind (receive_agree hlock hw h bytes) ?_
    intro status i' j' h'
    exact ⟨rfl, h'⟩

end Intake

end Uf2

end NorDisk
