import NorDisk.Proofs.ResetSchedule

/-!
# Calls on the flash state

A hook takes the flash state out of its slot, runs a body on it and puts it back. What the body
works on is the flash state on the machine, and the writing flag; the rest of the device it leaves
alone, except that its answer may call for a reset afterwards.

* **`Device.call`** — take out, run a body, put back.
* **`hook_of_none`** — while the slot is empty a hook is refused as busy and changes nothing.
* **`hook_of_not_needs`** — a hook that does not ask for the flash state changes nothing.
* **`hook_eq_call`** — every hook is a call.
-/

namespace NorDisk

open Outcome

namespace Uf2.Call

/-- Is the flash state needed? A request for no blocks is answered without it, and so is one for
more blocks than can be counted in bytes. -/
def NeedsFlash (d : Firmware.Device) : Call → Prop
  | .request (.read _ _ count) => count ≠ 0 ∧ d.Countable count
  | .request (.write _ _ count) => count ≠ 0 ∧ d.Countable count
  | .request .flush => True
  | .record _ => True

def buffer? : Call → Option (List UInt8)
  | .request r => r.buffer?
  | .record _ => none

/-- What a caller sees: the report of the body, or the status of a call that was refused, with the
buffer as it was. -/
def report (c : Call) : Except FlashError Report → Report
  | .ok report => report
  | .error e => ⟨e.status, c.buffer?⟩

end Uf2.Call

namespace Firmware

/-- What the body of a call works on: the flash state on its machine, and the writing flag. -/
structure Held where
  flash : Flash
  writing : Bool

/-- The flash state without the machine. -/
def Held.state (h : Held) : FlashState where
  store := h.flash.disk.store
  busErrors := h.flash.disk.device.busErrors
  transfer := h.flash.transfer

namespace Device

/-- What a body works on that holds a flash state. -/
def lend (s : FlashState) (d : Device) : Held := ⟨assemble s d.machine, d.writing⟩

/-- The device after a body has worked; the flash state stays with the body. -/
def after (h : Held) (d : Device) : Device :=
  { d with machine := h.flash.disk.device.bus.bus, writing := h.writing }

/-- The device after a body has returned and its call too; the body tells whether to ask for a
reset. -/
def returned {ρ : Type} (d : Device) :
    Outcome Empty Held (ρ × Bool) → Outcome Empty Device (Except FlashError ρ)
  | .ok (answer, completed) h =>
    let d := (d.after h).checkIn h.state
    .ok (.ok answer) (if completed then d.requestReset else d)
  | .error fault h => .error fault ((d.after h).checkIn h.state)

/-- A call with a body, without interruption. -/
def call {ρ : Type} (body : Action Empty Held (ρ × Bool)) : Hook (Except FlashError ρ) := fun d =>
  match d.checkOut with
  | none => .ok (.error .busy) d
  | some (s, d) => d.returned (body (d.lend s))

/-! ### The hooks -/

def hook : Uf2.Call → Hook Report
  | .request request => serve request
  | .record bytes => return ⟨← writeRecord (some bytes), none⟩

/-- The body of a hook. Only a record moves the writing flag, and only a record that completes a
transfer asks for a reset. -/
def body : Uf2.Call → Action Empty Held (Report × Bool)
  | .request request => fun h =>
    match request.reported (Disk.serve request h.flash.disk) with
    | .ok report disk => .ok (report, false) { h with flash := { h.flash with disk } }
    | .error fault disk => .error fault { h with flash := { h.flash with disk } }
  | .record bytes => fun h =>
    let completed (f : Flash) := !h.flash.transfer.complete && f.transfer.complete
    match Uf2.Intake.receive bytes h.flash with
    | .ok status f =>
      .ok (⟨recordStatus (.ok status), none⟩, completed f) ⟨f, f.transfer.inProgress⟩
    | .error (.refused e) f =>
      .ok (⟨recordStatus (.error e), none⟩, completed f) ⟨f, f.transfer.inProgress⟩
    | .error (.trap cause) f => .error (.trap cause) { h with flash := f }

variable {d : Device} {s : FlashState}

/-- Nothing can be taken out of an empty slot. -/
theorem checkOut_of_none (hslot : d.slot = none) : d.checkOut = none := by
  rw [checkOut, hslot]
  rfl

/-- With the flash state in the slot, a hook takes it out, works and puts it back. -/
theorem hook_of_some (hslot : d.slot = some s) (c : Uf2.Call) :
    hook c d = (do return c.report (← call (body c)) : Hook Report) d := by
  rw [Action.bind_apply, call, checkOut_of_some hslot]
  cases c with
  | request request =>
    rw [hook, serve_eq hslot, onDisk_eq hslot]
    simp only [body, lend]
    -- The body is answered, refused or traps; the flash state goes back in each case.
    rcases Disk.serve request (assemble s d.machine).disk with _ | ⟨_ | _, _⟩ <;> rfl
  | record bytes =>
    have hcomplete : (assemble s d.machine).transfer.complete = s.transfer.complete := rfl
    rw [hook, Action.bind_apply, writeRecord_eq hslot]
    simp only [body, lend, hcomplete]
    rcases Uf2.Intake.receive bytes (assemble s d.machine) with ⟨status, f⟩ | ⟨e | cause, f⟩
    · simp only [finish, returned]
      cases !s.transfer.complete && f.transfer.complete <;> rfl
    · simp only [finish, returned]
      cases !s.transfer.complete && f.transfer.complete <;> rfl
    · rfl

/-- While the flash state is away a hook that needs it is refused, and changes nothing. -/
theorem hook_of_none (hslot : d.slot = none) {c : Uf2.Call} (hneeds : c.NeedsFlash d) :
    hook c d = .ok (c.report (.error .busy)) d := by
  -- Whatever would be done with the flash state is refused.
  have hbusy {ε α : Type} (request : Action ε Flash α) :
      withFlash request d = .error (.refused .busy) d := by
    rw [withFlash, checkOut_of_none hslot]
  cases c with
  | request r =>
    cases r with
    | read buffer lba count =>
      rw [hook, serve, Action.bind_apply, readBlocks_of_countable buffer hneeds.1 hneeds.2]
      simp only [onDisk, Action.bind_apply, Action.attempt, hbusy]
      rfl
    | write source lba count =>
      rw [hook, serve, Action.bind_apply, writeBlocks_of_countable source hneeds.1 hneeds.2]
      simp only [statusOf, onDisk, Action.bind_apply, Action.attempt, hbusy]
      rfl
    | flush =>
      rw [hook, serve, Action.bind_apply, flush]
      simp only [statusOf, onDisk, Action.bind_apply, Action.attempt, hbusy]
      rfl
  | record bytes =>
    rw [hook, Action.bind_apply, writeRecord]
    simp only [Action.bind_apply, Action.attempt, hbusy]
    rfl

/-- A hook that does not need the flash state answers in any state, and changes nothing. -/
theorem hook_of_not_needs {c : Uf2.Call} (hneeds : ¬ c.NeedsFlash d) :
    ∃ report, hook c d = .ok report d := by
  cases c with
  | request r =>
    cases r with
    | read buffer lba count =>
      by_cases hcount : count = 0
      · rw [hook, serve, Action.bind_apply, readBlocks, if_pos hcount]
        exact ⟨_, rfl⟩
      · -- The byte count is checked before the slot is looked at.
        have hlength : ¬ d.Countable count := fun h => hneeds ⟨hcount, h⟩
        rw [hook, serve, Action.bind_apply, readBlocks_of_not_countable (some buffer) hlength]
        exact ⟨_, rfl⟩
    | write source lba count =>
      by_cases hcount : count = 0
      · rw [hook, serve, Action.bind_apply, writeBlocks, if_pos hcount]
        exact ⟨_, rfl⟩
      · have hlength : ¬ d.Countable count := fun h => hneeds ⟨hcount, h⟩
        rw [hook, serve, Action.bind_apply, writeBlocks_of_not_countable (some source) hlength]
        exact ⟨_, rfl⟩
    | flush => exact absurd trivial hneeds
  | record bytes => exact absurd trivial hneeds

/-- **The hooks are calls.** -/
theorem hook_eq_call {c : Uf2.Call} (h : d.slot.isSome ∨ c.NeedsFlash d) :
    hook c d = (do return c.report (← call (body c)) : Hook Report) d := by
  cases hslot : d.slot with
  | some s => exact hook_of_some hslot c
  | none =>
    rw [hook_of_none hslot (h.resolve_left (by simp [hslot])), Action.bind_apply, call,
      checkOut_of_none hslot]
    rfl

end Device

end Firmware

end NorDisk
