/-!
# Traps — stops that no caller handles

A computation ends with a value, with a refusal that its caller is expected to handle, or with a
trap: arithmetic that leaves its word, a cut past the end of its data, a layout that was never
checked. Refusals are values of an error type chosen by the operation; traps are the same few
causes everywhere and pass through every layer.

`Checked` holds the 32-bit arithmetic that traps instead of wrapping. Where the library writes a
bare `+`, `-` or `*` on words, wrapping is the rule that is wanted.
-/

namespace NorDisk

/-- Why a computation stopped without an answer for its caller. -/
inductive Trap where
  /-- A sum, difference or product left the 32-bit range. -/
  | overflow
  | divisionByZero
  /-- A slice reaches past the end of its data. -/
  | outOfBounds
  /-- Data was to be cut into pieces of length zero. -/
  | emptyPiece
  /-- Text was to be cut inside a character. -/
  | splitCharacter
  /-- A disk was opened on a layout that breaks the alignment rules. -/
  | invalidLayout
  /-- A busy flag was polled for the whole poll allowance while the clock stood still. -/
  | stuck
deriving DecidableEq, Repr

/-- How an action over a device fails. -/
inductive Fault (ε : Type) where
  /-- The request was refused; the caller decides what follows. -/
  | refused (error : ε)
  /-- The computation stopped for good. -/
  | trap (cause : Trap)
deriving DecidableEq, Repr

/-- An action on a state `σ`: it may change the state also when it is refused. -/
abbrev Action (ε σ : Type) := EStateM (Fault ε) σ

namespace Action

variable {ε ε' σ α : Type}

def refuse (error : ε) : Action ε σ α := throw (.refused error)

def stop (cause : Trap) : Action ε σ α := throw (.trap cause)

/-- The value of a computation that may trap. -/
def ofChecked : Except Trap α → Action ε σ α
  | .ok a => pure a
  | .error cause => stop cause

/-- The value of a computation that may refuse. -/
def ofExcept : Except ε α → Action ε σ α
  | .ok a => pure a
  | .error error => refuse error

def ofStep (step : σ → α × σ) : Action ε σ α := fun s =>
  let (a, s) := step s
  .ok a s

def ofUpdate (update : σ → σ) : Action ε σ Unit := fun s => .ok () (update s)

/-- The same action with its refusals renamed. -/
def mapError (f : ε → ε') (act : Action ε σ α) : Action ε' σ α := fun s =>
  match act s with
  | .ok a s => .ok a s
  | .error (.refused error) s => .error (.refused (f error)) s
  | .error (.trap cause) s => .error (.trap cause) s

/-- The outcome of an action with its refusal as a value; a trap still stops. -/
def attempt (act : Action ε σ α) : Action ε' σ (Except ε α) := fun s =>
  match act s with
  | .ok a s => .ok (.ok a) s
  | .error (.refused error) s => .ok (.error error) s
  | .error (.trap cause) s => .error (.trap cause) s

end Action

namespace Checked

/-- The sum, if it fits a word. -/
def add (a b : UInt32) : Except Trap UInt32 :=
  if a.toNat + b.toNat < 0x100000000 then .ok (a + b) else .error .overflow

def sub (a b : UInt32) : Except Trap UInt32 :=
  if b.toNat ≤ a.toNat then .ok (a - b) else .error .overflow

def mul (a b : UInt32) : Except Trap UInt32 :=
  if a.toNat * b.toNat < 0x100000000 then .ok (a * b) else .error .overflow

def div (a b : UInt32) : Except Trap UInt32 :=
  if b = 0 then .error .divisionByZero else .ok (a / b)

theorem add_eq_ok {a b : UInt32} (h : a.toNat + b.toNat < 0x100000000) : add a b = .ok (a + b) :=
  if_pos h

theorem sub_eq_ok {a b : UInt32} (h : b.toNat ≤ a.toNat) : sub a b = .ok (a - b) :=
  if_pos h

theorem mul_eq_ok {a b : UInt32} (h : a.toNat * b.toNat < 0x100000000) : mul a b = .ok (a * b) :=
  if_pos h

end Checked

end NorDisk
