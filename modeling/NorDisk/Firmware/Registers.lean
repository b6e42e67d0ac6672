import NorDisk.Indicator
import NorDisk.Trap

/-!
# Control registers

Each peripheral owns a slot of 0x800 bytes in the register space, and each of its registers is one
word of it. `RegisterBus` is any state whose registers can be written and read and whose flash
window can be read byte by byte.
-/

namespace NorDisk.Firmware

/-- Address of the first register. -/
def registerBase : UInt32 := 0xE0000000

/-- Bytes that a peripheral owns. -/
def slotBytes : UInt32 := 0x800

/-- Address of register `index` of the peripheral in a slot. -/
def registerAddress (slot index : UInt32) : Except Trap UInt32 := do
  let slotBase ← Checked.add registerBase (← Checked.mul slot slotBytes)
  Checked.add slotBase (← Checked.mul index 4)

/-- The registers in use. -/
inductive Register where
  | timerLoad
  | timerReload
  | timerEnable
  | timerPending
  | timerEventEnable
  | rebootControl
  | lightConfig
  | light (channel : Channel)
  /-- The lines of the flash part: data out, clock, select and direction. -/
  | lines
  /-- The data line from the flash part. -/
  | input
  /-- One while the lines follow `lines` instead of serving the window. -/
  | bitbang
deriving DecidableEq, Repr

namespace Register

def slot : Register → UInt32
  | timerLoad | timerReload | timerEnable | timerPending | timerEventEnable => 5
  | rebootControl => 12
  | lightConfig | light _ => 13
  | lines | input | bitbang => 15

def index : Register → UInt32
  | timerLoad => 0
  | timerReload => 1
  | timerEnable => 2
  | timerPending => 6
  | timerEventEnable => 7
  | rebootControl => 0
  | lightConfig => 0
  | light .red => 1
  | light .green => 2
  | light .blue => 3
  | lines => 0
  | input => 1
  | bitbang => 2

def address (r : Register) : UInt32 := registerBase + r.slot * slotBytes + r.index * 4

/-- No register in use lies outside the address space. -/
theorem registerAddress_eq (r : Register) : registerAddress r.slot r.index = .ok r.address := by
  cases r with
  | light c => cases c <;> rfl
  | _ => rfl

end Register

/-- The bit of `Register.lines` that carries data to the part. -/
def mosiLine : UInt32 := 1

def clockLine : UInt32 := 2

def deselectLine : UInt32 := 4

/-- The bit that turns the data line round. -/
def directionLine : UInt32 := 8

/-- A state with registers and a flash window. -/
class RegisterBus (σ : Type) where
  write : Register → UInt32 → σ → σ
  read : Register → σ → UInt32 × σ
  windowByte : UInt32 → σ → UInt8 × σ

/-- Duty that is written for a lit channel. -/
def litDuty : UInt32 := 250

/-- Let the channels of the light follow their registers. -/
def initLight {σ : Type} [RegisterBus σ] (s : σ) : σ := RegisterBus.write .lightConfig 0 s

/-- The channels of the light as pins; writing a register never fails. -/
instance {σ : Type} [RegisterBus σ] : RgbPins σ where
  drive channel high s := (true, RegisterBus.write (.light channel) (if high then litDuty else 0) s)

/-- Boot the image that a value names. -/
def writeReboot {σ : Type} [RegisterBus σ] (value : UInt8) (s : σ) : σ :=
  RegisterBus.write .rebootControl value.toUInt32 s

/-- A bus that records what is written and answers reads from a script. -/
structure RecordedBus where
  /-- What the input register will read as. -/
  inputs : List UInt8 := []
  /-- What it reads as after that. -/
  idleInput : UInt8 := 0
  window : UInt32 → UInt8 := fun _ => 0xFF
  /-- Registers and values that were written, in order. -/
  writes : Array (Register × UInt32) := #[]

instance : RegisterBus RecordedBus where
  write r value s := { s with writes := s.writes.push (r, value) }
  read r s :=
    match r, s.inputs with
    | .input, b :: rest => (b.toUInt32, { s with inputs := rest })
    | .input, [] => (s.idleInput.toUInt32, s)
    | _, _ => (0, s)
  windowByte addr s := (s.window addr, s)

end NorDisk.Firmware
