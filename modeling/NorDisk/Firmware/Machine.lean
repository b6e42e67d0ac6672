import NorDisk.Firmware.BitBang
import NorDisk.Firmware.SpiChip

/-!
# The machine under the firmware

The registers, the flash chip on their lines, the millisecond counter and the USB stack, as far as
the firmware can tell. Time passes by itself only while the chip shows status bytes. The machine
keeps a record of what it was asked to do and counts breaches of the rule that the lines are driven
only while they are enabled, and the window read only while they are not.
-/

namespace NorDisk.Firmware

/-- What the machine was asked to do. -/
inductive Event where
  /-- A register other than the lines was written. -/
  | register (r : Register) (value : UInt32)
  /-- The chip was deselected after these bytes. -/
  | transaction (bytes : List UInt8) (obeyed : Bool)
  | usbStart
  /-- The USB stack was to handle its events. -/
  | usbTask (timeout : UInt32) (inInterrupt : Bool)
  /-- The USB stack was to handle an interrupt of a root hub. -/
  | usbInterrupt (hub : Nat)
  | unmask (line : Nat)
deriving DecidableEq, Repr

structure Machine where
  chip : SpiChip
  /-- Do the lines follow their register? -/
  bitbang : Bool := false
  ticks : TickCounter := {}
  /-- Milliseconds that pass while a status byte is read. -/
  ticksPerStatus : Nat := 1
  /-- Does the USB stack start? -/
  usbStarts : Bool := true
  events : Array Event := #[]
  /-- Accesses that broke the rule of lines and window. -/
  breaches : Nat := 0

namespace Machine

def record (event : Event) (m : Machine) : Machine := { m with events := m.events.push event }

def wait (milliseconds : Nat) (m : Machine) : Machine :=
  { m with ticks := m.ticks.advance milliseconds }

def driveSelect (selected : Bool) (m : Machine) : Machine :=
  if selected = m.chip.selected then m
  else if selected then { m with chip := m.chip.select true }
  else
    let bytes := m.chip.taken.reverse
    let (obeyed, chip) := m.chip.act bytes
    { m with chip := chip.select false }.record (.transaction bytes obeyed)

def driveClock (clock data : Bool) (m : Machine) : Machine :=
  let rising := clock && !m.chip.clock && m.chip.selected
  let startsByte := m.chip.bits = 0 || m.chip.bits = 8
  let m := if rising && startsByte && m.chip.sendsStatus then m.wait m.ticksPerStatus else m
  let m := { m with chip.clock := clock }
  if rising then { m with chip := m.chip.clockIn data } else m

def driveLines (bits : UInt32) (m : Machine) : Machine :=
  if m.bitbang then
    (m.driveSelect (bits &&& deselectLine = 0)).driveClock (bits &&& clockLine ≠ 0)
      (bits &&& mosiLine ≠ 0)
  else { m with breaches := m.breaches + 1 }

def write (r : Register) (value : UInt32) (m : Machine) : Machine :=
  match r with
  | .lines => m.driveLines value
  | .bitbang => { m with bitbang := value ≠ 0 }.record (.register r value)
  | r => m.record (.register r value)

def read (r : Register) (m : Machine) : UInt32 × Machine :=
  match r with
  | .input => (if m.bitbang && m.chip.selected && m.chip.output then 1 else 0, m)
  | _ => (0, m)

def windowByte (addr : UInt32) (m : Machine) : UInt8 × Machine :=
  if m.bitbang then (0, { m with breaches := m.breaches + 1 })
  else (Memory.byteAt m.chip.memory (addr - windowBase).toNat, m)

instance : RegisterBus Machine where
  write := write
  read := read
  windowByte := windowByte

instance : TickSource Machine where
  now m := (m.ticks.now, m)

end Machine

end NorDisk.Firmware
