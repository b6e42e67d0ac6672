import NorDisk.Firmware.Machine
import NorDisk.Reset
import NorDisk.Uf2.Transfer

/-!
# The device

The state of the flash part lies in a slot. A request takes it out, works, and puts it back; a
request that finds the slot empty, because another is running or because the part was never
probed, is refused as busy. The USB stack calls the hooks below with numbers and buffers and gets
status words: zero or one on success, negative on error.
-/

namespace NorDisk.Firmware

/-- The board that the firmware is built for. -/
def board : Board := .orangeCrabR01

def layout : Layout := board.layout

/-- The part as the disk sees it: NOR commands over lines that registers drive. -/
abbrev FlashPart := SpiNor (BitBang Machine)

/-- What a request on the flash part works on. -/
abbrev Flash := Uf2.Intake FlashPart

/-- What lies in the slot. -/
structure FlashState where
  store : Store
  busErrors : Nat
  transfer : Uf2.Transfer

/-- Bits in a machine word; the processor of the boards has 32. -/
inductive WordSize where
  | bits32
  | bits64
deriving DecidableEq, Repr

/-- A length in memory is below this. -/
def WordSize.limit : WordSize → Nat
  | bits32 => 0x100000000
  | bits64 => 0x10000000000000000

/-- The machine and the state of the firmware. -/
structure Device where
  machine : Machine
  slot : Option FlashState := none
  link : Link := .unmounted
  reset : Reset := {}
  /-- Has a transfer started and not completed? -/
  writing : Bool := false
  indicator : Indicator := {}
  words : WordSize := .bits32

namespace Device

/-- A device after the light has been set up. -/
def ofMachine (machine : Machine) : Device := { machine := initLight machine }

def now (d : Device) : UInt32 := d.machine.ticks.now

def onMachine (f : Machine → Machine) (d : Device) : Device := { d with machine := f d.machine }

/-- Probe the part: it is asked for its identity, whatever the answer, and left with its window. -/
def probe (m : Machine) : FlashPart :=
  let part : FlashPart := Controller.enterCommand { bus := ⟨m⟩ }
  Controller.enterMapped part.readIdentity.2

/-- Fill the slot. -/
def initFlash : Action FlashError Device Unit := do
  .ofExcept layout.validate
  let store ← .ofChecked (Store.ofLayout layout .onSectorStart)
  .ofUpdate fun d =>
    let part := probe d.machine
    { d with
      machine := part.bus.bus
      slot := some { store, busErrors := part.busErrors, transfer := { family := layout.family } } }

/-- The flash state of a device on its machine. -/
def assemble (s : FlashState) (m : Machine) : Flash where
  transfer := s.transfer
  disk := { store := s.store, device := { bus := ⟨m⟩, busErrors := s.busErrors } }

def checkOut (d : Device) : Option (FlashState × Device) :=
  d.slot.map fun s => (s, { d with slot := none })

def checkIn (s : FlashState) (d : Device) : Device := { d with slot := some s }

/-- Put the flash state of a finished request back. -/
def settle (f : Flash) (d : Device) : Device :=
  { d with machine := f.disk.device.bus.bus }.checkIn
    { store := f.disk.store, busErrors := f.disk.device.busErrors, transfer := f.transfer }

/-- Run a request on the flash state. Its refusal is an answer, and the state is put back then too;
the action itself is refused only if the slot is empty. -/
def withFlash {ε α : Type} (request : Action ε Flash α) :
    Action FlashError Device (Except ε α) := fun d =>
  match d.checkOut with
  | none => .error (.refused .busy) d
  | some (s, d) =>
    match request (assemble s d.machine) with
    | .ok a f => .ok (.ok a) (settle f d)
    | .error (.refused e) f => .ok (.error e) (settle f d)
    | .error (.trap cause) f => .error (.trap cause) (settle f d)

/-- Run steps of the device while a request holds the flash state; none if it is not to be had. -/
def whileHeld {α : Type} (steps : Device → α × Device) (d : Device) : Option α × Device :=
  match d.checkOut with
  | none => (none, d)
  | some (s, d) =>
    let (a, d) := steps d
    (some a, d.checkIn s)

/-- A hook never refuses: its answer is a status word. -/
abbrev Hook := Action Empty Device

def statusOf (act : Action FlashError Device Unit) : Hook Int := do
  return FlashError.statusOf (← act.attempt)

/-- A request on the disk whose refusal is that of the action. -/
def onDisk {α : Type} (request : Action FlashError (Disk FlashPart) α) :
    Action FlashError Device α := do
  .ofExcept (← withFlash (Uf2.Intake.withDisk request))

/-- Bytes of some blocks; more of them than there are addresses are no blocks of the region. -/
def blockLength (lba count : UInt32) : Hook (Except FlashError Nat) := .ofStep fun d =>
  let length := 256 * count.toNat
  (if length < d.words.limit then .ok length else .error (.outOfRange lba count), d)

/-- Status word and buffer after a read; a refused read leaves the buffer as it was. -/
def readAnswer (buffer : List UInt8) : Except FlashError (List UInt8) → Int × Option (List UInt8)
  | .ok bytes => (0, some bytes)
  | .error e => (e.status, some buffer)

/-- Read blocks over the front of a buffer; the answer is the status word and the buffer. -/
def readBlocks (buffer : Option (List UInt8)) (lba count : UInt32) :
    Hook (Int × Option (List UInt8)) := do
  if count = 0 then return (0, buffer)
  match ← blockLength lba count, buffer with
  | .error e, _ => return (e.status, buffer)
  | .ok length, none => return (FlashError.status (.bufferTooSmall length 0), none)
  | .ok _, some bytes =>
    return readAnswer bytes (← (onDisk (Disk.readBlocks bytes lba count)).attempt)

def writeBlocks (source : Option (List UInt8)) (lba count : UInt32) : Hook Int := do
  if count = 0 then return 0
  match ← blockLength lba count, source with
  | .error e, _ => return e.status
  | .ok length, none => return FlashError.status (.bufferTooSmall length 0)
  | .ok _, some bytes => statusOf (onDisk (Disk.writeBlocks bytes lba count))

def flush : Hook Int := statusOf (onDisk Disk.flush)

/-- Status word of a record that was not meant for this board. -/
def ignoredStatus : Int := 1

/-- Take a record; the second part of the answer tells whether it completed the transfer. -/
def receive (bytes : List UInt8) : Action Uf2.Error Flash (Except Uf2.Error Uf2.Status × Bool) := do
  let before ← Uf2.Intake.ask fun t _ => t.complete
  let answer ← (Uf2.Intake.receive bytes).attempt
  let after ← Uf2.Intake.ask fun t _ => t.complete
  return (answer, !before && after)

def requestReset (d : Device) : Device :=
  { d with reset := Reset.request d.now resetDelay layout.bootImage }

def recordStatus : Except Uf2.Error Uf2.Status → Int
  | .ok .ignored => ignoredStatus
  | .ok _ => 0
  | .error e => e.status

/-- Follow the transfer in the slot with the writing flag. -/
def noteWriting (d : Device) : Device :=
  match d.slot with
  | some s => { d with writing := s.transfer.inProgress }
  | none => d

/-- Take one update record; the record that completes the transfer asks for a reset. -/
def writeRecord (record : Option (List UInt8)) : Hook Int := do
  match record with
  | none => return Uf2.Error.status (.truncated 0)
  | some bytes =>
    match ← (withFlash (receive bytes)).attempt with
    | .error e => return e.status
    | .ok (.error e) => return e.status
    | .ok (.ok (answer, completed)) =>
      .ofUpdate noteWriting
      if completed then Action.ofUpdate requestReset
      return recordStatus answer

/-- Follow the USB link. -/
def linkEvent (event : LinkEvent) (d : Device) : Device := { d with link := d.link.after event }

/-- Start the USB stack, and let its interrupts in if it started. -/
def initUsb (d : Device) : Device :=
  let d := d.onMachine (·.record .usbStart)
  if d.machine.usbStarts then d.onMachine (·.record (.unmask 3)) else d

/-- Let the USB stack handle its events. -/
def usbTask (d : Device) : Device := d.onMachine (·.record (.usbTask 0xFFFFFFFF false))

def usbInterrupt (d : Device) : Device := d.onMachine (·.record (.usbInterrupt 0))

/-- Show the state of link and transfer; the answer tells whether the light blinked. -/
def blink (d : Device) : Bool × Device :=
  let indicator := (d.indicator.setLink d.link).setWriting d.writing
  let (blinked, indicator, machine) := indicator.poll d.now d.machine
  (blinked, { d with indicator, machine })

/-- The value for the reboot register, once a requested reset is due. -/
def resetDue? (d : Device) : Option UInt8 := d.reset.due? d.now

end Device

end NorDisk.Firmware
