import NorDisk.NorPart
import NorDisk.SpiNor

/-!
# A SPI-NOR chip at its pins

The chip takes a data bit at each rising clock edge while it is selected. A byte that it sends is
fixed at the first edge of that byte. When it is deselected it acts on the bytes that it took: an
erase or a program is accepted if writes are enabled and the chip is not busy; that clears the
write-enable latch and keeps the chip busy for a number of status bytes.
-/

namespace NorDisk.Firmware

/-- A chip with the state of its shift registers. -/
structure SpiChip where
  memory : ByteArray
  /-- Are writes enabled? -/
  latch : Bool := false
  stalled : Bool := false
  /-- Status bytes that show busy after a command. -/
  busyPolls : Nat := 1
  /-- Status bytes that will still show busy. -/
  busyLeft : Nat := 0
  selected : Bool := false
  clock : Bool := false
  /-- Whole bytes taken since the chip was selected, the last one first. -/
  taken : List UInt8 := []
  /-- Bits taken of the next byte. -/
  bits : Nat := 0
  shiftIn : UInt8 := 0
  shiftOut : UInt8 := 0

namespace SpiChip

/-- The bytes of the identity of the chip. -/
def identity : List UInt8 := [0xEF, 0x40, 0x18]

def isBusy (c : SpiChip) : Bool := c.stalled || c.busyLeft > 0

/-- The status byte; showing it counts against the busy time. -/
def status (c : SpiChip) : UInt8 × SpiChip :=
  let busy : UInt8 := if c.isBusy then 1 else 0
  let latch : UInt8 := if c.latch then 2 else 0
  (busy ||| latch, { c with busyLeft := c.busyLeft - 1 })

/-- Is the next byte that the chip sends a status byte? -/
def sendsStatus (c : SpiChip) : Bool := c.taken.getLast? = some Opcode.readStatus

/-- Fix the next byte to send. -/
def load (c : SpiChip) : SpiChip :=
  if c.sendsStatus then
    let (status, c) := c.status
    { c with shiftOut := status }
  else if c.taken.getLast? = some Opcode.identity then
    { c with shiftOut := identity.getD (c.taken.length - 1) 0 }
  else { c with shiftOut := 0 }

def output (c : SpiChip) : Bool := (c.shiftOut >>> (8 - c.bits).toUInt8) &&& 1 = 1

/-- Take a data bit at a rising edge. -/
def clockIn (data : Bool) (c : SpiChip) : SpiChip :=
  let c := if c.bits = 0 || c.bits = 8 then { c.load with bits := 0 } else c
  let shiftIn := (c.shiftIn <<< 1) ||| (if data then 1 else 0)
  let c := { c with shiftIn, bits := c.bits + 1 }
  if c.bits = 8 then { c with taken := shiftIn :: c.taken } else c

/-- The offset that three address bytes name. -/
def offsetOf (a2 a1 a0 : UInt8) : Nat := a2.toNat * 65536 + a1.toNat * 256 + a0.toNat

/-- Three address bytes name any offset below 16 MiB. -/
theorem offsetOf_byte {offset : UInt32} (h : offset.toNat < 0x1000000) :
    offsetOf (Word.byte offset 2) (Word.byte offset 1) (Word.byte offset 0) = offset.toNat := by
  rw [offsetOf, Word.toNat_byte _ (by decide), Word.toNat_byte _ (by decide),
    Word.toNat_byte _ (by decide)]
  omega

/-- Accept a change of the memory, or refuse it. -/
def change (f : ByteArray → ByteArray) (c : SpiChip) : Bool × SpiChip :=
  if c.latch && !c.isBusy then
    (true, { c with memory := f c.memory, latch := false, busyLeft := c.busyPolls })
  else (false, c)

/-- Act on the bytes of a transaction; the answer tells whether the chip obeyed. -/
def act (bytes : List UInt8) (c : SpiChip) : Bool × SpiChip :=
  match bytes with
  | [] => (true, c)
  | opcode :: operands =>
    if opcode = Opcode.writeEnable then (true, { c with latch := true })
    else if opcode = Opcode.writeDisable then (true, { c with latch := false })
    else
      match operands with
      | a2 :: a1 :: a0 :: data =>
        let offset := offsetOf a2 a1 a0
        if opcode = Opcode.sectorErase then
          c.change (Memory.erase (offset - offset % 4096) 4096)
        else if opcode = Opcode.pageProgram then
          c.change (Memory.program (offset - offset % 256) (offset % 256) data)
        else (true, c)
      | _ => (true, c)

/-- Follow the select line to a new level. -/
def select (selected : Bool) (c : SpiChip) : SpiChip :=
  { c with selected, taken := [], bits := 0, shiftIn := 0, shiftOut := 0 }

end SpiChip

end NorDisk.Firmware
