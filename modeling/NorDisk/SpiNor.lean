import NorDisk.Bytes
import NorDisk.Controller

/-!
# NOR commands over a SPI bus

A SPI-NOR part understands one-byte opcodes, some followed by a 24-bit address. `SpiNor σ` is a
flash controller over any state `σ` that can run SPI transactions and switch and read the window.
Erase and program are each preceded by a transaction of their own that enables writes. A transaction
can fail; the controller counts failures, and a failed status read counts as busy, so that the bound
on the wait applies to it.
-/

namespace NorDisk

/-- One part of a SPI transaction. -/
inductive SpiOp where
  /-- Send bytes. -/
  | write (data : List UInt8)
  /-- Receive bytes. -/
  | read (len : Nat)
  /-- Send `data` and receive `len` bytes at the same time. -/
  | transfer (len : Nat) (data : List UInt8)
  /-- Send bytes and receive as many in their place. -/
  | inPlace (data : List UInt8)
  /-- Pause. -/
  | delay (nanoseconds : Nat)
deriving DecidableEq, Repr

/-- A SPI bus with one device. -/
class SpiDevice (σ : Type) where
  /-- Run a transaction. The answer lists what each part received, or is `none` on a bus failure. -/
  transaction : List SpiOp → σ → Option (List (List UInt8)) × σ

/-- The read window of a part. -/
class XipWindow (σ : Type) where
  /-- Serve the window, or leave the bus to commands. -/
  setMapped : Bool → σ → σ
  /-- Bytes of the window from an address on. -/
  readWindow : UInt32 → Nat → σ → List UInt8 × σ
  length_readWindow : ∀ addr len s, (readWindow addr len s).1.length = len

namespace Opcode

def writeEnable : UInt8 := 0x06
def writeDisable : UInt8 := 0x04
def readStatus : UInt8 := 0x05
def pageProgram : UInt8 := 0x02
/-- Erase a sector of 4 KiB. -/
def sectorErase : UInt8 := 0x20
/-- Erase a block of 64 KiB. -/
def blockErase : UInt8 := 0xD8
def fastRead : UInt8 := 0x0B
/-- Read the identity of the maker and the part. -/
def identity : UInt8 := 0x9F

end Opcode

/-- An opcode and the low 24 bits of an offset, most significant byte first. -/
def addressCommand (opcode : UInt8) (offset : UInt32) : List UInt8 :=
  opcode :: (Word.toBE offset).drop 1

/-- A controller that drives the part over a SPI bus. -/
structure SpiNor (σ : Type) where
  bus : σ
  /-- Transactions that failed. -/
  busErrors : Nat := 0

namespace SpiNor

variable {σ : Type} [SpiDevice σ]

/-- Run a transaction; the answer is what was received, in order, or `none` on a bus failure. -/
def transact (ops : List SpiOp) (c : SpiNor σ) : Option (List UInt8) × SpiNor σ :=
  match SpiDevice.transaction ops c.bus with
  | (some received, bus) => (some received.flatten, { c with bus })
  | (none, bus) => (none, { bus, busErrors := c.busErrors + 1 })

/-- Send bytes and leave the outcome to the failure count. -/
def send (ops : List SpiOp) (c : SpiNor σ) : SpiNor σ := (c.transact ops).2

/-- Set the write-enable latch of the part. -/
def enableWrites (c : SpiNor σ) : SpiNor σ := c.send [.write [Opcode.writeEnable]]

/-- The three identity bytes, or `none` on a bus failure. -/
def readIdentity (c : SpiNor σ) : Option (List UInt8) × SpiNor σ :=
  c.transact [.write [Opcode.identity], .read 3]

/-- Poll the busy bit of the status register. -/
def isBusy (c : SpiNor σ) : Bool × SpiNor σ :=
  match c.transact [.write [Opcode.readStatus], .read 1] with
  | (some received, c) => (received.headD 0 &&& 1 ≠ 0, c)
  | (none, c) => (true, c)

variable [XipWindow σ]

instance : Controller (SpiNor σ) where
  enterMapped c := { c with bus := XipWindow.setMapped true c.bus }
  enterCommand c := { c with bus := XipWindow.setMapped false c.bus }
  beginErase offset c :=
    c.enableWrites.send [.write (addressCommand Opcode.sectorErase offset)]
  beginProgram offset data c :=
    c.enableWrites.send [.write (addressCommand Opcode.pageProgram offset), .write data]
  isBusy := isBusy
  readMapped addr len c :=
    let (bytes, bus) := XipWindow.readWindow addr len c.bus
    (bytes, { c with bus })
  length_readMapped addr len c := XipWindow.length_readWindow addr len c.bus

instance [TickSource σ] : TickSource (SpiNor σ) where
  now c :=
    let (now, bus) := TickSource.now c.bus
    (now, { c with bus })

end SpiNor

end NorDisk
