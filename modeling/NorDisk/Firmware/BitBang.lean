import NorDisk.Firmware.Registers
import NorDisk.SpiNor

/-!
# A SPI bus by hand

SPI mode 0, most significant bit first: the data line is set while the clock is low, the part takes
it at the rising edge, and its own line is sampled after that edge. The part stays selected for a
whole transaction, and the direction bit stays clear, so the data line is always driven.
-/

namespace NorDisk.Firmware

variable {σ : Type} [RegisterBus σ]

def setLines (bits : UInt32) (s : σ) : σ :=
  RegisterBus.write .lines (bits &&& ~~~directionLine) s

/-- Exchange the low `n` bits of a byte for as many samples, which are appended to `input`. -/
def exchangeBits (out : UInt8) : Nat → UInt8 → σ → UInt8 × σ
  | 0, input, s => (input, s)
  | n + 1, input, s =>
    let data := if (out >>> n.toUInt8) &&& 1 = 1 then mosiLine else 0
    let s := setLines (data ||| clockLine) (setLines data s)
    let (sample, s) := RegisterBus.read .input s
    exchangeBits out n ((input <<< 1) ||| (sample &&& 1).toUInt8) s

def exchangeByte (out : UInt8) (s : σ) : UInt8 × σ :=
  let (input, s) := exchangeBits out 8 0 s
  (input, setLines 0 s)

def exchange : List UInt8 → σ → List UInt8 × σ
  | [], s => ([], s)
  | out :: rest, s =>
    let (input, s) := exchangeByte out s
    let (later, s) := exchange rest s
    (input :: later, s)

/-- What a part of a transaction sends: reads send ones. -/
def sentBytes : SpiOp → List UInt8
  | .write data => data
  | .read len => List.replicate len 0xFF
  | .transfer len data => data.rightpad len 0xFF
  | .inPlace data => data
  | .delay _ => []

/-- How many of the bytes that come back a part of a transaction keeps. -/
def keptCount : SpiOp → Nat
  | .write _ => 0
  | .read len => len
  | .transfer len _ => len
  | .inPlace data => data.length
  | .delay _ => 0

/-- Run the parts of a transaction on a selected part. -/
def exchangeOps : List SpiOp → σ → List (List UInt8) × σ
  | [], s => ([], s)
  | op :: rest, s =>
    let (input, s) := exchange (sentBytes op) s
    let (later, s) := exchangeOps rest s
    (input.take (keptCount op) :: later, s)

/-- Run a transaction: select, exchange, deselect. -/
def transaction (ops : List SpiOp) (s : σ) : List (List UInt8) × σ :=
  let (received, s) := exchangeOps ops (setLines 0 s)
  (received, setLines deselectLine s)

def windowBytes : Nat → UInt32 → σ → List UInt8 × σ
  | 0, _, s => ([], s)
  | n + 1, addr, s =>
    let (b, s) := RegisterBus.windowByte addr s
    let (later, s) := windowBytes n (addr + 1) s
    (b :: later, s)

theorem length_windowBytes (n : Nat) (addr : UInt32) (s : σ) :
    (windowBytes n addr s).1.length = n := by
  induction n generalizing addr s with
  | zero => rfl
  | succ n ih => simp [windowBytes, ih]

/-- A register bus used as a SPI bus. -/
structure BitBang (σ : Type) where
  bus : σ

instance : SpiDevice (BitBang σ) where
  transaction ops b :=
    let (received, bus) := transaction ops b.bus
    (some received, ⟨bus⟩)

instance : XipWindow (BitBang σ) where
  setMapped mapped b := ⟨RegisterBus.write .bitbang (if mapped then 0 else 1) b.bus⟩
  readWindow addr len b :=
    let (bytes, bus) := windowBytes len addr b.bus
    (bytes, ⟨bus⟩)
  length_readWindow addr len b := length_windowBytes len addr b.bus

instance [TickSource σ] : TickSource (BitBang σ) where
  now b :=
    let (now, bus) := TickSource.now b.bus
    (now, ⟨bus⟩)

end NorDisk.Firmware
