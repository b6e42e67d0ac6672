import NorDisk.Bytes
import NorDisk.FlashError
import NorDisk.Geometry
import NorDisk.Trap

/-!
# Update records

An update file is a sequence of records of 512 bytes. A record names its place in the transfer, the
address its payload is meant for and the family of boards it is meant for, between three magic
words. `Record.encode` writes the format, `Record.decode` reads it.
-/

namespace NorDisk.Uf2

/-- Bytes in a record. -/
def recordBytes : Nat := 512

/-- Bytes in the data area of a record. -/
def dataBytes : Nat := 476

def startMagic : UInt32 := 0x0A324655
def secondMagic : UInt32 := 0x9E5D5157
def endMagic : UInt32 := 0x0AB16F30

/-- The flag of a record that is not meant for the main flash. -/
def notMainFlash : UInt32 := 0x00000001

/-- The flag of a record whose last header word is a family. -/
def familyPresent : UInt32 := 0x00002000

/-- Why a record was rejected. -/
inductive Error where
  | truncated (len : Nat)
  | badMagic
  | badPayloadSize (size : UInt32)
  | misaligned (addr : UInt32)
  | outsideRegion (addr : UInt32)
  | flash (error : FlashError)
deriving DecidableEq, Repr

namespace Error

def message : Error → String
  | truncated len => s!"UF2 record is {len} bytes, expected 512"
  | badMagic => "not a UF2 record"
  | badPayloadSize size => s!"UF2 payload of {size.toNat} bytes, expected {blockBytes.toNat}"
  | misaligned addr => "UF2 target " ++ Hex.word addr ++ " is not block-aligned"
  | outsideRegion addr => "UF2 target " ++ Hex.word addr ++ " is outside the data region"
  | flash error => "flash error: " ++ error.message

def status : Error → Int
  | flash error => error.status
  | truncated _ => -16
  | badMagic => -17
  | badPayloadSize _ => -18
  | misaligned _ => -19
  | outsideRegion _ => -20

end Error

structure Record where
  flags : UInt32
  target : UInt32
  payloadSize : UInt32
  /-- Number of this record in its transfer. -/
  blockNo : UInt32
  /-- Records in the transfer. -/
  numBlocks : UInt32
  /-- Family of boards, if the flag for it is set. -/
  family : UInt32
  data : List UInt8
  length_data : data.length = dataBytes
deriving DecidableEq

namespace Record

/-- The record that carries `payload`; one larger than the data area traps. -/
def ofPayload (target blockNo numBlocks family : UInt32) (payload : List UInt8) :
    Except Trap Record :=
  if h : payload.length ≤ dataBytes then
    .ok {
      flags := familyPresent
      target, blockNo, numBlocks, family
      payloadSize := payload.length.toUInt32
      data := payload ++ List.replicate (dataBytes - payload.length) 0
      length_data := by simp; omega }
  else .error .outOfBounds

def encode (r : Record) : List UInt8 :=
  Word.toLE startMagic ++ Word.toLE secondMagic ++ Word.toLE r.flags ++ Word.toLE r.target ++
    Word.toLE r.payloadSize ++ Word.toLE r.blockNo ++ Word.toLE r.numBlocks ++
    Word.toLE r.family ++ r.data ++ Word.toLE endMagic

/-- The record at the start of a byte list. -/
def decode (bytes : List UInt8) : Except Error Record :=
  if h : bytes.length < recordBytes then .error (.truncated bytes.length)
  else if Word.ofLE bytes ≠ startMagic ∨ Word.ofLE (bytes.drop 4) ≠ secondMagic ∨
      Word.ofLE (bytes.drop 508) ≠ endMagic then .error .badMagic
  else
    .ok {
      flags := Word.ofLE (bytes.drop 8)
      target := Word.ofLE (bytes.drop 12)
      payloadSize := Word.ofLE (bytes.drop 16)
      blockNo := Word.ofLE (bytes.drop 20)
      numBlocks := Word.ofLE (bytes.drop 24)
      family := Word.ofLE (bytes.drop 28)
      data := (bytes.drop 32).take dataBytes
      length_data := by simp [recordBytes, dataBytes] at h ⊢; omega }

def hasFamily (r : Record) : Bool := r.flags &&& familyPresent ≠ 0

/-- Is the record meant for the main flash? -/
def isMainFlash (r : Record) : Bool := r.flags &&& notMainFlash = 0

/-- The payload; a size beyond the data area means all of it. -/
def payload (r : Record) : List UInt8 := r.data.take r.payloadSize.toNat

theorem length_encode (r : Record) : r.encode.length = recordBytes := by
  simp [encode, r.length_data, dataBytes, recordBytes]

end Record

end NorDisk.Uf2
