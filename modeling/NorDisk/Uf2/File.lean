import NorDisk.Layout
import NorDisk.Uf2.Record

/-!
# Update files

A file is a whole number of records. `encodeData` wraps data for consecutive blocks from an
address on; the last block is filled up with erased bytes.
-/

namespace NorDisk.Uf2

/-- A byte array of whole records. -/
structure File where
  bytes : ByteArray
  whole : bytes.size % recordBytes = 0

namespace File

/-- Why bytes are no update file: they end inside a record. -/
structure PartialRecord where
  size : Nat
deriving DecidableEq, Repr

def PartialRecord.message (e : PartialRecord) : String :=
  s!"UF2 file is {e.size} bytes, not a multiple of {recordBytes}"

def ofBytes (bytes : ByteArray) : Except PartialRecord File :=
  if whole : bytes.size % recordBytes = 0 then .ok { bytes, whole } else .error ⟨bytes.size⟩

def count (f : File) : Nat := f.bytes.size / recordBytes

def record (f : File) (i : Nat) : List UInt8 := Bytes.slice f.bytes (i * recordBytes) recordBytes

def records (f : File) : List (List UInt8) := (List.range f.count).map f.record

end File

/-- Blocks that `size` bytes of data take. -/
def blocksFor (size : Nat) : Nat := (size + 255) / 256

/-- Block `i` of the data, filled up with erased bytes. -/
def dataBlock (data : ByteArray) (i : Nat) : List UInt8 :=
  (Bytes.slice data (i * 256) 256).rightpad 256 erasedByte

/-- Record `i` of the data. -/
def dataRecord (data : ByteArray) (base family : UInt32) (i : Nat) : Except Trap Record := do
  let target ← Checked.add base (i * 256).toUInt32
  Record.ofPayload target i.toUInt32 (blocksFor data.size).toUInt32 family (dataBlock data i)

/-- The bytes of the records that carry data to consecutive blocks from address `base` on. -/
def encodeData (data : ByteArray) (base family : UInt32) : Except Trap ByteArray :=
  (List.range (blocksFor data.size)).foldlM (fun out i => do
    let r ← dataRecord data base family i
    return r.encode.foldl ByteArray.push out) ByteArray.empty

end NorDisk.Uf2
