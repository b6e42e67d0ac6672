/-!
# CRC-32 — the reflected polynomial 0xEDB88320

The checksum of ISO-HDLC: the register starts as all ones, takes the bytes in order and is
complemented at the end. `shiftByte` is the definition, eight bit shifts; `table` holds its value
for each byte, so that `update` shifts a whole byte at a time.
-/

namespace NorDisk.Crc32

def shiftBit (crc : UInt32) : UInt32 :=
  if crc &&& 1 = 1 then (crc >>> 1) ^^^ 0xEDB88320 else crc >>> 1

def shiftByte (crc : UInt32) : UInt32 := Nat.repeat shiftBit 8 crc

/-- The register after eight shifts, for each low byte. -/
def table : Vector UInt32 256 := Vector.ofFn fun i => shiftByte i.val.toUInt32

/-- Take one byte into the register. -/
def update (crc : UInt32) (b : UInt8) : UInt32 :=
  let low := crc.toUInt8 ^^^ b
  table.get ⟨low.toNat, UInt8.toNat_lt low⟩ ^^^ (crc >>> 8)

def ofByteArray (bytes : ByteArray) : UInt32 := bytes.foldl update 0xFFFFFFFF ^^^ 0xFFFFFFFF

def ofList (bytes : List UInt8) : UInt32 := bytes.foldl update 0xFFFFFFFF ^^^ 0xFFFFFFFF

/-- The check value of the standard: nine digits. -/
example : ofList [0x31, 0x32, 0x33, 0x34, 0x35, 0x36, 0x37, 0x38, 0x39] = 0xCBF43926 := by
  decide +kernel

end NorDisk.Crc32
