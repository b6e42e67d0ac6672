import NorDisk.Hex

/-!
# Flash errors

Why a request to the disk was refused. `message` is the text for people, `status` the negative
word that crosses to the USB stack, where zero means success.
-/

namespace NorDisk

/-- Why a flash request was refused. -/
inductive FlashError where
  /-- The blocks reach past the end of the data region. -/
  | outOfRange (lba count : UInt32)
  /-- The buffer of the caller cannot hold the blocks. -/
  | bufferTooSmall (needed actual : Nat)
  /-- The part kept its busy flag set past the timeout. -/
  | stalled (offset : UInt32)
  /-- Another request is being served. -/
  | busy
  /-- A layout value is not aligned to a sector. -/
  | misaligned (offset : UInt32)
deriving DecidableEq, Repr

namespace FlashError

/-- The sum of two words, or the largest word where it does not fit. -/
def saturatingSum (a b : UInt32) : Nat := min (a.toNat + b.toNat) 0xFFFFFFFF

/-- The error in words. -/
def message : FlashError → String
  | outOfRange lba count =>
    s!"blocks {lba.toNat}..{saturatingSum lba count} are outside the data region"
  | bufferTooSmall needed actual => s!"buffer holds {actual} bytes, {needed} needed"
  | stalled offset => "flash stayed busy at offset " ++ Hex.word offset
  | busy => "flash translator is busy"
  | misaligned offset => "offset " ++ Hex.word offset ++ " is not sector-aligned"

/-- The status word of an error. -/
def status : FlashError → Int
  | outOfRange .. => -1
  | bufferTooSmall .. => -2
  | stalled _ => -3
  | busy => -4
  | misaligned _ => -5

/-- The status word of an outcome: zero on success. -/
def statusOf : Except FlashError Unit → Int
  | .ok _ => 0
  | .error e => e.status

end FlashError

end NorDisk
