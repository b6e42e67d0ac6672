import NorDisk.Bytes

/-!
# Flash geometry

A part is erased in sectors of 4096 bytes and programmed in pages of 256. A logical block is one
page, so a sector holds sixteen blocks. The whole part can be read through a window in the address
space of the processor.
-/

namespace NorDisk

/-- Address of the first byte of the part in the read window. -/
def windowBase : UInt32 := 0x20000000

/-- Bytes in a logical block. -/
def blockBytes : UInt32 := 256

/-- Bytes that one program command can reach. -/
def pageBytes : UInt32 := 256

/-- Bytes that one erase command clears. -/
def sectorBytes : UInt32 := 4096

/-- Blocks in a sector. -/
def blocksPerSector : UInt32 := 16

/-- What an erased byte reads as. -/
def erasedByte : UInt8 := 0xFF

/-- Bound on one erase or program, in milliseconds. -/
def busyTimeout : UInt32 := 1000

/-- First offset of the sector that holds `offset`. -/
def sectorBase (offset : UInt32) : UInt32 := offset - offset % sectorBytes

/-- Place of block `lba` in its sector. -/
def blockInSector (lba : UInt32) : UInt32 := lba % blocksPerSector

/-- Blocks from `lba` to the end of its sector, `lba` included. -/
def blocksToSectorEnd (lba : UInt32) : UInt32 := blocksPerSector - blockInSector lba

/-- How many of `remaining` blocks from `lba` on lie in the sector of the first one. -/
def runLength (lba remaining : UInt32) : UInt32 := min remaining (blocksToSectorEnd lba)

theorem toNat_blockInSector (lba : UInt32) : (blockInSector lba).toNat = lba.toNat % 16 :=
  UInt32.toNat_mod lba blocksPerSector

theorem blockInSector_lt (lba : UInt32) : (blockInSector lba).toNat < 16 := by
  rw [toNat_blockInSector]
  exact Nat.mod_lt _ (by decide)

theorem toNat_blocksToSectorEnd (lba : UInt32) :
    (blocksToSectorEnd lba).toNat = 16 - lba.toNat % 16 := by
  have hle : blockInSector lba ≤ blocksPerSector :=
    UInt32.le_iff_toNat_le.mpr (Nat.le_of_lt (blockInSector_lt lba))
  rw [blocksToSectorEnd, UInt32.toNat_sub_of_le _ _ hle, toNat_blockInSector]
  rfl

theorem toNat_runLength (lba remaining : UInt32) :
    (runLength lba remaining).toNat = min remaining.toNat (16 - lba.toNat % 16) := by
  rw [runLength, Word.toNat_min, toNat_blocksToSectorEnd]

theorem toNat_sub_runLength (lba remaining : UInt32) :
    (remaining - runLength lba remaining).toNat =
      remaining.toNat - min remaining.toNat (16 - lba.toNat % 16) := by
  have hrun := toNat_runLength lba remaining
  rw [UInt32.toNat_sub_of_le, hrun]
  rw [UInt32.le_iff_toNat_le, hrun]
  exact Nat.min_le_left _ _

/-- A run takes at least one block, so a request consists of finitely many runs. -/
theorem toNat_sub_runLength_lt (lba : UInt32) {remaining : UInt32} (h : remaining ≠ 0) :
    (remaining - runLength lba remaining).toNat < remaining.toNat := by
  have hpos : 0 < remaining.toNat := Nat.pos_of_ne_zero fun hzero => h (UInt32.toNat_inj.mp hzero)
  have hplace : lba.toNat % 16 < 16 := Nat.mod_lt _ (by decide)
  rw [toNat_sub_runLength]
  omega

theorem toNat_sectorBase (offset : UInt32) :
    (sectorBase offset).toNat = offset.toNat - offset.toNat % 4096 := by
  have h : (offset % sectorBytes).toNat = offset.toNat % 4096 := by
    simp [sectorBytes, UInt32.toNat_mod]
  rw [sectorBase, UInt32.toNat_sub_of_le, h]
  rw [UInt32.le_iff_toNat_le, h]
  exact Nat.mod_le _ _

end NorDisk
