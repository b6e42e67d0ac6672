import NorDisk.Disk

/-!
# Addresses on a valid layout

On a valid layout whose part fits into the address space (`Layout.WindowFits`), no address of a
block of the region leaves its word: the address functions do not trap, and their values are the
sums that one would write without bounds. Everything below is stated in `Nat`:

* **`Layout.blocks`** and **`Layout.blockOffset`** — the size of the region in blocks and the offset
  of a block.
* **`offsetOf_eq`**, **`mappedOf_eq`** — the two address functions on a block of the region.
* **`blockAt?_eq_some_iff`** — the search for the block at an address.
* **`toNat_sectorBase_offset`**, **`pageInSector_offset`** — the sector grid of the part is the grid
  of sixteen blocks of the region.
* **`checkRequest_eq`** — what a request is refused for, and when.
-/

namespace NorDisk

/-- Place in its sector of the page at an offset. -/
def pageInSector (offset : UInt32) : Fin 16 := ⟨offset.toNat % 4096 / 256, by omega⟩

namespace Layout

/-- Every byte of the part has an address in the read window. -/
def WindowFits (l : Layout) : Prop := windowBase.toNat + l.flashBytes.toNat ≤ 0x100000000

instance (l : Layout) : Decidable l.WindowFits := inferInstanceAs (Decidable (_ ≤ _))

/-- Blocks in the data region. -/
def blocks (l : Layout) : Nat := (l.flashBytes.toNat - l.regionBase.toNat) / 256

/-- Offset of block `k` in the part. -/
def blockOffset (l : Layout) (k : Nat) : Nat := l.regionBase.toNat + 256 * k

/-- Offset of a block, as a word. -/
def offset (l : Layout) (lba : UInt32) : UInt32 := l.regionBase + lba * blockBytes

variable {l : Layout} {lba : UInt32}

/-- The region begins with a sector. -/
theorem Valid.regionBase_mod (h : l.Valid) : l.regionBase.toNat % 4096 = 0 := by
  have := congrArg UInt32.toNat h.1
  simpa [sectorBytes] using this

/-- The part ends with a sector. -/
theorem Valid.flashBytes_mod (h : l.Valid) : l.flashBytes.toNat % 4096 = 0 := by
  have := congrArg UInt32.toNat h.2.1
  simpa [sectorBytes] using this

theorem Valid.regionBase_lt (h : l.Valid) : l.regionBase.toNat < l.flashBytes.toNat :=
  UInt32.lt_iff_toNat_lt.mp h.2.2

/-- The region ends with the part. -/
theorem Valid.blockOffset_blocks (h : l.Valid) : l.blockOffset l.blocks = l.flashBytes.toNat := by
  have hbase := h.regionBase_mod
  have hflash := h.flashBytes_mod
  have hlt := h.regionBase_lt
  unfold blockOffset blocks
  omega

/-- The region is a number of whole sectors. -/
theorem Valid.blocks_mod (h : l.Valid) : l.blocks % 16 = 0 := by
  have hbase := h.regionBase_mod
  have hflash := h.flashBytes_mod
  unfold blocks
  omega

/-- A block of the region lies in the part. -/
theorem Valid.blockOffset_le (h : l.Valid) {k : Nat} (hk : k < l.blocks) :
    l.blockOffset k + 256 ≤ l.flashBytes.toNat := by
  have hend := h.blockOffset_blocks
  unfold blockOffset at hend ⊢
  omega

/-- No part has more than `2 ^ 24` blocks, so that lengths in bytes fit a word. -/
theorem blocks_lt (l : Layout) : l.blocks < 0x1000000 := by
  have := l.flashBytes.toNat_lt
  unfold blocks
  omega

theorem toNat_regionBytes (h : l.Valid) :
    (l.flashBytes - l.regionBase).toNat = l.flashBytes.toNat - l.regionBase.toNat :=
  UInt32.toNat_sub_of_le _ _ (UInt32.le_iff_toNat_le.mpr (Nat.le_of_lt h.regionBase_lt))

theorem regionBytes_eq (h : l.Valid) : l.regionBytes = .ok (l.flashBytes - l.regionBase) :=
  Checked.sub_eq_ok (Nat.le_of_lt h.regionBase_lt)

theorem blockCount_eq (h : l.Valid) :
    l.blockCount = .ok ((l.flashBytes - l.regionBase) / blockBytes) := by
  rw [blockCount, regionBytes_eq h]
  rfl

theorem toNat_blockCount (h : l.Valid) :
    ((l.flashBytes - l.regionBase) / blockBytes).toNat = l.blocks := by
  rw [UInt32.toNat_div, toNat_regionBytes h]
  rfl

/-! ## The address of a block

`offset` is written with wrapping arithmetic; on a block of the region nothing wraps. -/

/-- The number of a block times its size does not wrap. -/
theorem toNat_mul_blockBytes (h : lba.toNat < l.blocks) :
    (lba * blockBytes).toNat = 256 * lba.toNat := by
  have := blocks_lt l
  rw [UInt32.toNat_mul, show blockBytes.toNat = 256 from rfl]
  omega

/-- The offset of a block is the sum that one would write. -/
theorem toNat_offset (hv : l.Valid) (h : lba.toNat < l.blocks) :
    (l.offset lba).toNat = l.blockOffset lba.toNat := by
  have hle := hv.blockOffset_le h
  have := l.flashBytes.toNat_lt
  unfold blockOffset at hle ⊢
  rw [offset, UInt32.toNat_add, toNat_mul_blockBytes h]
  omega

theorem ofNat_blockOffset (hv : l.Valid) (h : lba.toNat < l.blocks) :
    UInt32.ofNat (l.blockOffset lba.toNat) = l.offset lba := by
  rw [← toNat_offset hv h, UInt32.ofNat_toNat]

/-- On a block of the region the checked offset is there. -/
theorem offsetOf_eq (hv : l.Valid) (h : lba.toNat < l.blocks) :
    l.offsetOf lba = .ok (l.offset lba) := by
  have hle := hv.blockOffset_le h
  have hflash := l.flashBytes.toNat_lt
  have hmul := toNat_mul_blockBytes h
  have hcount := blocks_lt l
  unfold blockOffset at hle
  -- The product is checked before the sum, so it has to fit on its own.
  have hprod : Checked.mul lba blockBytes = .ok (lba * blockBytes) :=
    Checked.mul_eq_ok (by rw [show blockBytes.toNat = 256 from rfl]; omega)
  rw [offsetOf, hprod]
  exact Checked.add_eq_ok (by rw [hmul]; omega)

theorem mappedBase_eq (hv : l.Valid) (hw : l.WindowFits) :
    l.mappedBase = .ok (windowBase + l.regionBase) := by
  have := hv.regionBase_lt
  unfold WindowFits at hw
  exact Checked.add_eq_ok (by omega)

theorem toNat_mappedBase (hv : l.Valid) (hw : l.WindowFits) :
    (windowBase + l.regionBase).toNat = windowBase.toNat + l.regionBase.toNat := by
  have := hv.regionBase_lt
  unfold WindowFits at hw
  rw [UInt32.toNat_add]
  omega

/-- On a block of the region the checked address in the window is there. -/
theorem mappedOf_eq (hv : l.Valid) (hw : l.WindowFits) (h : lba.toNat < l.blocks) :
    l.mappedOf lba = .ok (windowBase + l.offset lba) := by
  have hle := hv.blockOffset_le h
  have hmul := toNat_mul_blockBytes h
  have hcount := blocks_lt l
  have hbase := toNat_mappedBase hv hw
  unfold blockOffset at hle
  unfold WindowFits at hw
  have hprod : Checked.mul lba blockBytes = .ok (lba * blockBytes) :=
    Checked.mul_eq_ok (by rw [show blockBytes.toNat = 256 from rfl]; omega)
  -- The window and the region are added first; `offset` adds them in another order.
  rw [mappedOf, mappedBase_eq hv hw, hprod, offset, ← UInt32.add_assoc]
  exact Checked.add_eq_ok (by rw [hbase, hmul]; omega)

/-- The address of a block is its offset from the window. -/
theorem mappedOf_eq_ok_iff (hv : l.Valid) (hw : l.WindowFits) {addr : UInt32}
    (h : lba.toNat < l.blocks) :
    l.mappedOf lba = .ok addr ↔ addr.toNat = windowBase.toNat + l.blockOffset lba.toNat := by
  have hle := hv.blockOffset_le h
  have hoffset := toNat_offset hv h
  unfold WindowFits at hw
  -- The window and the offset add up to no more than the window and the part.
  have haddr : (windowBase + l.offset lba).toNat = windowBase.toNat + l.blockOffset lba.toNat := by
    rw [UInt32.toNat_add, hoffset]
    omega
  rw [mappedOf_eq hv hw h, Except.ok.injEq, ← UInt32.toNat_inj, haddr, eq_comm]

/-- The number after a block of the region is a number. -/
theorem add_one_eq (h : lba.toNat < l.blocks) :
    Checked.add lba 1 = .ok (lba + 1) ∧ (lba + 1).toNat = lba.toNat + 1 := by
  have := blocks_lt l
  refine ⟨Checked.add_eq_ok ?_, ?_⟩
  · rw [show (1 : UInt32).toNat = 1 from rfl]; omega
  · rw [UInt32.toNat_add, show (1 : UInt32).toNat = 1 from rfl]; omega

/-! ## The block at an address -/

/-- The search for the block at an address answers for every address. -/
theorem blockAt?_eq_ite (hv : l.Valid) (hw : l.WindowFits) (addr : UInt32) :
    l.blockAt? addr = .ok
      (if windowBase + l.regionBase ≤ addr ∧ (addr - (windowBase + l.regionBase)) % blockBytes = 0 ∧
          addr - (windowBase + l.regionBase) < l.flashBytes - l.regionBase then
        some ((addr - (windowBase + l.regionBase)) / blockBytes)
      else none) := by
  rw [blockAt?, mappedBase_eq hv hw, regionBytes_eq hv]
  simp only [bind, Except.bind, pure, Except.pure]
  -- The tests come one by one, and the first that fails ends the search.
  grind

theorem blockAt?_ne_error (hv : l.Valid) (hw : l.WindowFits) (addr : UInt32) (cause : Trap) :
    l.blockAt? addr ≠ .error cause := by
  rw [blockAt?_eq_ite hv hw]
  exact nofun

/-- A block is found at an address exactly if it is a block of the region and begins there. -/
theorem blockAt?_eq_some_iff (hv : l.Valid) (hw : l.WindowFits) {addr : UInt32} :
    l.blockAt? addr = .ok (some lba) ↔
      lba.toNat < l.blocks ∧ addr.toNat = windowBase.toNat + l.blockOffset lba.toNat := by
  have hbase := toNat_mappedBase hv hw
  have hregion := toNat_regionBytes hv
  have hend := hv.blockOffset_blocks
  have hzero : (0 : UInt32).toNat = 0 := rfl
  have hblock : blockBytes.toNat = 256 := rfl
  rw [blockAt?_eq_ite hv hw, Except.ok.injEq]
  unfold blockOffset at hend ⊢
  by_cases hle : windowBase + l.regionBase ≤ addr
  · have hoffset := UInt32.toNat_sub_of_le _ _ hle
    simp only [Option.ite_none_right_eq_some, Option.some.injEq, hle, true_and,
      UInt32.lt_iff_toNat_lt, ← UInt32.toNat_inj, UInt32.toNat_div, UInt32.toNat_mod, hblock, hzero,
      hoffset, hregion, hbase]
    rw [UInt32.le_iff_toNat_le] at hle
    omega
  · -- Below the region no block is found, and none begins there.
    rw [if_neg fun h => hle h.1]
    rw [UInt32.le_iff_toNat_le] at hle
    constructor
    · exact nofun
    · omega

/-! ## The sector grid

Region and part begin on sector boundaries, so the sectors of the part cut the region into runs of
sixteen blocks. -/

/-- The sector of a block begins with the first of its sixteen blocks. -/
theorem toNat_sectorBase_offset (hv : l.Valid) (h : lba.toNat < l.blocks) :
    (sectorBase (l.offset lba)).toNat = l.blockOffset (16 * (lba.toNat / 16)) := by
  have hbase := hv.regionBase_mod
  rw [toNat_sectorBase, toNat_offset hv h]
  unfold blockOffset
  omega

/-- A block lies in its sector at the rest of its number by sixteen. -/
theorem pageInSector_offset (hv : l.Valid) (h : lba.toNat < l.blocks) :
    (pageInSector (l.offset lba)).val = lba.toNat % 16 := by
  have hbase := hv.regionBase_mod
  simp only [pageInSector, toNat_offset hv h]
  unfold blockOffset
  omega

theorem blockInSector_eq_zero_iff (lba : UInt32) : blockInSector lba = 0 ↔ lba.toNat % 16 = 0 := by
  rw [← UInt32.toNat_inj, toNat_blockInSector]
  rfl

/-- Two blocks lie in one sector exactly if they are in the same run of sixteen. -/
theorem sectorBase_offset_eq_iff (hv : l.Valid) {a b : UInt32} (ha : a.toNat < l.blocks)
    (hb : b.toNat < l.blocks) :
    sectorBase (l.offset a) = sectorBase (l.offset b) ↔ a.toNat / 16 = b.toNat / 16 := by
  rw [← UInt32.toNat_inj, toNat_sectorBase_offset hv ha, toNat_sectorBase_offset hv hb]
  unfold blockOffset
  omega

/-- The sector of a block lies in the part. -/
theorem sectorBase_offset_le (hv : l.Valid) (h : lba.toNat < l.blocks) :
    (sectorBase (l.offset lba)).toNat + 4096 ≤ l.flashBytes.toNat := by
  have hend := hv.blockOffset_blocks
  have hmod := hv.blocks_mod
  rw [toNat_sectorBase_offset hv h]
  unfold blockOffset at hend ⊢
  omega

/-! ## Requests -/

/-- A request is refused for its range first and for its buffer second. -/
theorem checkRequest_eq (hv : l.Valid) (lba count : UInt32) (room : Nat) :
    l.checkRequest lba count room =
      if l.blocks < lba.toNat + count.toNat then .error (.refused (.outOfRange lba count))
      else if room < 256 * count.toNat then
        .error (.refused (.bufferTooSmall (256 * count.toNat) room))
      else .ok () := by
  simp only [checkRequest, blockCount_eq hv, toNat_blockCount hv]

end Layout

namespace Board

/-- The parts of all boards fit into the window. -/
theorem windowFits (b : Board) : b.layout.WindowFits := by cases b <;> decide

end Board

end NorDisk
