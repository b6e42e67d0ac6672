import NorDisk.Proofs.Addressing

/-!
# One address for each block

A block has a number, an offset in the part and an address in the read window, and each of the
functions between them does its own arithmetic. On a checked layout with a part that fits into the
address space they agree: a number and an address determine each other, an offset is an address less
the start of the window, and the blocks lie side by side on the sector grid of the part.

* **`Layout.Covers`** — the bytes of a block; `covers_iff` puts them into `Nat`.
* **`Layout.Located`** — offset, address and sector of one block; **`located`** gives all three to a
  block of the region.
* **`addresses_bijective`** — the functions together, for every address and every number.
-/

namespace NorDisk.Layout

/-- Byte `i` of the part is one of the 256 bytes at the offset of a block. -/
def Covers (l : Layout) (lba : UInt32) (i : Nat) : Prop :=
  ∃ offset, l.offsetOf lba = .ok offset ∧ offset.toNat ≤ i ∧ i < offset.toNat + 256

/-- Where a block lies. Its sector begins with the first block of the sixteen in it, and is a whole
sector of the region. -/
structure Located (l : Layout) (lba offset addr : UInt32) : Prop where
  offset_eq : l.offsetOf lba = .ok offset
  addr_eq : l.mappedOf lba = .ok addr
  window_eq : Checked.sub addr windowBase = .ok offset
  sector_eq : l.offsetOf (lba - lba % 16) = .ok (sectorBase offset)
  sector_ge : l.regionBase ≤ sectorBase offset
  sector_le : (sectorBase offset).toNat + 4096 ≤ l.flashBytes.toNat

variable {l : Layout} {lba lba' : UInt32} {i : Nat}

theorem covers_iff (hv : l.Valid) (h : lba.toNat < l.blocks) :
    l.Covers lba i ↔ l.blockOffset lba.toNat ≤ i ∧ i < l.blockOffset lba.toNat + 256 := by
  simp only [Covers, offsetOf_eq hv h, Except.ok.injEq, exists_eq_left', toNat_offset hv h]

/-- The blocks of the region have no byte in common. -/
theorem Covers.unique (hv : l.Valid) (h : lba.toNat < l.blocks) (h' : lba'.toNat < l.blocks)
    (hi : l.Covers lba i) (hi' : l.Covers lba' i) : lba = lba' := by
  rw [covers_iff hv h] at hi
  rw [covers_iff hv h'] at hi'
  unfold blockOffset at hi hi'
  exact UInt32.toNat_inj.mp (by omega)

/-- They leave no byte of it out, and reach no other. -/
theorem exists_covers_iff (hv : l.Valid) :
    (∃ lba, lba.toNat < l.blocks ∧ l.Covers lba i) ↔
      l.regionBase.toNat ≤ i ∧ i < l.flashBytes.toNat := by
  have hend := hv.blockOffset_blocks
  unfold blockOffset at hend
  constructor
  · intro ⟨lba, h, hi⟩
    rw [covers_iff hv h] at hi
    unfold blockOffset at hi
    omega
  · intro hi
    -- The block is found by division, which leaves the place of the byte in the block.
    have hcount := l.blocks_lt
    have hblock : (UInt32.ofNat ((i - l.regionBase.toNat) / 256)).toNat =
        (i - l.regionBase.toNat) / 256 :=
      UInt32.toNat_ofNat_of_lt' (show _ < 2 ^ 32 by omega)
    have h : (UInt32.ofNat ((i - l.regionBase.toNat) / 256)).toNat < l.blocks := by
      rw [hblock]
      omega
    refine ⟨_, h, (covers_iff hv h).mpr ?_⟩
    rw [hblock]
    unfold blockOffset
    omega

/-- The first block of a sector has the offset at which the sector begins. -/
theorem offsetOf_sectorStart (hv : l.Valid) (h : lba.toNat < l.blocks) :
    l.offsetOf (lba - lba % 16) = .ok (sectorBase (l.offset lba)) := by
  have hmod : (lba % 16).toNat = lba.toNat % 16 := UInt32.toNat_mod lba 16
  have hle : lba % 16 ≤ lba := by
    rw [UInt32.le_iff_toNat_le, hmod]
    exact Nat.mod_le _ _
  have hfirst : (lba - lba % 16).toNat = 16 * (lba.toNat / 16) := by
    rw [UInt32.toNat_sub_of_le _ _ hle, hmod]
    omega
  have hinside : (lba - lba % 16).toNat < l.blocks := by omega
  rw [offsetOf_eq hv hinside, Except.ok.injEq, ← UInt32.toNat_inj, toNat_offset hv hinside,
    toNat_sectorBase_offset hv h, hfirst]

/-- Every block of the region lies somewhere. -/
theorem located (hv : l.Valid) (hw : l.WindowFits) (h : lba.toNat < l.blocks) :
    l.Located lba (l.offset lba) (windowBase + l.offset lba) := by
  have haddr := (mappedOf_eq_ok_iff hv hw h).mp (mappedOf_eq hv hw h)
  have hoffset := toNat_offset hv h
  refine ⟨offsetOf_eq hv h, mappedOf_eq hv hw h, ?_, offsetOf_sectorStart hv h, ?_,
    sectorBase_offset_le hv h⟩
  · rw [Checked.sub_eq_ok (by omega), UInt32.add_comm, UInt32.add_sub_cancel]
  · rw [UInt32.le_iff_toNat_le, toNat_sectorBase_offset hv h]
    exact Nat.le_add_right _ _

/-- **Block addressing is a bijection.** On a checked layout whose part fits into the address space,
the block at an address is `lba` exactly if `lba` is a block of the region and has that address;
every block is located; and the blocks tile the bytes of the region. -/
theorem addresses_bijective {l : Layout} (h : l.validate = .ok ()) (hw : l.WindowFits) :
    ∃ count, l.blockCount = .ok count ∧
      (∀ addr, ∃ found, l.blockAt? addr = .ok found ∧
        ∀ lba, found = some lba ↔ lba < count ∧ l.mappedOf lba = .ok addr) ∧
      (∀ lba, lba < count → ∃ offset addr, l.Located lba offset addr) ∧
      (∀ i, (∃ lba, lba < count ∧ l.Covers lba i) ↔
        l.regionBase.toNat ≤ i ∧ i < l.flashBytes.toNat) ∧
      ∀ i lba lba', lba < count → lba' < count → l.Covers lba i → l.Covers lba' i → lba = lba' := by
  have hv := (validate_eq_ok_iff l).mp h
  refine ⟨_, blockCount_eq hv, ?_⟩
  simp only [UInt32.lt_iff_toNat_lt, toNat_blockCount hv]
  refine ⟨fun addr => ⟨_, blockAt?_eq_ite hv hw addr, fun lba => ?_⟩,
    fun lba hlba => ⟨_, _, located hv hw hlba⟩, fun i => exists_covers_iff hv,
    fun i lba lba' hlba hlba' => Covers.unique hv hlba hlba'⟩
  rw [← Except.ok.injEq, ← blockAt?_eq_ite hv hw, blockAt?_eq_some_iff hv hw]
  -- Either side names a block of the region, and there the address is the same sum.
  exact and_congr_right fun hlba => (mappedOf_eq_ok_iff hv hw hlba).symm

/-- The largest part that fits, with its region in the last sector: the window ends with the address
space. -/
theorem addresses_bijective_on_last_sector :
    let l : Layout :=
      { name := "largest", flashBytes := 0xE0000000, regionBase := 0xDFFFF000, clockHz := 12000000
        family := boardFamily, bootImage := 0 }
    l.validate = .ok () ∧ l.WindowFits ∧
      ∃ count, l.blockCount = .ok count ∧
        (∀ addr, ∃ found, l.blockAt? addr = .ok found ∧
          ∀ lba, found = some lba ↔ lba < count ∧ l.mappedOf lba = .ok addr) ∧
        (∀ lba, lba < count → ∃ offset addr, l.Located lba offset addr) ∧
        (∀ i, (∃ lba, lba < count ∧ l.Covers lba i) ↔
          l.regionBase.toNat ≤ i ∧ i < l.flashBytes.toNat) ∧
        ∀ i lba lba', lba < count → lba' < count → l.Covers lba i → l.Covers lba' i →
          lba = lba' := by
  intro l
  have hvalid : l.validate = .ok () := (validate_eq_ok_iff l).mpr (by decide)
  have hfits : l.WindowFits := by decide
  exact ⟨hvalid, hfits, addresses_bijective hvalid hfits⟩

end NorDisk.Layout
