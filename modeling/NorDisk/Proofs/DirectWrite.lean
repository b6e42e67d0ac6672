import NorDisk.Proofs.Refinement

/-!
# Writing at once

A disk that does not stage sectors holds in its memory whatever it holds. A write there erases the
sector of a block that starts one and programs the block over what is left. That stores the block
like an array would where the block is `BlockArray.Writable`: it is blank, and so is the sector that
it starts. A client that writes the blocks of a blank part in order never notices the difference.

* **`BlockArray.programBlock`** — what writing one block at once comes to, whatever was there
  (`regionBlocks_applyAll_blockWrite`).
* **`regionBlocks_blockWrite`**, **`regionBlocks_writes`** — what the commands of one block and of
  many do to the blocks of a memory.
* **`writeBlocks_held`** — a write at once, on any device with a memory.
* **`Direct`** — the disk on a bench.
-/

namespace NorDisk

open Outcome Memory

/-- A block of erased bytes. -/
def blankBlock : List UInt8 := List.replicate 256 erasedByte

namespace Layout

variable {l : Layout} {memory : ByteArray} {lba : UInt32} {k : Nat}

/-- Erasing the sector of a block of the region makes its sixteen blocks blank. -/
theorem regionBlocks_apply_erase (hv : l.Valid) (hlba : lba.toNat < l.blocks) (k : Nat) :
    l.regionBlocks ((Command.erase (sectorBase (l.offset lba))).apply memory) k =
      if k / 16 = lba.toNat / 16 then blankBlock else l.regionBlocks memory k := by
  have hstart := toNat_sectorBase_offset hv hlba
  have hmod : (sectorBase (l.offset lba)).toNat % 4096 = 0 := by
    have := hv.regionBase_mod
    rw [hstart]
    unfold blockOffset
    omega
  by_cases hsector : k / 16 = lba.toNat / 16
  · rw [if_pos hsector, regionBlocks, blankBlock]
    refine read_eq_erased fun i hi => ?_
    rw [Command.byteAt_apply_erase hmod, if_pos]
    rw [hstart]
    unfold blockOffset
    omega
  · rw [if_neg hsector]
    refine read_apply_of_not_touches fun j hj => ?_
    obtain ⟨hlow, hhigh⟩ := hj
    -- Blocks of other sectors do not overlap the erased one.
    have hself : (sectorBase (sectorBase (l.offset lba))).toNat =
        (sectorBase (l.offset lba)).toNat := by
      rw [toNat_sectorBase, hmod]
      rfl
    rw [hself, hstart] at hlow hhigh
    unfold blockOffset at hlow hhigh ⊢
    omega

/-- Programming a block clears the bits of it that the data does not have, and keeps the others. -/
theorem regionBlocks_apply_program (hv : l.Valid) (hlba : lba.toNat < l.blocks)
    (hsize : l.flashBytes.toNat ≤ memory.size) {block : List UInt8} (hlength : block.length = 256)
    (k : Nat) :
    l.regionBlocks ((Command.program (l.offset lba) block).apply memory) k =
      if k = lba.toNat then List.zipWith (· &&& ·) (l.regionBlocks memory k) block
      else l.regionBlocks memory k := by
  have hoffset := toNat_offset hv hlba
  have hmod := hv.regionBase_mod
  by_cases hk : k = lba.toNat
  · have hend := hv.blockOffset_le hlba
    rw [if_pos hk, hk, regionBlocks, regionBlocks, ← hoffset]
    exact read_apply_program (by rw [hoffset]; unfold blockOffset; omega) hlength (by omega)
  · rw [if_neg hk]
    -- Another block has another page.
    refine read_apply_of_not_touches fun j hj => ?_
    obtain ⟨hlow, hhigh⟩ := hj
    rw [hoffset] at hlow hhigh
    unfold blockOffset at hlow hhigh ⊢
    omega

end Layout

namespace BlockArray

variable {l : Layout} {A : BlockArray} {k b : Nat} {block : List UInt8}

/-- The array after block `b` was written at once: the other blocks of a sector that it starts are
blank, any other block is programmed over what is left. -/
def programBlock (A : BlockArray) (b : Nat) (block : List UInt8) : BlockArray := fun k =>
  if k = b then if b % 16 = 0 then block else List.zipWith (· &&& ·) (A k) block
  else if b % 16 = 0 ∧ k / 16 = b / 16 then blankBlock
  else A k

/-- Block `k` can be written at once: it is blank, and erasing for it loses nothing. -/
def Writable (l : Layout) (A : BlockArray) (k : Nat) : Prop :=
  A k = blankBlock ∧ (k % 16 = 0 → ∀ j < l.blocks, j / 16 = k / 16 → A j = blankBlock)

/-- Whether a block is writable depends on the blocks of the region. -/
theorem Writable.congr {A' : BlockArray} (h : A.Writable l k) (hk : k < l.blocks)
    (heq : ∀ j < l.blocks, A' j = A j) : A'.Writable l k := by
  refine ⟨(heq k hk).trans h.1, fun hfirst j hj hsector => ?_⟩
  exact (heq j hj).trans (h.2 hfirst j hj hsector)

/-- Writing a block before it changes neither the block nor the sector that it starts. -/
theorem Writable.store (h : A.Writable l k) {lba : Nat} (hk : lba < k) (block : List UInt8) :
    (A.store lba [block]).Writable l k := by
  have hother {j : Nat} (hj : lba < j) : A.store lba [block] j = A j := by
    rw [BlockArray.store, if_neg]
    rw [List.length_singleton]
    omega
  refine ⟨(hother hk).trans h.1, fun hfirst j hj hsector => ?_⟩
  exact (hother (by omega)).trans (h.2 hfirst j hj hsector)

/-- Where everything from a block on is blank, the block is writable. -/
theorem Writable.of_blank (h : ∀ j, k ≤ j → j < l.blocks → A j = blankBlock) (hk : k < l.blocks) :
    A.Writable l k :=
  ⟨h k (Nat.le_refl _) hk, fun _ j hj _ => h j (by omega) hj⟩

/-- A writable block is stored. -/
theorem Writable.programBlock_eq (h : A.Writable l b) (hlength : block.length = 256)
    (hk : k < l.blocks) : A.programBlock b block k = A.store b [block] k := by
  rw [programBlock, BlockArray.store, List.length_singleton]
  by_cases hself : k = b
  · subst hself
    rw [if_pos rfl, if_pos (show k ≤ k ∧ k < k + 1 by omega), Nat.sub_self, h.1, blankBlock,
      zipWith_erased hlength]
    split <;> rfl
  · rw [if_neg hself, if_neg (show ¬ (b ≤ k ∧ k < b + 1) by omega)]
    -- What the erase makes blank was blank before.
    split
    · rename_i hsector
      exact (h.2 hsector.1 k hk hsector.2).symm
    · rfl

end BlockArray

namespace Layout

variable {l : Layout} {memory : ByteArray} {lba : UInt32} {k : Nat}

/-- What the commands of one block make of the blocks of a memory. -/
theorem regionBlocks_applyAll_blockWrite (hv : l.Valid) (hlba : lba.toNat < l.blocks)
    (hsize : l.flashBytes.toNat ≤ memory.size) {block : List UInt8} (hlength : block.length = 256)
    (k : Nat) :
    l.regionBlocks (Command.applyAll (l.blockWrite lba block) memory) k =
      (l.regionBlocks memory).programBlock lba.toNat block k := by
  rw [blockWrite, BlockArray.programBlock]
  by_cases hmod : lba.toNat % 16 = 0
  · have hsize' : l.flashBytes.toNat ≤
        ((Command.erase (sectorBase (l.offset lba))).apply memory).size := by
      rwa [Command.size_apply]
    rw [if_pos ((blockInSector_eq_zero_iff lba).mpr hmod), Command.applyAll_cons,
      Command.applyAll_cons, Command.applyAll_nil,
      regionBlocks_apply_program hv hlba hsize' hlength, regionBlocks_apply_erase hv hlba]
    -- The block that was erased first is programmed over blank bytes.
    by_cases hself : k = lba.toNat
    · rw [if_pos hself, if_pos hself, if_pos hmod, if_pos (by rw [hself]), blankBlock,
        zipWith_erased hlength]
    · rw [if_neg hself, if_neg hself]
      simp only [hmod, true_and]
  · rw [if_neg (mt (blockInSector_eq_zero_iff lba).mp hmod), Command.applyAll_cons,
      Command.applyAll_nil, regionBlocks_apply_program hv hlba hsize hlength, if_neg hmod,
      if_neg (not_and_of_not_left _ hmod)]

/-- A block is stored where it is writable. -/
theorem regionBlocks_blockWrite (hv : l.Valid) (hlba : lba.toNat < l.blocks)
    (hsize : l.flashBytes.toNat ≤ memory.size) {block : List UInt8} (hlength : block.length = 256)
    (hwritable : (l.regionBlocks memory).Writable l lba.toNat) (hk : k < l.blocks) :
    l.regionBlocks (Command.applyAll (l.blockWrite lba block) memory) k =
      (l.regionBlocks memory).store lba.toNat [block] k := by
  rw [regionBlocks_applyAll_blockWrite hv hlba hsize hlength, hwritable.programBlock_eq hlength hk]

/-- Blocks are stored where each of them is writable at first. Induction on the blocks: writing one
leaves those after it writable. -/
theorem regionBlocks_writes (hv : l.Valid) {blocks : List (List UInt8)}
    (hrange : lba.toNat + blocks.length ≤ l.blocks) (hsize : l.flashBytes.toNat ≤ memory.size)
    (hlength : ∀ block ∈ blocks, block.length = 256)
    (hwritable : ∀ i < blocks.length, (l.regionBlocks memory).Writable l (lba.toNat + i))
    (hk : k < l.blocks) :
    l.regionBlocks (Command.applyAll (l.writes lba blocks) memory) k =
      (l.regionBlocks memory).store lba.toNat blocks k := by
  induction blocks generalizing lba memory with
  | nil =>
    rw [BlockArray.store_nil]
    rfl
  | cons block rest ih =>
    rw [List.length_cons] at hrange hwritable
    have hlba : lba.toNat < l.blocks := by omega
    obtain ⟨-, hnext⟩ := add_one_eq hlba
    have hfirst : ∀ j < l.blocks,
        l.regionBlocks (Command.applyAll (l.blockWrite lba block) memory) j =
          (l.regionBlocks memory).store lba.toNat [block] j :=
      fun j hj => regionBlocks_blockWrite hv hlba hsize (hlength block List.mem_cons_self)
        (hwritable 0 (Nat.succ_pos _)) hj
    -- The blocks to come are writable still: those of the sector just erased were blank before.
    have hlater : ∀ i < rest.length,
        (l.regionBlocks (Command.applyAll (l.blockWrite lba block) memory)).Writable l
          ((lba + 1).toNat + i) := by
      intro i hi
      have hwritable := hwritable (i + 1) (Nat.succ_lt_succ hi)
      rw [show lba.toNat + (i + 1) = (lba + 1).toNat + i by omega] at hwritable
      exact (hwritable.store (by omega) block).congr (by omega) hfirst
    have happlied : Command.applyAll (l.writes lba (block :: rest)) memory =
        Command.applyAll (l.writes (lba + 1) rest)
          (Command.applyAll (l.blockWrite lba block) memory) := Command.applyAll_append _ _ _
    rw [happlied, ih (by omega) (by rwa [Command.size_applyAll])
      (fun b hb => hlength b (List.mem_cons_of_mem _ hb)) hlater, BlockArray.store_cons,
      ← hnext, BlockArray.store, BlockArray.store, hfirst k hk]

end Layout

/-! ## Devices with a memory

What a staged disk keeps also describes a disk that has nothing staged: its array is the one in the
memory. -/

namespace Disk

variable {σ : Type} [Controller σ] [TickSource σ] {l : Layout} {policy : ErasePolicy}
  {patience : Patience} {memory : σ → ByteArray} {S : Mode → σ → Prop}
  {bad : Fault FlashError → Prop} {A : BlockArray} {d : Disk σ}

/-- The commands of a write are executed on the memory. -/
theorem writeEach_held (laws : NorLaws l patience memory S bad)
    (h : Kept l policy patience (NorLaws.Holding l memory S) A d) (hstage : d.store.stage = none)
    {lba : UInt32} {blocks : List (List UInt8)} (hrange : lba.toNat + blocks.length ≤ l.blocks)
    (hlength : ∀ block ∈ blocks, block.length = 256)
    (hwritable : ∀ i < blocks.length, A.Writable l (lba.toNat + i)) :
    Meets
      (fun _ d' => Kept l policy patience (NorLaws.Holding l memory S)
        (A.store lba.toNat blocks) d' ∧ d'.store.stage = none)
      (fun fault _ => bad fault) (writeEach lba blocks d) := by
  have hv := h.valid
  have hdevice := h.device
  rw [hstage] at hdevice
  obtain ⟨hserves, hmemory⟩ := laws.enterCommand hdevice.1
  have hentered : Kept l policy patience (NorLaws.Holding l memory S) A
      ⟨{ d.store with mode := .command }, Controller.enterCommand d.device⟩ :=
    ⟨h.layout_eq, h.policy_eq, h.patience_eq, h.fits, (laws.keeper hv).enterCommand h.device⟩
  rw [writeEach_eq, h.layout_eq, h.patience_eq]
  have hwithin : ∀ command ∈ l.writes lba blocks, command.Within l :=
    fun command hmem => Layout.within_of_mem_writes hv hrange hlength hmem
  apply (onDevice_meets (laws.executeAll hwithin hserves)).mono
  · intro _ d' h'
    obtain ⟨hstore, hserves', hmemory'⟩ := h'
    rw [hmemory] at hmemory'
    -- All commands went through, so the memory has the blocks.
    have hblocks : ∀ k < l.blocks,
        A.store lba.toNat blocks k = l.regionBlocks (memory d'.device) k := by
      intro k hk
      have harray : ∀ j < l.blocks, l.regionBlocks (memory d.device) j = A j :=
        fun j hj => (hdevice.2.block_eq j hj).symm
      rw [hmemory', Layout.regionBlocks_writes hv hrange (laws.size_le hdevice.1) hlength
        (fun i hi => (hwritable i hi).congr (by omega) harray) hk, BlockArray.store,
        BlockArray.store, harray k hk]
    refine ⟨hentered.of_store_eq hstore ⟨hserves', ?_⟩, ?_⟩
    · show l.Represents d.store.stage _ _
      rw [hstage]
      exact Layout.represents_none_iff.mpr hblocks
    · rw [hstore]
      exact hstage
  · intro fault d' h'
    exact h'.2.1

/-- **Writing at once.** The blocks are stored if each of them is writable. -/
theorem writeBlocks_held (laws : NorLaws l patience memory S bad)
    (h : Kept l .onSectorStart patience (NorLaws.Holding l memory S) A d)
    (hstage : d.store.stage = none) (source : List UInt8) (lba count : UInt32)
    (hwritable : ∀ i < count.toNat, A.Writable l (lba.toNat + i)) :
    Meets
      (fun _ d' => Kept l .onSectorStart patience (NorLaws.Holding l memory S)
        (A.store lba.toNat (Bytes.pieces 256 count.toNat source)) d' ∧ d'.store.stage = none)
      (fun fault _ => (∃ error, fault = .refused error ∧
        l.refusal? lba count source.length = some error) ∨ bad fault)
      (writeBlocks source lba count d) := by
  by_cases hcount : count = 0
  · subst hcount
    refine ⟨?_, hstage⟩
    show Kept l .onSectorStart patience _ (A.store lba.toNat []) d
    rw [BlockArray.store_nil]
    exact h
  cases hrefusal : l.refusal? lba count source.length with
  | some error =>
    rw [writeBlocks_of_refusal (h.layout_eq ▸ hrefusal)]
    exact Or.inl ⟨error, rfl, rfl⟩
  | none =>
    -- The request is accepted, so its blocks are whole and in the region.
    obtain ⟨-, hrange, hroom⟩ := Layout.of_refusal?_eq_none hcount hrefusal
    have hpieces := Bytes.length_pieces 256 count.toNat source
    rw [writeBlocks_of_accepted hcount (h.layout_eq ▸ hrefusal), h.policy_eq]
    exact (writeEach_held laws h hstage (by rwa [hpieces])
      (fun block hmem => Bytes.length_of_mem_pieces hroom hmem) (by rwa [hpieces])).mono
      (fun _ _ h' => h') fun _ _ => Or.inr

end Disk

/-! ## Benches -/

/-- A disk that writes at once, on a bench with a setting, has an array of blocks in its memory. -/
structure Direct (l : Layout) (patience : Patience) (c : Bench.Setting) (A : BlockArray)
    (d : Disk (Bench NorPart)) : Prop where
  layout_eq : d.store.layout = l
  policy_eq : d.store.policy = .onSectorStart
  patience_eq : d.store.patience = patience
  stage_eq : d.store.stage = none
  steady : d.device.Steady c d.store.mode
  block_eq : ∀ k < l.blocks, A k = l.regionBlocks d.device.part.memory k

variable {l : Layout} {patience : Patience} {c : Bench.Setting} {A : BlockArray}
  {d : Disk (Bench NorPart)}

/-- To have an array in the memory is to keep the relation to it without a stage. -/
theorem direct_iff_kept : Direct l patience c A d ↔
    Disk.Kept l .onSectorStart patience
      (NorLaws.Holding l (fun b : Bench NorPart => b.part.memory) (Bench.Steady c)) A d ∧
      d.store.stage = none := by
  constructor
  · intro h
    refine ⟨⟨h.layout_eq, h.policy_eq, h.patience_eq, ?_, h.steady, ?_⟩, h.stage_eq⟩
    · rw [h.stage_eq]
      exact nofun
    · rw [h.stage_eq]
      exact Layout.represents_none_iff.mpr h.block_eq
  · intro h
    obtain ⟨hkept, hstage⟩ := h
    obtain ⟨hsteady, hblocks⟩ := hkept.device
    rw [hstage, Layout.represents_none_iff] at hblocks
    exact ⟨hkept.layout_eq, hkept.policy_eq, hkept.patience_eq, hstage, hsteady, hblocks⟩

end NorDisk
