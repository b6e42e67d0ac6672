import NorDisk.Proofs.Execution
import NorDisk.Proofs.StagedDisk

/-!
# The blocks that a staged disk holds

A disk with a staged sector holds an array of blocks: those of the sector in its copy, all others in
the memory of its device. `Layout.Represents` is that relation. What carries it across a write-back
that stops half way is that the memory of a sector with pending writes does not matter: it may be
erased, or half written, and the array is still there.

* **`NorLaws`** — a device that executes commands of the region on a memory, or executes some of
  them and fails.
* **`NorLaws.keeper`** — on such a device a staged disk goes on to represent its array.
* **`readBlocks_held`** — and a read answers the blocks of the array.
-/

namespace NorDisk

open Outcome Memory

/-- The blocks of a staged disk: those of a staged sector in its copy, all others in the memory. -/
def Layout.heldBlocks (l : Layout) : Option StagedSector → ByteArray → BlockArray
  | none, memory => l.regionBlocks memory
  | some s, memory => fun k =>
    if s.base.toNat = l.blockOffset (16 * (k / 16)) then
      s.block ⟨k % 16, Nat.mod_lt _ (by decide)⟩
    else l.regionBlocks memory k

/-- The copy of a sector agrees with the memory. -/
def StagedSector.Copies (s : StagedSector) (memory : ByteArray) : Prop :=
  ∀ k : Fin 16, s.block k = read memory (s.base.toNat + 256 * k.val) 256

/-- Stage and memory hold an array; a copy without pending writes is a true copy. -/
structure Layout.Represents (l : Layout) (stage : Option StagedSector) (A : BlockArray)
    (memory : ByteArray) : Prop where
  copies : ∀ s, stage = some s → s.dirty = false → s.Copies memory
  block_eq : ∀ k < l.blocks, A k = l.heldBlocks stage memory k

namespace Layout

variable {l : Layout} {s : StagedSector} {memory memory' : ByteArray} {k : Nat}

/-- A block lies behind the first block of its sector. -/
theorem blockOffset_eq (l : Layout) (k : Nat) :
    l.blockOffset k = l.blockOffset (16 * (k / 16)) + 256 * (k % 16) := by
  unfold blockOffset
  omega

/-- A stretch of the region, cut into blocks. -/
theorem pieces_read_region (l : Layout) (memory : ByteArray) (k n : Nat) :
    Bytes.pieces 256 n (read memory (l.blockOffset k) (256 * n)) =
      (List.range n).map fun i => l.regionBlocks memory (k + i) := by
  rw [pieces_read]
  simp only [regionBlocks, blockOffset, Nat.mul_add, Nat.add_assoc]

/-- Which blocks are taken from the copy. -/
theorem heldBlocks_some (l : Layout) (s : StagedSector) (memory : ByteArray) (k : Nat) :
    l.heldBlocks (some s) memory k =
      if s.base.toNat = l.blockOffset (16 * (k / 16)) then
        s.block ⟨k % 16, Nat.mod_lt _ (by decide)⟩
      else l.regionBlocks memory k := rfl

/-- Without a stage the array is in the memory. -/
theorem represents_none_iff {A : BlockArray} :
    l.Represents none A memory ↔ ∀ k < l.blocks, A k = l.regionBlocks memory k :=
  ⟨(·.block_eq), fun h => ⟨by simp, h⟩⟩

/-- A copy that agrees with the memory makes no difference. -/
theorem heldBlocks_of_copies (h : s.Copies memory) :
    l.heldBlocks (some s) memory = l.regionBlocks memory := by
  funext k
  rw [heldBlocks_some]
  split
  · rename_i hbase
    -- A block of the staged sector is read from its copy, which has what the memory has.
    rw [h ⟨k % 16, _⟩, regionBlocks, blockOffset_eq, hbase]
  · rfl

/-- The memory of the staged sector does not matter. -/
theorem heldBlocks_congr (hv : l.Valid) (hfits : s.Fits l)
    (h : ∀ j, j < s.base.toNat ∨ s.base.toNat + 4096 ≤ j → byteAt memory' j = byteAt memory j) :
    l.heldBlocks (some s) memory' = l.heldBlocks (some s) memory := by
  funext k
  rw [heldBlocks_some, heldBlocks_some]
  split
  · rfl
  · rename_i hbase
    -- Sectors are aligned, so one that is not the staged one does not overlap it.
    have hmod := hfits.base_mod
    have hregion := hv.regionBase_mod
    apply read_congr
    intro i hi
    apply h
    unfold blockOffset at hbase ⊢
    omega

/-- A block put into the staged sector is held in its place. -/
theorem heldBlocks_put (hv : l.Valid) {lba : UInt32} (hlba : lba.toNat < l.blocks)
    (hbase : s.base = sectorBase (l.offset lba)) {block : List UInt8}
    (hblock : block.length = 256) :
    l.heldBlocks (some (s.put (pageInSector (l.offset lba)) block)) memory =
      (l.heldBlocks (some s) memory).store lba.toNat [block] := by
  have hstart := toNat_sectorBase_offset hv hlba
  have hpage := pageInSector_offset hv hlba
  rw [← hbase] at hstart
  funext k
  rw [heldBlocks_some, BlockArray.store, heldBlocks_some, StagedSector.base_put,
    StagedSector.block_put hblock]
  -- The block itself, the others of its sector, and those of other sectors.
  by_cases hk : k = lba.toNat
  · subst hk
    rw [if_pos hstart, if_pos (Fin.ext hpage), if_pos (by simp), Nat.sub_self]
    rfl
  · have hnot : ¬ (lba.toNat ≤ k ∧ k < lba.toNat + [block].length) := by
      rw [List.length_singleton]
      omega
    rw [if_neg hnot]
    by_cases hsector : s.base.toNat = l.blockOffset (16 * (k / 16))
    · have hsame : k / 16 = lba.toNat / 16 := by
        unfold blockOffset at hsector hstart
        omega
      have hne : pageInSector (l.offset lba) ≠ ⟨k % 16, Nat.mod_lt _ (by decide)⟩ := by
        rw [Ne, Fin.ext_iff, hpage]
        show ¬ lba.toNat % 16 = k % 16
        omega
      rw [if_pos hsector, if_pos hsector, if_neg hne]
    · rw [if_neg hsector, if_neg hsector]

/-- Bytes are shown one by one, so two stretches are shown one after the other. -/
theorem overlaid_append (s : StagedSector) (offset : Nat) (bytes bytes' : List UInt8) :
    s.overlaid offset (bytes ++ bytes') =
      s.overlaid offset bytes ++ s.overlaid (offset + bytes.length) bytes' := by
  simp only [StagedSector.overlaid, List.mapIdx_append, Nat.add_assoc, Nat.add_comm bytes.length]

/-- A block lies in one sector, so a read shows all of it from the copy or all of it from the
memory. -/
theorem overlaid_block (hv : l.Valid) (hfits : s.Fits l) (k : Nat) :
    s.overlaid (l.blockOffset k) (l.regionBlocks memory k) =
      l.heldBlocks (some s) memory k := by
  have hmod := hfits.base_mod
  have hregion := hv.regionBase_mod
  have hoffset := blockOffset_eq l k
  have hlength : (l.regionBlocks memory k).length = 256 := length_read _ _ _
  rw [heldBlocks_some]
  unfold blockOffset at hoffset ⊢
  apply List.ext_getElem
  · rw [StagedSector.length_overlaid, hlength]
    split
    · rw [s.length_block]
    · rw [hlength]
  · intro j hj _
    rw [StagedSector.length_overlaid, hlength] at hj
    simp only [StagedSector.overlaid, List.getElem_mapIdx]
    -- Byte `j` of the block lies in the staged sector with its block, or outside of it.
    by_cases hbase : s.base.toNat = l.regionBase.toNat + 256 * (16 * (k / 16))
    · have hdata := s.length_data
      have hplace : l.regionBase.toNat + 256 * k + j - s.base.toNat = 256 * (k % 16) + j := by omega
      simp only [if_pos hbase, StagedSector.block, Bytes.blockAt, List.getElem_take,
        List.getElem_drop]
      rw [if_pos (by omega), hplace, List.getD_eq_getElem?_getD,
        List.getElem?_eq_getElem (by omega), Option.getD_some]
    · simp only [if_neg hbase]
      rw [if_neg (by omega)]

/-- **Reading over the stage.** Blocks read from the memory, with what is staged taken from the
copy, are the blocks that are held. -/
theorem overlaid_read (hv : l.Valid) (hfits : s.Fits l) (k n : Nat) :
    s.overlaid (l.blockOffset k) (read memory (l.blockOffset k) (256 * n)) =
      ((List.range n).map fun i => l.heldBlocks (some s) memory (k + i)).flatten := by
  induction n with
  | zero => rfl
  | succ n ih =>
    -- The last block comes behind those before it.
    have hnext : l.blockOffset k + 256 * n = l.blockOffset (k + n) := by
      unfold blockOffset
      omega
    rw [Nat.mul_succ, read_add, overlaid_append, length_read, ih, hnext, List.range_succ,
      List.map_append, List.flatten_append, List.map_cons, List.map_nil, List.flatten_cons,
      List.flatten_nil, List.append_nil]
    exact congrArg _ (overlaid_block hv hfits (k + n))

end Layout

namespace StagedSector

/-- Page `k` of a stretch of a sector is the stretch of the page. -/
theorem take_drop_read (memory : ByteArray) (start : Nat) (k : Fin 16) :
    ((read memory start 4096).drop (256 * k.val)).take 256 =
      read memory (start + 256 * k.val) 256 := by
  have hk := k.isLt
  have hlen : 4096 = 256 * k.val + (256 + (3840 - 256 * k.val)) := by omega
  rw [hlen, read_add, List.drop_left' (length_read _ _ _), read_add,
    List.take_left' (length_read _ _ _)]

/-- Commands of a write-back, be it all of them or some, reach no byte of another sector. -/
theorem byteAt_applyAll_of_subset {l : Layout} {s : StagedSector} (h : s.Fits l)
    {commands : List Command} (hsubset : commands ⊆ s.writeBack) {memory : ByteArray} {j : Nat}
    (hj : j < s.base.toNat ∨ s.base.toNat + 4096 ≤ j) :
    byteAt (Command.applyAll commands memory) j = byteAt memory j := by
  refine Command.byteAt_applyAll_of_not_touches fun command hmem htouch => ?_
  have := (of_mem_writeBack h (hsubset hmem)).2 j htouch
  omega

/-- A sector staged from the memory is a true copy. -/
theorem copies_ofBytes {base : UInt32} {bytes : List UInt8} {memory : ByteArray}
    (hlength : bytes.length = 4096) (h : bytes = read memory base.toNat 4096) :
    (ofBytes base bytes hlength).Copies memory := by
  intro k
  have hk := take_drop_read memory base.toNat k
  rw [← h] at hk
  exact hk

end StagedSector

/-! ## Arrays under the operations -/

namespace Layout.Represents

variable {l : Layout} {stage : Option StagedSector} {s : StagedSector} {A : BlockArray}
  {memory memory' : ByteArray}

/-- Without pending writes the array is in the memory. -/
theorem regionBlocks_eq (h : l.Represents stage A memory)
    (hpending : stage.filter (·.dirty) = none) {k : Nat} (hk : k < l.blocks) :
    A k = l.regionBlocks memory k := by
  rw [h.block_eq k hk]
  cases stage with
  | none => rfl
  | some s =>
    have hclean : s.dirty = false := by simpa using hpending
    rw [heldBlocks_of_copies (h.copies s rfl hclean)]

/-- What a read shows of a stretch of the memory is that stretch of the array. -/
theorem bytes_eq_shown (h : l.Represents stage A memory) (hv : l.Valid)
    (hfits : ∀ s, stage = some s → s.Fits l) {lba : UInt32} {n : Nat}
    (hrange : lba.toNat + n ≤ l.blocks) :
    A.bytes lba.toNat n =
      l.shown stage lba (read memory (l.blockOffset lba.toNat) (256 * n)) := by
  rw [shown]
  cases hpending : stage.filter (·.dirty) with
  | none =>
    rw [BlockArray.bytes, ← flatten_pieces_read, pieces_read_region]
    congr 1
    apply List.map_congr_left
    intro i hi
    have hi := List.mem_range.mp hi
    exact h.regionBlocks_eq hpending (by omega)
  | some s =>
    -- A sector is pending: what it has replaces what the window shows.
    obtain ⟨rfl, -⟩ := Option.filter_eq_some_iff.mp hpending
    show _ = s.overlaid _ _
    rw [overlaid_read hv (hfits s rfl), BlockArray.bytes]
    congr 1
    apply List.map_congr_left
    intro i hi
    have hi := List.mem_range.mp hi
    exact h.block_eq _ (by omega)

/-- While a sector has pending writes, its memory may become anything. -/
theorem rewrite (h : l.Represents (some s) A memory) (hv : l.Valid) (hfits : s.Fits l)
    (hdirty : s.dirty = true)
    (hmemory : ∀ j, j < s.base.toNat ∨ s.base.toNat + 4096 ≤ j →
      byteAt memory' j = byteAt memory j) :
    l.Represents (some s) A memory' where
  copies := by
    rintro _ ⟨⟩ hclean
    exact absurd hclean (by rw [hdirty]; exact Bool.noConfusion)
  block_eq k hk := by
    rw [h.block_eq k hk, heldBlocks_congr hv hfits hmemory]

/-- A sector may be staged when nothing is pending. -/
theorem load (h : l.Represents stage A memory) (hpending : stage.filter (·.dirty) = none)
    {base : UInt32} {bytes : List UInt8} (hlength : bytes.length = 4096)
    (hbytes : bytes = read memory base.toNat 4096) :
    l.Represents (some (.ofBytes base bytes hlength)) A memory where
  copies := by
    rintro _ ⟨⟩ -
    exact StagedSector.copies_ofBytes hlength hbytes
  block_eq k hk := by
    rw [h.regionBlocks_eq hpending hk]
    exact congrFun (heldBlocks_of_copies (StagedSector.copies_ofBytes hlength hbytes)).symm k

/-- A block is stored by putting it into the staged sector. -/
theorem put (h : l.Represents (some s) A memory) (hv : l.Valid) {lba : UInt32}
    (hlba : lba.toNat < l.blocks) (hbase : s.base = sectorBase (l.offset lba))
    {block : List UInt8} (hblock : block.length = 256) :
    l.Represents (some (s.put (pageInSector (l.offset lba)) block)) (A.store lba.toNat [block])
      memory where
  copies := by
    rintro _ ⟨⟩ hclean
    -- The copy has a pending write now, so nothing is said of the memory.
    rw [StagedSector.dirty_put hblock] at hclean
    exact nomatch hclean
  block_eq k hk := by
    rw [heldBlocks_put hv hlba hbase hblock, BlockArray.store, BlockArray.store]
    split
    · rfl
    · exact h.block_eq k hk

/-- Once the sector is in the memory, nothing is pending any more. -/
theorem clean (h : l.Represents (some s) A memory) (hcopies : s.Copies memory) :
    l.Represents (some { s with dirty := false }) A memory where
  copies := by
    rintro _ ⟨⟩ -
    exact hcopies
  block_eq k hk := h.block_eq k hk

end Layout.Represents

/-! ## Devices with a memory -/

variable {σ : Type} [Controller σ] [TickSource σ]

/-- A device with a memory that commands of the region change; `S` says what it serves, `bad` are
the faults that it may end with. -/
structure NorLaws (l : Layout) (patience : Patience) (memory : σ → ByteArray)
    (S : Mode → σ → Prop) (bad : Fault FlashError → Prop) : Prop where
  size_le : ∀ {mode s}, S mode s → l.flashBytes.toNat ≤ (memory s).size
  enterMapped : ∀ {mode s}, S mode s → S .mapped (Controller.enterMapped s) ∧
    memory (Controller.enterMapped s) = memory s
  enterCommand : ∀ {mode s}, S mode s → S .command (Controller.enterCommand s) ∧
    memory (Controller.enterCommand s) = memory s
  readMapped : ∀ {s} {addr : UInt32} {start : Nat} (len : Nat),
    addr.toNat = windowBase.toNat + start → S .mapped s →
    (Controller.readMapped addr len s).1 = read (memory s) start len ∧
      S .mapped (Controller.readMapped addr len s).2 ∧
      memory (Controller.readMapped addr len s).2 = memory s
  execute : ∀ {command : Command} {s}, command.Within l → S .command s →
    Meets (fun _ s' => S .command s' ∧ memory s' = command.apply (memory s))
      (fun fault s' => bad fault ∧ S .command s' ∧
        (memory s' = memory s ∨ memory s' = command.apply (memory s)))
      (Controller.execute patience command s)

namespace NorLaws

variable {l : Layout} {patience : Patience} {memory : σ → ByteArray} {S : Mode → σ → Prop}
  {bad : Fault FlashError → Prop} {s : σ}

/-- All commands are executed on the memory, or some of them. -/
theorem executeAll (laws : NorLaws l patience memory S bad) {commands : List Command}
    (hwithin : ∀ command ∈ commands, command.Within l) (h : S .command s) :
    Meets (fun _ s' => S .command s' ∧ memory s' = Command.applyAll commands (memory s))
      (fun fault s' => bad fault ∧ ∃ sent, sent <+: commands ∧ S .command s' ∧
        memory s' = Command.applyAll sent (memory s))
      (Controller.executeAll patience commands s) := by
  refine Controller.executeAll_meets
    (S := fun sent s' => S .command s' ∧ memory s' = Command.applyAll sent (memory s)) ?_ ⟨h, rfl⟩
  intro sent command hmem s₁ h₁
  obtain ⟨h₁, hmemory₁⟩ := h₁
  have happlied : Command.applyAll (sent ++ [command]) (memory s) = command.apply (memory s₁) := by
    rw [Command.applyAll_append, ← hmemory₁]
    rfl
  rw [happlied, ← hmemory₁]
  apply (laws.execute (hwithin command hmem) h₁).mono
  · intro _ s₂ h₂
    exact h₂
  · intro fault s₂ h₂
    obtain ⟨hbad, h₂, hmemory₂⟩ := h₂
    exact ⟨hbad, hmemory₂.imp (⟨h₂, ·⟩) (⟨h₂, ·⟩)⟩

/-- The device serves a mode and holds an array together with a stage. -/
def Holding (l : Layout) (memory : σ → ByteArray) (S : Mode → σ → Prop) (mode : Mode)
    (stage : Option StagedSector) (A : BlockArray) (s : σ) : Prop :=
  S mode s ∧ l.Represents stage A (memory s)

/-- **Staged disks keep their array.** -/
theorem keeper (laws : NorLaws l patience memory S bad) (hv : l.Valid) :
    Keeper l patience bad (Holding l memory S) where
  enterMapped h := by
    obtain ⟨hserves, hmemory⟩ := laws.enterMapped h.1
    exact ⟨hserves, hmemory ▸ h.2⟩
  enterCommand h := by
    obtain ⟨hserves, hmemory⟩ := laws.enterCommand h.1
    exact ⟨hserves, hmemory ▸ h.2⟩
  readMapped haddr _ _ h := by
    obtain ⟨-, hserves, hmemory⟩ := laws.readMapped _ haddr h.1
    exact ⟨hserves, hmemory ▸ h.2⟩
  load haddr _ hpending h := by
    obtain ⟨hbytes, hserves, hmemory⟩ := laws.readMapped sectorBytes.toNat haddr h.1
    refine ⟨hserves, ?_⟩
    rw [hmemory]
    exact h.2.load hpending _ hbytes
  put hlba hbase hblock h := ⟨h.1, h.2.put hv hlba hbase hblock⟩
  writeBack := by
    intro t A s hfits hdirty h
    have hwithin : ∀ command ∈ t.writeBack, command.Within l :=
      fun command hmem => (StagedSector.of_mem_writeBack hfits hmem).1
    -- What was written lies in the staged sector, whose writes are still pending.
    have hrewritten {commands : List Command} (hsubset : commands ⊆ t.writeBack) :
        l.Represents (some t) A (Command.applyAll commands (memory s)) :=
      h.2.rewrite hv hfits hdirty fun _ hj =>
        StagedSector.byteAt_applyAll_of_subset hfits hsubset hj
    apply (laws.executeAll hwithin h.1).mono
    · intro _ s' h'
      obtain ⟨hserves, hmemory⟩ := h'
      refine ⟨hserves, ?_⟩
      rw [hmemory]
      exact (hrewritten (List.Subset.refl _)).clean fun k =>
        (StagedSector.read_applyAll_writeBack hfits (laws.size_le h.1) k).symm
    · intro fault s' h'
      obtain ⟨hbad, sent, hsent, hserves, hmemory⟩ := h'
      refine ⟨hbad, hserves, ?_⟩
      rw [hmemory]
      exact hrewritten hsent.subset

end NorLaws

namespace Disk

variable {l : Layout} {policy : ErasePolicy} {patience : Patience} {memory : σ → ByteArray}
  {S : Mode → σ → Prop} {bad : Fault FlashError → Prop} {A : BlockArray} {d : Disk σ}

/-- **Reading.** The front of the buffer is replaced by the blocks of the array. -/
theorem readBlocks_held (laws : NorLaws l patience memory S bad) (hw : l.WindowFits)
    (h : Kept l policy patience (NorLaws.Holding l memory S) A d) (buffer : List UInt8)
    (lba count : UInt32) :
    Meets (fun bytes d' => l.refusal? lba count buffer.length = none ∧
        bytes = Bytes.overwrite buffer (A.bytes lba.toNat count.toNat) ∧
        Kept l policy patience (NorLaws.Holding l memory S) A d' ∧ d'.store.stage = d.store.stage)
      (fun fault d' => ∃ error, fault = .refused error ∧
        l.refusal? lba count buffer.length = some error ∧ d' = d)
      (readBlocks buffer lba count d) := by
  have hv := h.valid
  apply (readBlocks_kept (laws.keeper hv) hw h buffer lba count).mono
  · intro bytes d' h'
    obtain ⟨haccepted, hkept, hstage, hbytes⟩ := h'
    refine ⟨haccepted, ?_, hkept, hstage⟩
    rcases hbytes with ⟨rfl, rfl⟩ | ⟨hcount, addr, s, haddr, hs, rfl⟩
    · rfl
    · obtain ⟨-, hrange, -⟩ := Layout.of_refusal?_eq_none hcount haccepted
      rw [(laws.readMapped _ haddr hs.1).1, hs.2.bytes_eq_shown hv h.fits hrange]
  · intro fault d' h'
    exact h'

end Disk

end NorDisk
