import NorDisk.Proofs.FileFormat
import NorDisk.Proofs.Replay
import NorDisk.Tool.Product

/-!
# The image of an update

`uf2` wraps data in an update file, `image` replays such a file into the part of a board. One after
the other they give the data back, at its place in the region and with erased bytes around it.

* **`replay_meets`** — the records of data leave its blocks in the region, one after the other.
* **`toList_extract_region`** — the region of a memory is its blocks, end to end.
* **`image_of_update`** — the two commands, for every board, policy and placement.
-/

namespace NorDisk

open Outcome Memory

namespace BlockArray

theorem store_concat (A : BlockArray) (lba : Nat) (blocks : List (List UInt8))
    (block : List UInt8) :
    A.store lba (blocks ++ [block]) = (A.store lba blocks).store (lba + blocks.length) [block] := by
  funext k
  simp only [store, List.length_append, List.length_singleton, List.getD_eq_getElem?_getD]
  -- Places before the last block, its own place, and those after it.
  rcases Nat.lt_trichotomy k (lba + blocks.length) with hlt | rfl | hgt
  · by_cases hlow : lba ≤ k
    · rw [if_pos (by omega), if_neg (by omega), if_pos (by omega),
        List.getElem?_append_left (by omega)]
    · rw [if_neg (by omega), if_neg (by omega), if_neg (by omega)]
  · rw [if_pos (by omega), if_pos (by omega), Nat.add_sub_cancel_left, Nat.sub_self,
      List.getElem?_append_right (Nat.le_refl _), Nat.sub_self]
  · rw [if_neg (by omega), if_neg (by omega), if_neg (by omega)]

/-- The first `n` blocks of data, from block `lba` on, in an array that is blank otherwise. -/
def filled (data : ByteArray) (lba n : Nat) : BlockArray :=
  store (fun _ => blankBlock) lba ((List.range n).map fun i => read data (256 * i) 256)

theorem filled_succ (data : ByteArray) (lba n : Nat) :
    filled data lba (n + 1) = (filled data lba n).store (lba + n) [read data (256 * n) 256] := by
  rw [filled, List.range_succ, List.map_append, List.map_singleton, store_concat, List.length_map,
    List.length_range]
  rfl

theorem filled_of_not_mem (data : ByteArray) {lba n k : Nat} (h : k < lba ∨ lba + n ≤ k) :
    filled data lba n k = blankBlock := by
  rw [filled, store, if_neg]
  rw [List.length_map, List.length_range]
  omega

theorem filled_add (data : ByteArray) (lba : Nat) {n i : Nat} (h : i < n) :
    filled data lba n (lba + i) = read data (256 * i) 256 := by
  rw [filled, store, if_pos, Nat.add_sub_cancel_left, List.getD_eq_getElem?_getD,
    List.getElem?_map, List.getElem?_range h]
  · rfl
  · rw [List.length_map, List.length_range]
    omega

end BlockArray

namespace Uf2

variable {l : Layout}

/-- The record for a block of data is placed where its target says. -/
theorem placement_blockRecord (hv : l.Valid) (hw : l.WindowFits) (data : ByteArray)
    (family : UInt32) {base : UInt32} {lba i : Nat}
    (hbase : base.toNat = windowBase.toNat + l.blockOffset lba) (hi : lba + i < l.blocks) :
    ∃ block, placement l (blockRecord data base family i) = .ok block ∧ block.toNat = lba + i := by
  have hend := hv.blockOffset_le hi
  have hmod := hv.regionBase_mod
  have htarget : (blockRecord data base family i).target.toNat =
      windowBase.toNat + l.blockOffset (lba + i) := by
    unfold Layout.WindowFits at hw
    unfold Layout.blockOffset at hbase hend ⊢
    rw [toNat_target (by omega)]
    omega
  have haligned : (blockRecord data base family i).target % blockBytes = 0 := by
    rw [← UInt32.toNat_inj, UInt32.toNat_mod, htarget]
    unfold Layout.blockOffset
    show (0x20000000 + (l.regionBase.toNat + 256 * (lba + i))) % 256 = 0
    omega
  have hcount := l.blocks_lt
  have hnumber : (UInt32.ofNat (lba + i)).toNat = lba + i :=
    UInt32.toNat_ofNat_of_lt' (show lba + i < 2 ^ 32 by omega)
  have hblock : l.blockAt? (blockRecord data base family i).target =
      .ok (some (UInt32.ofNat (lba + i))) := by
    rw [Layout.blockAt?_eq_some_iff hv hw, hnumber]
    exact ⟨hi, htarget⟩
  have hpayload : (blockRecord data base family i).payloadSize = blockBytes := rfl
  refine ⟨UInt32.ofNat (lba + i), ?_, hnumber⟩
  rw [placement, if_neg (not_not_intro hpayload), if_neg (not_not_intro haligned), hblock]

end Uf2

namespace Tool

open Uf2

variable {l : Layout} {patience : Patience} {c : Bench.Setting} {policy : ErasePolicy}

/-- **A replay.** The records of data leave its blocks in the region of a blank part. -/
theorem replay_meets (hv : l.Valid) (hw : l.WindowFits) (hp : patience.Ample c.step)
    (hsize : l.flashBytes.toNat ≤ c.size) (hbrisk : c.Brisk patience.timeout) {data : ByteArray}
    {base : UInt32} {lba : Nat} (hbase : base.toNat = windowBase.toNat + l.blockOffset lba)
    (hroom : lba + blocksFor data.size ≤ l.blocks) {f : File}
    (hcount : f.count = blocksFor data.size)
    (hrecord : ∀ i < blocksFor data.size, f.record i = (blockRecord data base l.family i).encode)
    (start : Intake (Bench NorPart)) (hfamily : start.transfer.family = l.family)
    (hblank : Holds l patience c (fun _ => blankBlock) start.disk policy) :
    Meets (fun _ i => i.disk.device.Steady c i.disk.store.mode ∧ ∀ k < l.blocks,
        BlockArray.filled data lba (blocksFor data.size) k =
          l.regionBlocks i.disk.device.part.memory k)
      (fun _ _ => False) (replay f start) := by
  rw [replay, hcount]
  refine Action.Meets.bind (Meets.foldlM_range (I := fun n i =>
      Holds l patience c (BlockArray.filled data lba n) i.disk policy ∧
        i.transfer.family = l.family) (blocksFor data.size) ?_ _ ?_) ?_
  · rintro n hn tally i ⟨hholds, hfamily⟩
    obtain ⟨block, hplace, hnumber⟩ :=
      placement_blockRecord hv hw data l.family hbase (show lba + n < l.blocks by omega)
    have hpayload := payload_blockRecord data base l.family n
    have hmain := isMainFlash_blockRecord data base l.family n
    have hown : (blockRecord data base l.family n).family = i.transfer.family := hfamily.symm
    rw [hrecord n hn]
    -- Nothing else about the record matters, and it must not be evaluated.
    generalize blockRecord data base l.family n = r at hplace hpayload hmain hown ⊢
    have hreceived := Intake.receive_meets hp hsize hw hbrisk hholds hown hmain hplace (by omega)
      (by rw [hpayload, length_read])
      fun k hlow hhigh => BlockArray.filled_of_not_mem data (Or.inr (by omega))
    refine Action.Meets.bind (Meets.mapError hreceived) ?_
    rintro status i' ⟨h', hfamily'⟩
    refine ⟨?_, hfamily'.trans hfamily⟩
    rw [BlockArray.filled_succ, ← hnumber, ← hpayload]
    exact h'
  · rw [BlockArray.filled, List.range_zero, List.map_nil, BlockArray.store_nil]
    exact ⟨hblank, hfamily⟩
  · rintro tally i ⟨hholds, -⟩
    refine Action.Meets.bind (Meets.mapError (Intake.withDisk_meets
      (Disk.flush_holds hp hsize hbrisk hholds))) ?_
    rintro _ i' ⟨-, h', hregion⟩
    exact ⟨h'.steady, hregion⟩

/-! ## The region as bytes -/

/-- The region of a memory is its blocks, end to end. -/
theorem toList_extract_region (hv : l.Valid) {memory : ByteArray}
    (hsize : memory.size = l.flashBytes.toNat) :
    (memory.extract l.regionBase.toNat memory.size).toList =
      ((List.range l.blocks).map (l.regionBlocks memory)).flatten := by
  have hend := hv.blockOffset_blocks
  unfold Layout.blockOffset at hend
  have hlength : memory.size - l.regionBase.toNat = 256 * l.blocks := by omega
  -- The region ends where the part does, so nothing has to be filled up.
  have hfull : ((memory.toList.drop l.regionBase.toNat).take (256 * l.blocks)).length =
      256 * l.blocks := by
    rw [List.length_take, List.length_drop, Bytes.length_toList]
    omega
  have hblocks : (List.range l.blocks).map (l.regionBlocks memory) =
      Bytes.pieces 256 l.blocks (read memory l.regionBase.toNat (256 * l.blocks)) :=
    (pieces_read _ _ _).symm
  rw [Bytes.toList_extract, hlength, hblocks, flatten_pieces_read, read_eq_rightpad, List.rightpad,
    hfull, Nat.sub_self, List.replicate_zero, List.append_nil]

/-- Data with erased bytes before it, and after it up to the end of a region. -/
def paddedData (data : ByteArray) (offset size : Nat) : List UInt8 :=
  List.replicate offset erasedByte ++ data.toList ++
    List.replicate (size - offset - data.size) erasedByte

theorem map_filled_of_not_mem (data : ByteArray) (lba n : Nat) {m : Nat} {place : Nat → Nat}
    (h : ∀ k < m, place k < lba ∨ lba + n ≤ place k) :
    (List.range m).map (fun k => BlockArray.filled data lba n (place k)) =
      List.replicate m blankBlock := by
  refine List.eq_replicate_iff.mpr ⟨by simp, fun block hblock => ?_⟩
  obtain ⟨k, hk, rfl⟩ := List.mem_map.mp hblock
  exact BlockArray.filled_of_not_mem data (h k (List.mem_range.mp hk))

/-- The blocks that hold data are the data, with the last one filled up. -/
theorem flatten_map_filled (data : ByteArray) (lba : Nat) :
    ((List.range (blocksFor data.size)).map fun k =>
      BlockArray.filled data lba (blocksFor data.size) (lba + k)).flatten =
        data.toList ++ List.replicate (256 * blocksFor data.size - data.size) erasedByte := by
  rw [← flatten_dataBlocks]
  exact congrArg _ (List.map_congr_left fun k hk =>
    BlockArray.filled_add data lba (List.mem_range.mp hk))

/-- The blocks of data in a blank array are the data with erased bytes around it. -/
theorem flatten_filled (data : ByteArray) {lba blocks : Nat}
    (hroom : lba + blocksFor data.size ≤ blocks) :
    ((List.range blocks).map (BlockArray.filled data lba (blocksFor data.size))).flatten =
      paddedData data (256 * lba) (256 * blocks) := by
  have hsize : data.size ≤ 256 * blocksFor data.size := by
    unfold blocksFor
    omega
  obtain ⟨rest, rfl⟩ := Nat.exists_eq_add_of_le hroom
  have hblank (n : Nat) : (List.replicate n blankBlock).flatten =
      List.replicate (n * 256) erasedByte := List.flatten_replicate_replicate
  -- The blocks before the data, those of the data, and those after it.
  have hbefore := map_filled_of_not_mem data lba (blocksFor data.size)
    fun k (hk : k < lba) => Or.inl hk
  have hafter := map_filled_of_not_mem data lba (blocksFor data.size)
    fun k (_ : k < rest) => Or.inr (Nat.le_add_right (lba + blocksFor data.size) k)
  rw [List.range_add, List.range_add, List.map_append, List.map_append, List.map_map,
    List.map_map, List.flatten_append, List.flatten_append]
  simp only [Function.comp_def]
  rw [hbefore, hafter, hblank, hblank, flatten_map_filled, paddedData]
  simp only [List.append_assoc, List.replicate_append_replicate]
  congr 2
  · omega
  · congr 2
    omega

/-- A byte list without the erased bytes at its end. -/
def trimErased (bytes : List UInt8) : List UInt8 :=
  (bytes.reverse.dropWhile (· == erasedByte)).reverse

theorem take_usedLength (bytes : ByteArray) {n : Nat} (hn : n ≤ bytes.size) :
    bytes.toList.take (usedLength bytes n) = trimErased (bytes.toList.take n) := by
  induction n with
  | zero => rfl
  | succ n ih =>
    have hlt : n < bytes.toList.length := by rw [Bytes.length_toList]; omega
    have hbyte : byteAt bytes n = bytes.toList[n] := by
      rw [byteAt_eq_getD, List.getD_eq_getElem?_getD, List.getElem?_eq_getElem hlt,
        Option.getD_some]
    -- Seen from the end, the byte in question comes first.
    have hlast : (bytes.toList.take (n + 1)).reverse =
        bytes.toList[n] :: (bytes.toList.take n).reverse := by
      rw [List.take_succ_eq_append_getElem hlt, List.reverse_append]
      rfl
    rw [usedLength, trimErased, hlast, List.dropWhile_cons, hbyte]
    by_cases herased : bytes.toList[n] = erasedByte
    · rw [if_pos herased, if_pos (by simp [herased]), ih (by omega), trimErased]
    · rw [if_neg herased, if_neg (by simp [herased]), ← hlast, List.reverse_reverse]

/-! ## The commands -/

theorem of_checkPlacement (hv : l.Valid) {offset : UInt32} {size : Nat}
    (h : checkPlacement l offset size = .ok ()) :
    offset.toNat % 4096 = 0 ∧ offset.toNat + size ≤ 256 * l.blocks := by
  have hend := hv.blockOffset_blocks
  have hbytes := Layout.toNat_regionBytes hv
  unfold Layout.blockOffset at hend
  rw [checkPlacement, Layout.regionBytes_eq hv] at h
  simp only [bind, Except.bind, pure, Except.pure, Making.ofChecked, throw, throwThe,
    MonadExceptOf.throw] at h
  split at h
  · exact nomatch h
  · rename_i haligned
    split at h
    · exact nomatch h
    · rename_i hfits
      have haligned := congrArg UInt32.toNat (Decidable.not_not.mp haligned)
      rw [UInt32.toNat_mod] at haligned
      exact ⟨haligned, by omega⟩

/-- The update file for data that has a place: its records, for addresses from that place on. -/
theorem exists_uf2Product (hv : l.Valid) (hw : windowBase.toNat + l.flashBytes.toNat < 0x100000000)
    (file output : String) {offset : UInt32} {data : ByteArray}
    (h : checkPlacement l offset data.size = .ok ()) :
    ∃ p base, uf2Product file output l offset data = .ok p ∧
      base.toNat = windowBase.toNat + l.blockOffset (offset.toNat / 256) ∧
      p.contents.toList = ((List.range (blocksFor data.size)).map
        fun i => (blockRecord data base l.family i).encode).flatten := by
  obtain ⟨haligned, hfits⟩ := of_checkPlacement hv h
  have hwindow : l.WindowFits := Nat.le_of_lt hw
  have hend := hv.blockOffset_blocks
  have hmapped := Layout.toNat_mappedBase hv hwindow
  unfold Layout.blockOffset at hend
  have hsum : Checked.add (windowBase + l.regionBase) offset =
      .ok (windowBase + l.regionBase + offset) := Checked.add_eq_ok (by omega)
  have hbase : (windowBase + l.regionBase + offset).toNat =
      windowBase.toNat + l.blockOffset (offset.toNat / 256) := by
    unfold Layout.blockOffset
    rw [UInt32.toNat_add, hmapped]
    omega
  -- Filled up to whole blocks, the data still ends inside the region.
  have hlast (i : Nat) (hi : i < blocksFor data.size) :
      (windowBase + l.regionBase + offset).toNat + 256 * i < 0x100000000 := by
    rw [hbase]
    unfold Layout.blockOffset
    unfold blocksFor at hi
    omega
  obtain ⟨bytes, hbytes, hlist⟩ := exists_encodeData l.family hlast
  rw [uf2Product, h, Layout.mappedBase_eq hv hwindow]
  simp only [bind, Except.bind, hsum, Making.ofChecked, hbytes]
  exact ⟨_, _, rfl, hbase, hlist⟩

theorem regionBlocks_blank (l : Layout) (size : Nat) :
    l.regionBlocks (Memory.blank size) = fun _ => blankBlock := by
  funext k
  exact read_eq_erased fun i _ => byteAt_blank _ _

/-- A replay starts with a blank part that answers the second poll. -/
def replayStart (hv : l.Valid) (policy : ErasePolicy) : Intake (Bench NorPart) :=
  Intake.fresh { family := l.family } l hv policy busyTimeout 1 ⟨0, 1⟩
    (Memory.blank l.flashBytes.toNat)

theorem freshIntake_eq (hv : l.Valid) (policy : ErasePolicy) :
    freshIntake l policy = .ok (replayStart hv policy) := by
  rw [freshIntake, Store.ofLayout, dif_pos hv]
  rfl

/-- A replay starts with a disk of blank blocks, on a part that is never slow. -/
theorem replayStart_holds (hv : l.Valid) (policy : ErasePolicy) :
    ∃ c : Bench.Setting, ({} : Patience).Ample c.step ∧ l.flashBytes.toNat = c.size ∧
      c.Brisk ({} : Patience).timeout ∧ c.misuse = {} ∧
      Holds l {} c (fun _ => blankBlock) (replayStart hv policy).disk policy := by
  have hholds := Holds.fresh hv policy {} (Memory.blank l.flashBytes.toNat) 1 ⟨0, 1⟩
  rw [regionBlocks_blank] at hholds
  have hample : ({} : Patience).Ample (1 : UInt32) := .ofTimeout (by decide) (by decide)
  exact ⟨(Bench.fresh (Memory.blank l.flashBytes.toNat) 1 ⟨0, 1⟩).setting, hample,
    (size_blank _).symm, ⟨rfl, by show 1 * 1 ≤ 1000; decide⟩, rfl, hholds⟩

theorem imageProduct_eq (hv : l.Valid) (output : String) (policy : ErasePolicy) (trim : Bool)
    {input : ByteArray} {f : File} (hf : File.ofBytes input = .ok f) :
    (∀ {fault i}, replay f (replayStart hv policy) = .error fault i →
      imageProduct output l policy trim input = .error fault) ∧
    ∀ {tally i}, replay f (replayStart hv policy) = .ok tally i →
      i.disk.device.part.misuse = {} →
      ∃ p, imageProduct output l policy trim input = .ok p ∧
        p.contents = regionOf l trim i.disk.device.part.memory := by
  have hread : (File.ofBytes input).mapError (Fault.refused ∘ Refusal.partialRecord) = .ok f := by
    rw [hf]
    rfl
  have hstart : Making.ofChecked (freshIntake l policy) = .ok (replayStart hv policy) := by
    rw [freshIntake_eq hv policy]
    rfl
  rw [imageProduct, hread, hstart]
  refine ⟨fun hreplay => ?_, fun hreplay hmisuse => ?_⟩
  · simp only [bind, Except.bind, hreplay]
  · have htotal : ¬ Misuse.total {} ≠ 0 := by decide
    simp only [bind, Except.bind, hreplay, hmisuse, if_neg htotal]
    exact ⟨_, rfl, rfl⟩

/-- The image of a part is its region, without the erased bytes at its end if they are trimmed. -/
theorem toList_regionOf (hv : l.Valid) (trim : Bool) {memory : ByteArray}
    (hsize : memory.size = l.flashBytes.toNat) :
    (regionOf l trim memory).toList =
      let region := ((List.range l.blocks).map (l.regionBlocks memory)).flatten
      if trim then trimErased region else region := by
  rw [regionOf, ← toList_extract_region hv hsize]
  cases trim with
  | false => rfl
  | true =>
    show (ByteArray.extract _ 0 _).toList = trimErased _
    rw [Bytes.toList_extract, List.drop_zero, Nat.sub_zero, take_usedLength _ (Nat.le_refl _),
      List.take_of_length_le (Nat.le_of_eq (Bytes.length_toList _))]

/-- Records of data, end to end, are a file of them. -/
theorem exists_file_of_records {data input : ByteArray} {base family : UInt32}
    (hinput : input.toList = ((List.range (blocksFor data.size)).map
      fun i => (blockRecord data base family i).encode).flatten) :
    ∃ f, File.ofBytes input = .ok f ∧ f.count = blocksFor data.size ∧
      ∀ i < blocksFor data.size, f.record i = (blockRecord data base family i).encode := by
  obtain ⟨f, hf, hcount, hrecord⟩ := File.record_eq hinput (by
    intro record hmem
    obtain ⟨i, -, rfl⟩ := List.mem_map.mp hmem
    exact Record.length_encode _)
  rw [List.length_map, List.length_range] at hcount
  refine ⟨f, hf, hcount, fun i hi => ?_⟩
  rw [hrecord i (by rwa [List.length_map, List.length_range]), List.getElem_map,
    List.getElem_range]

/-- The replay behind `image`: its part is never slow, so it comes to its end, without misuse. -/
theorem exists_replay_fresh (hv : l.Valid) (hw : l.WindowFits) (policy : ErasePolicy)
    {data : ByteArray} {base : UInt32} {lba : Nat}
    (hbase : base.toNat = windowBase.toNat + l.blockOffset lba)
    (hroom : lba + blocksFor data.size ≤ l.blocks) {f : File}
    (hcount : f.count = blocksFor data.size)
    (hrecord : ∀ i < blocksFor data.size, f.record i = (blockRecord data base l.family i).encode) :
    ∃ tally i,
      replay f (replayStart hv policy) = .ok tally i ∧
      i.disk.device.part.misuse = {} ∧
      i.disk.device.part.memory.size = l.flashBytes.toNat ∧
      (List.range l.blocks).map (l.regionBlocks i.disk.device.part.memory) =
        (List.range l.blocks).map (BlockArray.filled data lba (blocksFor data.size)) := by
  obtain ⟨c, hample, hlarge, hbrisk, hclean, hholds⟩ := replayStart_holds hv policy
  obtain ⟨tally, i, hreplay, hsteady, hregion⟩ := (replay_meets hv hw hample
    (Nat.le_of_eq hlarge) hbrisk hbase hroom hcount hrecord (replayStart hv policy) rfl hholds).ok
    fun _ _ => id
  -- Neither the size nor the count of misuse is part of what a run can change.
  have hmisuse : i.disk.device.part.misuse = {} :=
    (congrArg Bench.Setting.misuse hsteady.setting_eq).trans hclean
  refine ⟨tally, i, hreplay, hmisuse, hsteady.size_eq.trans hlarge.symm, ?_⟩
  exact List.map_congr_left fun k hk => (hregion k (List.mem_range.mp hk)).symm

/-- **The image of a file of data.** No record is rejected, no misuse is counted, and the image is
the data with erased bytes around it. -/
theorem exists_imageProduct (hv : l.Valid) (hw : l.WindowFits) (output : String)
    (policy : ErasePolicy) (trim : Bool) {data input : ByteArray} {base : UInt32} {lba : Nat}
    (hbase : base.toNat = windowBase.toNat + l.blockOffset lba)
    (hroom : lba + blocksFor data.size ≤ l.blocks)
    (hinput : input.toList = ((List.range (blocksFor data.size)).map
      fun i => (blockRecord data base l.family i).encode).flatten) :
    ∃ p, imageProduct output l policy trim input = .ok p ∧ p.contents.toList =
      let region := paddedData data (256 * lba) (256 * l.blocks)
      if trim then trimErased region else region := by
  obtain ⟨f, hf, hcount, hrecord⟩ := exists_file_of_records hinput
  obtain ⟨tally, i, hreplay, hmisuse, hsize, hblocks⟩ :=
    exists_replay_fresh hv hw policy hbase hroom hcount hrecord
  obtain ⟨p, hp, hcontents⟩ := (imageProduct_eq hv output policy trim hf).2 hreplay hmisuse
  have hregion := toList_regionOf hv trim hsize
  rw [hblocks, flatten_filled data hroom] at hregion
  exact ⟨p, hp, by rw [hcontents, hregion]⟩

/-- **Round trip.** The file that `uf2` writes for data replays into an image of the data region
that holds the data at its offset and erased bytes everywhere else; trimming drops the erased bytes
at its end. That the image was made says that no record was rejected and no misuse counted. -/
theorem image_of_update (b : Board) (policy : ErasePolicy) (file update output : String)
    {offset : UInt32} {data : ByteArray}
    (h : checkPlacement b.layout offset data.size = .ok ()) :
    let size := b.layout.flashBytes.toNat - b.layout.regionBase.toNat
    let region := List.replicate offset.toNat erasedByte ++ data.toList ++
      List.replicate (size - offset.toNat - data.size) erasedByte
    ∃ written whole trimmed,
      Command.make (.uf2 file update b offset) data = .ok written ∧
      Command.make (.image update output b policy false) written.contents = .ok whole ∧
      Command.make (.image update output b policy true) written.contents = .ok trimmed ∧
      whole.contents.size = size ∧ whole.contents.toList = region ∧
      trimmed.contents.toList = (region.reverse.dropWhile (· == erasedByte)).reverse := by
  intro size region
  have hv := b.layout_valid
  have hw := b.windowFits
  have hstrict : windowBase.toNat + b.layout.flashBytes.toNat < 0x100000000 := by
    cases b <;> decide
  obtain ⟨haligned, hfits⟩ := of_checkPlacement hv h
  obtain ⟨written, base, hwritten, hbase, hcontents⟩ := exists_uf2Product hv hstrict file update h
  -- The offset starts a sector, hence a block.
  have hroom : offset.toNat / 256 + blocksFor data.size ≤ b.layout.blocks := by
    unfold blocksFor
    omega
  obtain ⟨whole, hwhole, hregion⟩ :=
    exists_imageProduct hv hw output policy false hbase hroom hcontents
  obtain ⟨trimmed, htrimmed, hregion'⟩ :=
    exists_imageProduct hv hw output policy true hbase hroom hcontents
  have hsize : 256 * b.layout.blocks = size := by
    have hend := hv.blockOffset_blocks
    unfold Layout.blockOffset at hend
    show _ = b.layout.flashBytes.toNat - b.layout.regionBase.toNat
    omega
  have hoffset : 256 * (offset.toNat / 256) = offset.toNat := by omega
  rw [hoffset, hsize] at hregion hregion'
  refine ⟨written, whole, trimmed, hwritten, hwhole, htrimmed, ?_, hregion, hregion'⟩
  rw [← Bytes.length_toList, hregion]
  show (paddedData data offset.toNat size).length = size
  rw [paddedData, List.length_append, List.length_append, List.length_replicate,
    List.length_replicate, Bytes.length_toList]
  omega

/-- Three bytes in the second sector of the region. -/
theorem image_of_update_three_bytes :
    let layout := Board.orangeCrabR01.layout
    let data := ByteArray.mk #[0x5A, 0x00, 0xFF]
    let size := layout.flashBytes.toNat - layout.regionBase.toNat
    let region := List.replicate (0x1000 : UInt32).toNat erasedByte ++ data.toList ++
      List.replicate (size - (0x1000 : UInt32).toNat - data.size) erasedByte
    checkPlacement layout 0x1000 data.size = .ok () ∧
      ∃ written whole trimmed,
        Command.make (.uf2 "d" "d.uf2" .orangeCrabR01 0x1000) data = .ok written ∧
        Command.make (.image "d.uf2" "d.bin" .orangeCrabR01 .onSectorStart false)
          written.contents = .ok whole ∧
        Command.make (.image "d.uf2" "d.bin" .orangeCrabR01 .onSectorStart true)
          written.contents = .ok trimmed ∧
        whole.contents.size = size ∧ whole.contents.toList = region ∧
        trimmed.contents.toList = (region.reverse.dropWhile (· == erasedByte)).reverse := by
  have hfits : checkPlacement Board.orangeCrabR01.layout 0x1000
      (ByteArray.mk #[0x5A, 0x00, 0xFF]).size = .ok () := rfl
  exact ⟨hfits, image_of_update .orangeCrabR01 .onSectorStart "d" "d.uf2" "d.bin" hfits⟩

end Tool

end NorDisk
