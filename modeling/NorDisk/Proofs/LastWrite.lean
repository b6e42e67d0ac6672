import NorDisk.Proofs.UpdateImage

/-!
# The last record for a block wins

Under the policy that stages sectors the records of an update file may come in any order. A block
of the image is the payload of the last record for it, wherever in the file that record stands; what
the records before and after it say about the progress of the transfer does not matter, as the disk
is flushed once more at the end.

* **`lastWritten`** — the blocks that records leave in a blank region.
* **`Acceptable`** — the bytes of a record that is not rejected; this depends on the record alone.
* **`Intake.After`** — what holds after some records; **`receive_staged_meets`** is one of them,
  **`replay_staged_meets`** a file.
* **`image_of_last_writes`** — the image of a file none of whose records is rejected, and the same
  image for the file with records for different targets in another order.
-/

namespace NorDisk

open Outcome Memory

namespace Uf2

/-! ## Records and blocks -/

/-- The record is meant for block `k` of the main flash of a board. -/
def Record.IsFor (l : Layout) (k : Nat) (r : Record) : Prop :=
  r.isMainFlash = true ∧ ({ family := l.family } : Transfer).isForeign r = false ∧
    r.target.toNat = windowBase.toNat + l.blockOffset k

instance (l : Layout) (k : Nat) (r : Record) : Decidable (r.IsFor l k) :=
  inferInstanceAs (Decidable (_ ∧ _ ∧ _))

/-- A block holds the payload of the last record for it. -/
def lastWritten (l : Layout) (records : List Record) : BlockArray := fun k =>
  match (records.filter fun r => r.IsFor l k).getLast? with
  | some r => r.payload
  | none => blankBlock

/-- An array after one record more. -/
def taken (l : Layout) (r : Record) (A : BlockArray) : BlockArray := fun k =>
  if r.IsFor l k then r.payload else A k

/-- The records that some byte lists start with. -/
def decodeAll (records : List (List UInt8)) : List Record :=
  records.filterMap fun bytes => (Record.decode bytes).toOption

variable {l : Layout} {r : Record} {lba : UInt32} {bytes : List UInt8}

/-- One record more is decoded last. -/
theorem decodeAll_concat {records : List (List UInt8)}
    (h : Record.decode bytes = .ok r) :
    decodeAll (records ++ [bytes]) = decodeAll records ++ [r] := by
  rw [decodeAll, List.filterMap_append]
  simp [h, decodeAll, Except.toOption]

theorem decodeAll_encode (records : List Record) :
    decodeAll (records.map Record.encode) = records := by
  have hdecode : (fun bytes => (Record.decode bytes).toOption) ∘ Record.encode = some := by
    funext r
    exact congrArg Except.toOption r.decode_encode
  rw [decodeAll, List.filterMap_map, hdecode, List.filterMap_some]

/-- One record more is taken into the blocks. -/
theorem lastWritten_concat (records : List Record) (r : Record) :
    lastWritten l (records ++ [r]) = taken l r (lastWritten l records) := by
  funext k
  rw [lastWritten, taken, lastWritten, List.filter_append]
  by_cases h : r.IsFor l k
  · rw [if_pos h, List.filter_cons_of_pos (by simpa using h), List.filter_nil,
      List.getLast?_concat]
  · rw [if_neg h, List.filter_cons_of_neg (by simpa using h), List.filter_nil, List.append_nil]

/-- Records for one block have one target. -/
theorem filter_isFor_of_perm {middle middle' : List Record} (hperm : middle'.Perm middle)
    (hnodup : (middle.map (·.target)).Nodup) (k : Nat) :
    (middle'.filter fun r => r.IsFor l k) = middle.filter fun r => r.IsFor l k := by
  have hfilter := hperm.filter fun r => r.IsFor l k
  -- Two records for one block would have one target, against `hnodup`.
  have hpairs : (middle.filter fun r => r.IsFor l k).Pairwise (·.target ≠ ·.target) :=
    (List.pairwise_map.mp hnodup).filter _
  have hfor : ∀ r ∈ middle.filter fun r => r.IsFor l k,
      r.target.toNat = windowBase.toNat + l.blockOffset k := by
    intro r hr
    have hr := (List.mem_filter.mp hr).2
    exact (of_decide_eq_true hr).2.2
  -- So at most one of them is left.
  generalize (middle.filter fun r => r.IsFor l k) = left at hfilter hpairs hfor ⊢
  match left with
  | [] => exact List.perm_nil.mp hfilter
  | [r] => exact List.perm_singleton.mp hfilter
  | r :: r' :: rest =>
    have hne := (List.pairwise_cons.mp hpairs).1 r' List.mem_cons_self
    rw [Ne, ← UInt32.toNat_inj, hfor r (by simp), hfor r' (by simp)] at hne
    exact absurd rfl hne

/-- Records for different targets may come in any order. -/
theorem lastWritten_of_perm {front middle middle' back : List Record} (hperm : middle'.Perm middle)
    (hnodup : (middle.map (·.target)).Nodup) :
    lastWritten l (front ++ middle' ++ back) = lastWritten l (front ++ middle ++ back) := by
  funext k
  rw [lastWritten, lastWritten]
  simp only [List.filter_append, filter_isFor_of_perm hperm hnodup]

/-! ## Acceptable records -/

/-- The bytes of a record that a board takes or skips. -/
def Acceptable (l : Layout) (bytes : List UInt8) : Prop :=
  ∃ r, Record.decode bytes = .ok r ∧ (r.isMainFlash = true →
    ({ family := l.family } : Transfer).isForeign r = false → ∃ lba, placement l r = .ok lba)

/-- Whether bytes are acceptable is a matter of the record in them. -/
theorem acceptable_iff (h : Record.decode bytes = .ok r) :
    Acceptable l bytes ↔ (r.isMainFlash = true →
      ({ family := l.family } : Transfer).isForeign r = false →
        ∃ lba, placement l r = .ok lba) := by
  constructor
  · intro hacceptable
    obtain ⟨r', hr', hplaced⟩ := hacceptable
    obtain rfl := Except.ok.inj (h.symm.trans hr')
    exact hplaced
  · intro hplaced
    exact ⟨r, h, hplaced⟩

/-- A record that has a place has a whole block for it. -/
theorem of_placement (hv : l.Valid) (hw : l.WindowFits) (h : placement l r = .ok lba) :
    lba.toNat < l.blocks ∧ r.payload.length = 256 ∧
      r.target.toNat = windowBase.toNat + l.blockOffset lba.toNat := by
  unfold placement at h
  split at h
  · cases h
  · rename_i hsize
    split at h
    · cases h
    · split at h
      · cases h
      · cases h
      · rename_i lba' hplace
        obtain rfl := Except.ok.inj h
        obtain ⟨hlba, htarget⟩ := (Layout.blockAt?_eq_some_iff hv hw).mp hplace
        refine ⟨hlba, ?_, htarget⟩
        rw [Record.payload, Decidable.not_not.mp hsize, List.length_take, r.length_data]
        rfl

/-- A record for no block changes none. -/
theorem taken_of_not_for (h : ∀ k, ¬ r.IsFor l k) (A : BlockArray) : taken l r A = A := by
  funext k
  exact if_neg (h k)

/-- A record with a place is stored there. -/
theorem taken_of_placement (hv : l.Valid) (hw : l.WindowFits) (hmain : r.isMainFlash = true)
    (hforeign : ({ family := l.family } : Transfer).isForeign r = false)
    (h : placement l r = .ok lba) (A : BlockArray) :
    taken l r A = A.store lba.toNat [r.payload] := by
  obtain ⟨-, -, htarget⟩ := of_placement hv hw h
  funext k
  rw [taken, BlockArray.store, List.length_singleton]
  by_cases hk : k = lba.toNat
  · subst hk
    rw [if_pos ⟨hmain, hforeign, htarget⟩, if_pos (by omega), Nat.sub_self]
    rfl
  · rw [if_neg, if_neg (by omega)]
    -- Another block has another address.
    intro hfor
    have := hfor.2.2
    unfold Layout.blockOffset at htarget this
    omega

/-! ## One record -/

namespace Intake

variable {patience : Patience} {c : Bench.Setting} {A : BlockArray} {i : Intake (Bench NorPart)}

/-- **One record.** It is taken or skipped, unless it is not acceptable. -/
theorem receive_staged_meets (hp : patience.Ample c.step) (hsize : l.flashBytes.toNat ≤ c.size)
    (hv : l.Valid) (hw : l.WindowFits) (hbrisk : c.Brisk patience.timeout)
    (h : Holds l patience c A i.disk .staged) (hfamily : i.transfer.family = l.family)
    (hdecode : Record.decode bytes = .ok r) :
    Meets
      (fun _ i' => Acceptable l bytes ∧ Holds l patience c (taken l r A) i'.disk .staged ∧
        i'.transfer.family = i.transfer.family)
      (fun fault _ => ¬ Acceptable l bytes ∧ ∃ error, fault = .refused error)
      (receive bytes i) := by
  have hown : i.transfer.isForeign r = ({ family := l.family } : Transfer).isForeign r := by
    simp [Transfer.isForeign, hfamily]
  rw [receive, hdecode, Action.ofExcept_bind, ask_bind, hown, Action.ite_apply,
    acceptable_iff hdecode]
  cases hforeign : ({ family := l.family } : Transfer).isForeign r with
  | true =>
    rw [if_pos rfl, taken_of_not_for fun k hk => Bool.false_ne_true (hk.2.1.symm.trans hforeign)]
    exact ⟨fun _ htrue => absurd htrue.symm Bool.false_ne_true, h, rfl⟩
  | false =>
    rw [if_neg Bool.false_ne_true, Action.ite_apply]
    cases hmain : r.isMainFlash with
    | false =>
      rw [if_neg Bool.false_ne_true,
        taken_of_not_for fun k hk => Bool.false_ne_true (hmain.symm.trans hk.1)]
      exact (track_answer_meets hp hsize hbrisk h r _ _).mono
        (fun _ _ h' => ⟨fun hfalse => absurd hfalse Bool.false_ne_true, h'⟩) fun _ _ => False.elim
    | true =>
      rw [if_pos rfl, ask_bind, h.layout_eq]
      cases hplace : placement l r with
      | ok lba =>
        obtain ⟨hlba, hlength, -⟩ := of_placement hv hw hplace
        have hwritten : Meets
            (fun _ d' => Holds l patience c (A.store lba.toNat [r.payload]) d' .staged)
            (fun _ _ => False) (Disk.writeBlocks r.payload lba 1 i.disk) :=
          Disk.writeBlock_staged_meets hp hsize hw hbrisk h hlba hlength
        rw [taken_of_placement hv hw hmain hforeign hplace]
        exact (store_answer_meets hp hsize hbrisk hwritten _ _).mono
          (fun _ _ h' => ⟨fun _ _ => ⟨lba, rfl⟩, h'⟩) fun _ _ => False.elim
      -- The record has no place: it is counted and then refused, so it is not acceptable.
      | error fault =>
        cases fault with
        | trap cause => exact absurd hplace (placement_no_trap hv hw r cause)
        | refused error =>
          show Meets _ _ ((discard (track r) >>= _) i)
          rw [Action.discard_bind]
          apply Action.Meets.bind_of (track_meets hp hsize hbrisk h r)
          · intro _ _ hfalse
            exact hfalse.elim
          · intro _ _ _
            refine ⟨fun hplaced => ?_, error, rfl⟩
            obtain ⟨lba, hlba⟩ := hplaced rfl rfl
            cases hlba

/-- An intake on a disk that was blank before some records. -/
structure After (l : Layout) (patience : Patience) (c : Bench.Setting)
    (records : List (List UInt8)) (i : Intake (Bench NorPart)) : Prop where
  acceptable : ∀ bytes ∈ records, Acceptable l bytes
  family_eq : i.transfer.family = l.family
  holds : Holds l patience c (lastWritten l (decodeAll records)) i.disk .staged

/-- One record more. -/
theorem After.receive_meets (hp : patience.Ample c.step) (hsize : l.flashBytes.toNat ≤ c.size)
    (hv : l.Valid) (hw : l.WindowFits) (hbrisk : c.Brisk patience.timeout)
    {records : List (List UInt8)} (h : After l patience c records i) (bytes : List UInt8) :
    Meets (fun _ i' => After l patience c (records ++ [bytes]) i')
      (fun fault _ => ¬ Acceptable l bytes ∧ ∃ error, fault = .refused error)
      (receive bytes i) := by
  cases hdecode : Record.decode bytes with
  | error error =>
    rw [receive, hdecode]
    refine ⟨fun hacceptable => ?_, error, rfl⟩
    obtain ⟨r, hr, -⟩ := hacceptable
    cases hdecode.symm.trans hr
  | ok r =>
    apply (receive_staged_meets hp hsize hv hw hbrisk h.holds h.family_eq hdecode).mono
    · intro _ i' h'
      obtain ⟨hlast, hholds, hfamily⟩ := h'
      refine ⟨?_, hfamily.trans h.family_eq, ?_⟩
      · intro bytes' hbytes'
        rcases List.mem_append.mp hbytes' with hbytes' | hbytes'
        · exact h.acceptable bytes' hbytes'
        · rw [List.mem_singleton.mp hbytes']
          exact hlast
      · rw [decodeAll_concat hdecode, lastWritten_concat]
        exact hholds
    · intro _ _ h'
      exact h'

end Intake

end Uf2

namespace Tool

open Uf2

variable {l : Layout} {patience : Patience} {c : Bench.Setting}

/-- **A replay.** It leaves the last record for each block, unless a record is not acceptable. The
invariant is the same for the records before any place of the file. -/
theorem replay_staged_meets (hp : patience.Ample c.step) (hsize : l.flashBytes.toNat ≤ c.size)
    (hv : l.Valid) (hw : l.WindowFits) (hbrisk : c.Brisk patience.timeout) (f : File)
    {start : Intake (Bench NorPart)} (hstart : Intake.After l patience c [] start) :
    Meets
      (fun _ i => (∀ bytes ∈ f.records, Acceptable l bytes) ∧
        i.disk.device.Steady c i.disk.store.mode ∧
        ∀ k < l.blocks, lastWritten l (decodeAll f.records) k =
          l.regionBlocks i.disk.device.part.memory k)
      (fun fault _ => (∃ bytes ∈ f.records, ¬ Acceptable l bytes) ∧
        ∃ n error, fault = .refused (.rejected n error))
      (replay f start) := by
  rw [replay]
  refine Action.Meets.bind (Meets.foldlM_range
    (I := fun n => Intake.After l patience c ((List.range n).map f.record))
    f.count ?_ _ hstart) ?_
  · intro n hn tally i h
    have hreceived := h.receive_meets hp hsize hv hw hbrisk (f.record n)
    apply Action.Meets.bind (Meets.mapError_of hreceived ?_)
    · intro _ i' h'
      rw [List.range_succ, List.map_append, List.map_singleton]
      exact h'
    · intro fault _ h'
      obtain ⟨hrejected, error, rfl⟩ := h'
      have hmem : f.record n ∈ f.records := List.mem_map.mpr ⟨n, List.mem_range.mpr hn, rfl⟩
      exact ⟨error, rfl, ⟨f.record n, hmem, hrejected⟩, n, error, rfl⟩
  · -- After the last record the disk is flushed, so the array is in the memory.
    intro tally i h
    refine Action.Meets.bind_of (Meets.mapError (Intake.withDisk_meets
      (Disk.flush_holds hp hsize hbrisk h.holds))) (fun _ _ => False.elim) ?_
    intro _ i' h'
    obtain ⟨-, hflushed, hregion⟩ := h'
    exact ⟨h.acceptable, hflushed.steady, hregion⟩

/-- A block of the image is a block of the memory. -/
theorem slice_regionOf (hv : l.Valid) {memory : ByteArray}
    (hsize : memory.size = l.flashBytes.toNat) {k : Nat} (hk : k < l.blocks) :
    Bytes.slice (regionOf l false memory) (256 * k) 256 = l.regionBlocks memory k := by
  have hblocks : ∀ block ∈ (List.range l.blocks).map (l.regionBlocks memory),
      block.length = 256 := by
    intro block hblock
    obtain ⟨k, -, rfl⟩ := List.mem_map.mp hblock
    exact length_read _ _ _
  have hlist := toList_regionOf hv false hsize
  rw [if_neg Bool.false_ne_true] at hlist
  rw [Bytes.slice_eq, hlist, Nat.mul_comm,
    Bytes.take_drop_flatten hblocks (by rwa [List.length_map, List.length_range]),
    List.getElem_map, List.getElem_range]

/-- An image that is not trimmed has all blocks of the region. -/
theorem size_regionOf (hv : l.Valid) {memory : ByteArray}
    (hsize : memory.size = l.flashBytes.toNat) :
    (regionOf l false memory).size = 256 * l.blocks := by
  have hend := hv.blockOffset_blocks
  unfold Layout.blockOffset at hend
  show (memory.extract l.regionBase.toNat memory.size).size = _
  rw [ByteArray.size_extract]
  omega

/-- Memories with the same blocks have the same image. -/
theorem regionOf_congr (hv : l.Valid) {memory memory' : ByteArray}
    (hsize : memory.size = l.flashBytes.toNat) (hsize' : memory'.size = l.flashBytes.toNat)
    (h : ∀ k < l.blocks, l.regionBlocks memory k = l.regionBlocks memory' k) :
    regionOf l false memory = regionOf l false memory' := by
  have hblocks : (List.range l.blocks).map (l.regionBlocks memory) =
      (List.range l.blocks).map (l.regionBlocks memory') :=
    List.map_congr_left fun k hk => h k (List.mem_range.mp hk)
  have hlist : (regionOf l false memory).toList = (regionOf l false memory').toList := by
    rw [toList_regionOf hv false hsize, toList_regionOf hv false hsize', hblocks]
  rw [Bytes.toList_eq_data, Bytes.toList_eq_data] at hlist
  exact ByteArray.ext (Array.toList_inj.mp hlist)

/-! ## The image of a file -/

/-- The replay behind `image` comes to its end if all records are acceptable, and only then. -/
theorem replay_start_meets (hv : l.Valid) (hw : l.WindowFits) (f : File) :
    Meets
      (fun _ i => (∀ bytes ∈ f.records, Acceptable l bytes) ∧ i.disk.device.part.misuse = {} ∧
        i.disk.device.part.memory.size = l.flashBytes.toNat ∧
        ∀ k < l.blocks, lastWritten l (decodeAll f.records) k =
          l.regionBlocks i.disk.device.part.memory k)
      (fun fault _ => (∃ bytes ∈ f.records, ¬ Acceptable l bytes) ∧
        ∃ n error, fault = .refused (.rejected n error))
      (replay f (replayStart hv .staged)) := by
  obtain ⟨c, hample, hlarge, hbrisk, hclean, hholds⟩ := replayStart_holds hv .staged
  apply (replay_staged_meets hample (Nat.le_of_eq hlarge) hv hw hbrisk f
    ⟨by simp, rfl, hholds⟩).mono
  · intro _ i h
    obtain ⟨hacceptable, hsteady, hregion⟩ := h
    exact ⟨hacceptable, (congrArg Bench.Setting.misuse hsteady.setting_eq).trans hclean,
      hsteady.size_eq.trans hlarge.symm, hregion⟩
  · intro _ _ h
    exact h

/-- If the command does not fail for a record, all records are acceptable. -/
theorem acceptable_of_not_rejected (hv : l.Valid) (hw : l.WindowFits) {output : String}
    {input : ByteArray} {f : File} (hf : File.ofBytes input = .ok f)
    (h : ∀ n error, imageProduct output l .staged false input ≠
      .error (.refused (.rejected n error))) :
    ∀ bytes ∈ f.records, Acceptable l bytes := by
  have hmeets := replay_start_meets hv hw f
  cases hreplay : replay f (replayStart hv .staged) with
  | ok tally i =>
    rw [hreplay] at hmeets
    exact hmeets.1
  | error fault i =>
    rw [hreplay] at hmeets
    obtain ⟨-, n, error, rfl⟩ := hmeets
    exact absurd ((imageProduct_eq hv output .staged false hf).1 hreplay) (h n error)

/-- The image of a file of acceptable records is that of a memory with their last writes. -/
theorem exists_image_of_acceptable (hv : l.Valid) (hw : l.WindowFits) (output : String)
    {input : ByteArray} {f : File} (hf : File.ofBytes input = .ok f)
    (hacceptable : ∀ bytes ∈ f.records, Acceptable l bytes) :
    ∃ p memory, imageProduct output l .staged false input = .ok p ∧
      p.contents = regionOf l false memory ∧ memory.size = l.flashBytes.toNat ∧
      ∀ k < l.blocks, lastWritten l (decodeAll f.records) k = l.regionBlocks memory k := by
  obtain ⟨tally, i, hreplay, -, hmisuse, hsize, hregion⟩ :=
    (replay_start_meets hv hw f).ok fun _ _ hbad => by
      obtain ⟨⟨bytes, hmem, hrejected⟩, -⟩ := hbad
      exact hrejected (hacceptable bytes hmem)
  obtain ⟨p, hp, hcontents⟩ := (imageProduct_eq hv output .staged false hf).2 hreplay hmisuse
  exact ⟨p, _, hp, hcontents, hsize, hregion⟩

/-- **Last write wins.** If no record of an update file is rejected, a block of the image is the
payload of the last record for it, or blank. Records with different targets may come in another
order without a change of the image. -/
theorem image_of_last_writes (b : Board) (update output : String) {input : ByteArray} {f : File}
    (hf : File.ofBytes input = .ok f)
    (haccepted : ∀ n error, Command.make (.image update output b .staged false) input ≠
      .error (.refused (.rejected n error))) :
    ∃ p, Command.make (.image update output b .staged false) input = .ok p ∧
      p.contents.size = 256 * b.layout.blocks ∧
      (∀ k < b.layout.blocks, Bytes.slice p.contents (256 * k) 256 =
        lastWritten b.layout (decodeAll f.records) k) ∧
      ∀ (front middle middle' back : List (List UInt8)) (input' : ByteArray) (f' : File),
        f.records = front ++ middle ++ back → middle'.Perm middle →
        ((decodeAll middle).map (·.target)).Nodup →
        File.ofBytes input' = .ok f' → f'.records = front ++ middle' ++ back →
        ∃ p', Command.make (.image update output b .staged false) input' = .ok p' ∧
          p'.contents = p.contents := by
  have hv := b.layout_valid
  have hw := b.windowFits
  have hacceptable := acceptable_of_not_rejected hv hw hf haccepted
  obtain ⟨p, memory, hp, hcontents, hsize, hregion⟩ :=
    exists_image_of_acceptable hv hw output hf hacceptable
  refine ⟨p, hp, by rw [hcontents, size_regionOf hv hsize], fun k hk => ?_, ?_⟩
  · rw [hcontents, slice_regionOf hv hsize hk, hregion k hk]
  · intro front middle middle' back input' f' hrecords hperm hnodup hf' hrecords'
    -- Whether a record is acceptable does not depend on its place.
    have hacceptable' : ∀ bytes ∈ f'.records, Acceptable b.layout bytes := by
      intro bytes hbytes
      apply hacceptable
      rw [hrecords'] at hbytes
      rw [hrecords]
      exact (((hperm.append_left front).append_right back).mem_iff).mp hbytes
    have hlast : lastWritten b.layout (decodeAll f'.records) =
        lastWritten b.layout (decodeAll f.records) := by
      rw [hrecords', hrecords]
      simp only [decodeAll, List.filterMap_append]
      exact lastWritten_of_perm (hperm.filterMap _) hnodup
    obtain ⟨p', memory', hp', hcontents', hsize', hregion'⟩ :=
      exists_image_of_acceptable hv hw output hf' hacceptable'
    refine ⟨p', hp', ?_⟩
    rw [hcontents', hcontents]
    apply regionOf_congr hv hsize' hsize
    intro k hk
    rw [← hregion' k hk, hlast, hregion k hk]

/-- A transfer of two records is complete before its first block is written again. -/
theorem image_of_last_writes_after_completion :
    let record (block number : UInt32) (byte : UInt8) : Record :=
      { flags := familyPresent, target := 0x20080000 + 256 * block, payloadSize := 256,
        blockNo := number, numBlocks := 2, family := boardFamily,
        data := List.replicate 476 byte, length_data := List.length_replicate }
    let file (records : List Record) : ByteArray :=
      ⟨(records.map Record.encode).flatten.toArray⟩
    let image := Command.make (.image "u.uf2" "u.bin" .orangeCrabR01 .staged false)
    let input := file [record 1 0 0x11, record 0 1 0x22, record 1 0 0x33]
    ∃ f p p', File.ofBytes input = .ok f ∧
      (∀ n error, image input ≠ .error (.refused (.rejected n error))) ∧ image input = .ok p ∧
      Bytes.slice p.contents 0 256 = List.replicate 256 0x22 ∧
      Bytes.slice p.contents 256 256 = List.replicate 256 0x33 ∧
      image (file [record 0 1 0x22, record 1 0 0x11, record 1 0 0x33]) = .ok p' ∧
      p'.contents = p.contents := by
  intro record file image input
  have hfile (records : List Record) : ∃ f, File.ofBytes (file records) = .ok f ∧
      f.records = records.map Record.encode := by
    apply File.records_eq (Bytes.toList_eq_data _)
    intro bytes hbytes
    obtain ⟨r, -, rfl⟩ := List.mem_map.mp hbytes
    exact r.length_encode
  obtain ⟨f, hf, hrecords⟩ := hfile [record 1 0 0x11, record 0 1 0x22, record 1 0 0x33]
  obtain ⟨f', hf', hrecords'⟩ := hfile [record 0 1 0x22, record 1 0 0x11, record 1 0 0x33]
  have hv := Board.orangeCrabR01.layout_valid
  have hw := Board.orangeCrabR01.windowFits
  have hacceptable : ∀ bytes ∈ f.records, Acceptable Board.orangeCrabR01.layout bytes := by
    rw [hrecords]
    intro bytes hbytes
    obtain ⟨r, hr, rfl⟩ := List.mem_map.mp hbytes
    have hdecode := r.decode_encode
    simp only [List.mem_cons, List.not_mem_nil, or_false] at hr
    obtain rfl | rfl | rfl := hr
    · exact ⟨_, hdecode, fun _ _ => ⟨1, by cbv⟩⟩
    · exact ⟨_, hdecode, fun _ _ => ⟨0, by cbv⟩⟩
    · exact ⟨_, hdecode, fun _ _ => ⟨1, by cbv⟩⟩
  obtain ⟨_, _, hmade, -⟩ := exists_image_of_acceptable hv hw "u.bin" hf hacceptable
  have haccepted : ∀ n error, image input ≠ .error (.refused (.rejected n error)) := by
    intro n error herror
    cases hmade.symm.trans herror
  obtain ⟨p, hp, -, hblocks, hpermuted⟩ :=
    image_of_last_writes .orangeCrabR01 "u.uf2" "u.bin" hf haccepted
  have hnodup : ((decodeAll ([record 1 0 0x11, record 0 1 0x22].map Record.encode)).map
      (·.target)).Nodup := by
    rw [decodeAll_encode]
    decide +kernel
  obtain ⟨p', hp', hcontents⟩ := hpermuted [] ([record 1 0 0x11, record 0 1 0x22].map Record.encode)
    ([record 0 1 0x22, record 1 0 0x11].map Record.encode) ([record 1 0 0x33].map Record.encode) _
    f' hrecords (.swap _ _ _) hnodup hf' hrecords'
  rw [hrecords, decodeAll_encode] at hblocks
  refine ⟨f, p, p', hf, haccepted, hp, ?_, ?_, hp', hcontents⟩
  · exact (hblocks 0 (by decide +kernel)).trans (by decide +kernel)
  · exact (hblocks 1 (by decide +kernel)).trans (by decide +kernel)

end Tool

end NorDisk
