import NorDisk.Proofs.AnsweredRequests
import NorDisk.Proofs.TrapFreedom
import NorDisk.Proofs.UpdateImage

/-!
# Which update files complete

The file that `uf2` writes has its records in the order of their numbers. Sent in that order to a
board that has no transfer yet, on a part that is never slow, every record is stored where it says.
Whether the last one ends the transfer is another question: `uf2` accepts what fits the region, but
a transfer keeps track of `trackedBlocks` numbers only. A file of more records is stored to its last
block without ever being complete.

* **`Intake.Healthy.exists_receive`** — one record that has a place, on a healthy part.
* **`History.card_blocksSeen_first`** — the numbers seen after the first records of a file.
* **`Intake.Healthy.runAll_inTurn`** — the records of a file, one after the other.
* **`update_completes_iff_tracked`** — all files that `uf2` writes.
-/

namespace NorDisk

open Outcome

namespace Uf2

variable {l : Layout} {patience : Patience} {polls : Nat}

/-! ## One record -/

namespace Intake

variable {i : Intake (Bench NorPart)} {bytes : List UInt8} {r : Record} {lba : UInt32}

/-- The disk of the intake is on a healthy part and fits the address space. -/
abbrev Healthy (l : Layout) (patience : Patience) (polls : Nat) (i : Intake (Bench NorPart)) :
    Prop :=
  i.Paired l patience (fun _ s t => s = t ∧ Bench.Healthy patience polls s) i

/-- Commands on a healthy part are executed in time. -/
theorem Healthy.carrier (h : i.Healthy l patience polls) :
    Carrier i.disk.store.patience (Bench.Healthy patience polls) fun _ => False :=
  h.disk.patience_eq ▸ Bench.healthy_carrier patience polls

/-- A disk that went on on a healthy part, with a stage that fits, is that of a healthy intake. -/
theorem Healthy.of_carried (h : i.Healthy l patience polls) {disk : Disk (Bench NorPart)}
    (hcarried : i.disk.Carried (Bench.Healthy patience polls) disk) (hfits : disk.StageFits) :
    Healthy l patience polls { i with disk } := by
  have hlayout := hcarried.continues.layout_eq.trans h.disk.layout_eq
  refine ⟨rfl, rfl, hlayout, hcarried.continues.patience_eq.trans h.disk.patience_eq, ?_, rfl,
    hcarried.device⟩
  rw [← hlayout]
  exact hfits

theorem Healthy.stageFits (h : i.Healthy l patience polls) : i.disk.StageFits := by
  rw [Disk.StageFits, h.disk.layout_eq]
  exact h.disk.stage_fits

/-- The block of a record with a place is written. -/
theorem Healthy.write (h : i.Healthy l patience polls) (hw : l.WindowFits)
    (hstores : i.Stores bytes r lba) :
    ∃ disk, Disk.writeBlocks r.payload lba 1 i.disk = .ok () disk ∧
      Healthy l patience polls { i with disk } := by
  obtain ⟨hlba, hlength, -⟩ := of_placement h.disk.valid hw (h.disk.layout_eq ▸ hstores.placed)
  obtain ⟨disk, hwrite, hcarried, hfits⟩ := Disk.writeBlocks_answered h.carrier h.disk.device.2
    (h.disk.layout_eq ▸ Layout.refusal?_block hlba hlength)
    fun _ => ⟨h.disk.layout_eq ▸ hw, h.stageFits⟩
  exact ⟨disk, hwrite, h.of_carried hcarried (hfits h.stageFits)⟩

/-- A healthy part is flushed. -/
theorem Healthy.flush (h : i.Healthy l patience polls) :
    ∃ disk, Disk.flush i.disk = .ok () disk ∧ Healthy l patience polls { i with disk } := by
  obtain ⟨disk, hflush, hcarried, hfits⟩ :=
    Disk.flush_answered h.carrier h.disk.device.2 h.stageFits
  exact ⟨disk, hflush, h.of_carried hcarried hfits⟩

/-- **One record.** It is stored, and its answer tells whether it completes the transfer. -/
theorem Healthy.exists_receive (h : i.Healthy l patience polls) (hw : l.WindowFits)
    (hstores : i.Stores bytes r lba) :
    ∃ i', receive bytes i = .ok
        (if (i.transfer.track r).1 then .complete (some lba) else .written lba) i' ∧
      i'.transfer = (i.transfer.track r).2 ∧ i'.Healthy l patience polls := by
  obtain ⟨disk, hwrite, hwritten⟩ := h.write hw hstores
  have htracked : Healthy l patience polls ⟨(i.transfer.track r).2, disk⟩ := ⟨rfl, hwritten.disk⟩
  obtain ⟨flushed, hflush, hclean⟩ := htracked.flush
  refine ⟨_, hstores.receive_eq_ok hwrite hflush, rfl, ?_⟩
  split
  · exact hclean
  · exact htracked

end Intake

/-! ## Records in the order of their numbers -/

namespace History

variable {n m : Nat} {base family : UInt32} {r : Nat → Record}

/-- The first `m` records. -/
def first (r : Nat → Record) (m : Nat) : History := (List.range m).map r

/-- One record more comes last. -/
theorem first_succ (r : Nat → Record) (m : Nat) : first r (m + 1) = first r m ++ [r m] := by
  rw [first, List.range_succ, List.map_append]
  rfl

/-- All of them announce the same number of blocks. -/
theorem toNat_announced_first (hr : ∀ k < n, (r k).IsBlock base family n k) (hm : m ≤ n)
    (hpos : 0 < m) : (first r m).announced.toNat = n := by
  cases m with
  | zero => exact absurd hpos (Nat.lt_irrefl 0)
  | succ m => rw [first_succ, announced_snoc, (hr m (by omega)).numBlocks]

/-- The numbers seen after the first `m` records are those below `m` that can be tracked. -/
theorem mem_blocksSeen_first (hr : ∀ k < n, (r k).IsBlock base family n k) (hm : m ≤ n)
    (b : UInt32) : b ∈ (first r m).blocksSeen ↔ b.toNat < min m trackedBlocks := by
  induction m with
  | zero => simp [first, blocksSeen]
  | succ m ih =>
    have hblock := hr m (by omega)
    have hnumber : b = (r m).blockNo ↔ b.toNat = m := by
      rw [← UInt32.toNat_inj, hblock.blockNo]
    -- All records announce one number of blocks, so the transfer is never opened anew.
    have hsame : 0 < m → (r m).numBlocks = (first r m).announced := fun hpos => by
      rw [← UInt32.toNat_inj, hblock.numBlocks, toNat_announced_first hr (by omega) hpos]
    rw [first_succ, mem_blocksSeen_snoc, hblock.numBlocks, hnumber, ih (by omega)]
    constructor
    · rintro ⟨hbound, hb | ⟨-, hb⟩⟩ <;> omega
    · intro hb
      by_cases hlast : b.toNat = m
      · exact ⟨by omega, Or.inl hlast⟩
      · exact ⟨by omega, Or.inr ⟨hsame (by omega), by omega⟩⟩

/-- As many numbers are seen as records came; those past the limit never are. -/
theorem card_blocksSeen_first (hr : ∀ k < n, (r k).IsBlock base family n k) (hm : m ≤ n) :
    (first r m).blocksSeen.card = min m trackedBlocks := by
  -- The numbers are those below the minimum, which a word holds.
  have himage : (first r m).blocksSeen.image UInt32.toNat = Finset.range (min m trackedBlocks) := by
    ext k
    rw [Finset.mem_image, Finset.mem_range]
    constructor
    · rintro ⟨b, hb, rfl⟩
      exact (mem_blocksSeen_first hr hm b).mp hb
    · intro hk
      have htoNat : (UInt32.ofNat k).toNat = k :=
        UInt32.toNat_ofNat_of_lt' (by unfold trackedBlocks at hk; unfold UInt32.size; omega)
      exact ⟨UInt32.ofNat k, (mem_blocksSeen_first hr hm _).mpr (by rwa [htoNat]), htoNat⟩
  rw [← Finset.card_image_of_injective _ fun _ _ => UInt32.toNat_inj.mp, himage, Finset.card_range]

/-- A file is complete at its last record, if all its numbers can be tracked. -/
theorem isComplete_first_iff (hr : ∀ k < n, (r k).IsBlock base family n k) (hm : m ≤ n) :
    (first r m).IsComplete ↔ m = n ∧ 0 < n ∧ n ≤ trackedBlocks := by
  rw [IsComplete, card_blocksSeen_first hr hm]
  rcases Nat.eq_zero_or_pos m with rfl | hpos
  · rw [show (first r 0).announced.toNat = 0 from rfl]
    omega
  · rw [toNat_announced_first hr hm hpos]
    omega

/-- The last record completes the transfer, if all numbers can be tracked. -/
theorem reaches_first_iff (hr : ∀ k < n, (r k).IsBlock base family n k) (hm : m < n) :
    (first r m).Reaches (r m) ↔ m + 1 = n ∧ n ≤ trackedBlocks := by
  rw [Reaches, ← first_succ, isComplete_first_iff hr hm, isComplete_first_iff hr (Nat.le_of_lt hm)]
  omega

end History

namespace Intake

variable {n : Nat} {base : UInt32} {r : Nat → Record} {lba : Nat → UInt32}

/-- What a file of `n` records is answered on a healthy part, record by record. -/
def inTurnReply (n : Nat) (lba : Nat → UInt32) (k : Nat) : Except Error Reply :=
  .ok (.status (if k + 1 = n ∧ n ≤ trackedBlocks then .complete (some (lba k))
    else .written (lba k)))

/-- Record `k` comes after those before it. -/
theorem Healthy.serve_inTurn (hw : l.WindowFits)
    (hr : ∀ k < n, (r k).IsBlock base l.family n k)
    (hplace : ∀ k < n, placement l (r k) = .ok (lba k)) {k : Nat} (hk : k < n)
    {i : Intake (Bench NorPart)} (h : i.Healthy l patience polls)
    (hfamily : i.transfer.family = l.family) (ht : i.transfer.Tracks (History.first r k)) :
    ∃ i', ((serve (.record (r k).encode)).attempt : Action Error _ _) i =
        .ok (inTurnReply n lba k) i' ∧ i'.Healthy l patience polls ∧
      i'.transfer.family = l.family ∧ i'.transfer.Tracks (History.first r (k + 1)) := by
  have hblock := hr k hk
  -- The record passes every check on the way to its block.
  have hstores : i.Stores (r k).encode (r k) (lba k) := {
    decoded := Record.decode_encode (r k)
    own := by simp [Transfer.isForeign, hblock.family, hfamily]
    main := by
      rw [Record.isMainFlash, hblock.flags]
      decide
    placed := by rw [h.disk.layout_eq, hplace k hk] }
  obtain ⟨htracks, hdone⟩ := Transfer.track_tracks ht (r k)
  rw [History.reaches_first_iff hr hk] at hdone
  obtain ⟨i', hreceive, htransfer, h'⟩ := h.exists_receive hw hstores
  refine ⟨i', ?_, h', ?_, ?_⟩
  · rw [Action.attempt, serve, Action.bind_apply, hreceive, inTurnReply]
    simp only [hdone]
    rfl
  · rw [htransfer, Transfer.family_track, hfamily]
  · rw [htransfer, History.first_succ]
    exact htracks

/-- **The records of a file in turn.** Induction on those that are still to come; the first `k` of
them are the history so far. -/
theorem Healthy.runAll_inTurn {ω : Type} (act : ω → Bench NorPart → Bench NorPart)
    (hw : l.WindowFits) (hr : ∀ k < n, (r k).IsBlock base l.family n k)
    (hplace : ∀ k < n, placement l (r k) = .ok (lba k)) (m : Nat) {k : Nat} (hk : k + m = n)
    {i : Intake (Bench NorPart)} (h : i.Healthy l patience polls)
    (hfamily : i.transfer.family = l.family) (ht : i.transfer.Tracks (History.first r k)) :
    ∃ i', runAll serve (world act)
        ((List.range' k m).map fun k => .call (.record (r k).encode)) i =
          .ok ((List.range' k m).map (inTurnReply n lba)) i' ∧
      i'.transfer.Tracks (History.first r n) := by
  induction m generalizing k i with
  | zero =>
    obtain rfl : k = n := hk
    exact ⟨i, rfl, ht⟩
  | succ m ih =>
    obtain ⟨i₁, hserve, h₁, hfamily₁, ht₁⟩ :=
      h.serve_inTurn hw hr hplace (show k < n by omega) hfamily ht
    obtain ⟨i₂, hrun, ht₂⟩ := ih (show k + 1 + m = n by omega) h₁ hfamily₁ ht₁
    refine ⟨i₂, ?_, ht₂⟩
    rw [List.range'_succ, List.map_cons, List.map_cons, runAll, Action.bind_apply, hserve]
    show (runAll serve (world act) _ >>= fun replies =>
      pure (inTurnReply n lba k :: replies)) i₁ = _
    rw [Action.bind_apply, hrun]
    rfl

/-- A board whose part has any memory and ends its commands in time is healthy. -/
theorem healthy_fresh (transfer : Transfer) (hv : l.Valid) (policy : ErasePolicy)
    {timeout : UInt32} {busyPolls : Nat} {clock : StepClock} (memory : ByteArray)
    (hample : ({ timeout } : Patience).Ample clock.step)
    (hbusy : busyPolls * clock.step.toNat ≤ timeout.toNat) :
    (fresh transfer l hv policy timeout busyPolls clock memory).Healthy l { timeout } busyPolls :=
  ⟨rfl, rfl, rfl, rfl, nofun, rfl, ⟨rfl, Nat.le_refl _, Nat.zero_le _⟩, hample, hbusy⟩

end Intake

end Uf2

/-! ## The files that are written -/

namespace Tool

open Uf2 Uf2.Intake

variable {b : Board} {file output : String} {offset : UInt32} {data : ByteArray}
  {written : Product}

/-- `uf2` writes a file for no data but data that has a place. -/
theorem checkPlacement_of_make (h : Command.make (.uf2 file output b offset) data = .ok written) :
    checkPlacement b.layout offset data.size = .ok () := by
  change uf2Product file output b.layout offset data = .ok written at h
  rw [uf2Product] at h
  cases hplace : checkPlacement b.layout offset data.size with
  | ok _ => rfl
  | error fault => rw [hplace] at h; cases h

/-- Number of the block that record `k` of data at an offset is for. -/
def updateBlock (offset : UInt32) (k : Nat) : UInt32 := UInt32.ofNat (offset.toNat / 256 + k)

/-- A file that is written is read as the records of its data; they lie in the region, in a row. -/
theorem exists_records_of_make (h : Command.make (.uf2 file output b offset) data = .ok written) :
    ∃ f base, File.ofBytes written.contents = .ok f ∧
      f.records = (List.range (blocksFor data.size)).map
        (fun k => (blockRecord data base b.layout.family k).encode) ∧
      ∀ k < blocksFor data.size,
        (blockRecord data base b.layout.family k).IsBlock base b.layout.family
          (blocksFor data.size) k ∧
        placement b.layout (blockRecord data base b.layout.family k) =
          .ok (updateBlock offset k) ∧
        (updateBlock offset k).toNat = offset.toNat / 256 + k := by
  have hv := b.layout_valid
  have hw := b.windowFits
  have hstrict : windowBase.toNat + b.layout.flashBytes.toNat < 0x100000000 := by
    cases b <;> decide
  have hplace := checkPlacement_of_make h
  obtain ⟨haligned, hfits⟩ := of_checkPlacement hv hplace
  obtain ⟨p, base, hp, hbase, hcontents⟩ := exists_uf2Product hv hstrict file output hplace
  obtain rfl : p = written := Except.ok.inj (hp.symm.trans h)
  obtain ⟨f, hf, hrecords⟩ := exists_file_of_blocks hcontents
  have hend := hv.blockOffset_blocks
  have hblocks : blocksFor data.size + offset.toNat / 256 ≤ b.layout.blocks := by
    unfold blocksFor
    omega
  refine ⟨f, base, hf, hrecords, fun k hk => ?_⟩
  have haddress (i : Nat) (hi : i < blocksFor data.size) : base.toNat + 256 * i < 0x100000000 := by
    unfold Layout.blockOffset at hbase hend
    omega
  obtain ⟨block, hblock, hnumber⟩ :=
    placement_blockRecord hv hw data b.layout.family hbase (show _ + k < b.layout.blocks by omega)
  have heq : updateBlock offset k = block := by
    rw [updateBlock, ← hnumber, UInt32.ofNat_toNat]
  rw [heq]
  exact ⟨isBlock_blockRecord b.layout.family hk haddress, hblock, hnumber⟩

/-- **An update in turn.** Every record of the file is stored at its block, and the transfer is
then what its records make it. -/
theorem exists_run_of_make (h : Command.make (.uf2 file output b offset) data = .ok written)
    (policy : ErasePolicy) {timeout : UInt32} {busyPolls : Nat} {clock : StepClock}
    (memory : ByteArray) (hample : ({ timeout } : Patience).Ample clock.step)
    (hbusy : busyPolls * clock.step.toNat ≤ timeout.toNat) :
    ∃ f i', File.ofBytes written.contents = .ok f ∧ f.records.length = blocksFor data.size ∧
      (∀ k < blocksFor data.size, (updateBlock offset k).toNat = offset.toNat / 256 + k ∧
        ∃ r, f.records[k]?.map Record.decode = some (.ok r) ∧
          placement b.layout r = .ok (updateBlock offset k)) ∧
      runAll serve (world Bench.hold) (f.records.map fun bytes => .call (.record bytes))
          (fresh { family := b.layout.family } b.layout b.layout_valid policy timeout busyPolls
            clock memory) =
        .ok ((List.range (blocksFor data.size)).map
          (inTurnReply (blocksFor data.size) (updateBlock offset))) i' ∧
      (0 < data.size →
        (i'.transfer.complete = true ↔ blocksFor data.size ≤ trackedBlocks) ∧
        (i'.transfer.inProgress = true ↔ trackedBlocks < blocksFor data.size)) := by
  obtain ⟨f, base, hf, hrecords, hblocks⟩ := exists_records_of_make h
  have hr := fun k hk => (hblocks k hk).1
  have hplace := fun k hk => (hblocks k hk).2.1
  obtain ⟨i', hrun, htracks⟩ := (healthy_fresh { family := b.layout.family } b.layout_valid policy
    memory hample hbusy).runAll_inTurn Bench.hold b.windowFits hr hplace (blocksFor data.size)
    (Nat.zero_add _) rfl (Transfer.tracks_nil b.layout.family)
  refine ⟨f, i', hf, by rw [hrecords]; simp, fun k hk => ⟨(hblocks k hk).2.2, _, ?_, hplace k hk⟩,
    ?_, fun hdata => ⟨?_, ?_⟩⟩
  · simp [hrecords, hk, Record.decode_encode]
  · rw [hrecords, List.map_map, List.range_eq_range']
    exact hrun
  all_goals
    have hpos : 0 < blocksFor data.size := by
      unfold blocksFor
      omega
  · rw [htracks.complete_iff, History.isComplete_first_iff hr (Nat.le_refl _)]
    omega
  · rw [htracks.inProgress_iff, htracks.toNat_seen, htracks.total_eq,
      History.card_blocksSeen_first hr (Nat.le_refl _),
      History.toNat_announced_first hr (Nat.le_refl _) hpos]
    have htracked : 0 < trackedBlocks := by decide
    omega

/-- **Which update files complete.** Whatever `uf2` accepts becomes a file whose records, sent in
turn to a fresh board on a part that is never slow, are all stored at their blocks. The last one
completes the transfer if and only if all block numbers can be tracked, that is up to 4 MiB of data;
otherwise it is answered like those before it, and the transfer stays in progress. -/
theorem update_completes_iff_tracked
    (h : Command.make (.uf2 file output b offset) data = .ok written) (hdata : 0 < data.size)
    (policy : ErasePolicy) {timeout : UInt32} {busyPolls : Nat} {clock : StepClock}
    (memory : ByteArray) (hstep : 1 ≤ clock.step.toNat)
    (hsum : timeout.toNat + clock.step.toNat < 0x100000000)
    (hbusy : busyPolls * clock.step.toNat ≤ timeout.toNat) :
    let n := blocksFor data.size
    ∃ (f : File) (lba : Nat → UInt32) (i' : Intake (Bench NorPart)),
        File.ofBytes written.contents = .ok f ∧ f.records.length = n ∧
      (∀ k < n, (lba k).toNat = offset.toNat / 256 + k ∧
        ∃ r, f.records[k]?.map Record.decode = some (.ok r) ∧
          placement b.layout r = .ok (lba k)) ∧
      runAll serve (world Bench.hold) (f.records.map fun bytes => .call (.record bytes))
          (fresh { family := b.layout.family } b.layout b.layout_valid policy timeout busyPolls
            clock memory) =
        .ok ((List.range n).map fun k => .ok (.status
          (if k + 1 = n ∧ data.size ≤ 0x400000 then .complete (some (lba k))
            else .written (lba k)))) i' ∧
      (i'.transfer.complete = true ↔ data.size ≤ 0x400000) ∧
      (i'.transfer.inProgress = true ↔ 0x400000 < data.size) := by
  intro n
  have htracked : n ≤ trackedBlocks ↔ data.size ≤ 0x400000 := by
    show (data.size + 255) / 256 ≤ 16384 ↔ _
    omega
  obtain ⟨f, i', hf, hcount, hblocks, hrun, hends⟩ :=
    exists_run_of_make h policy memory (.ofTimeout hstep hsum) hbusy
  obtain ⟨hcomplete, hprogress⟩ := hends hdata
  refine ⟨f, updateBlock offset, i', hf, hcount, hblocks, ?_, hcomplete.trans htracked, ?_⟩
  · simp only [← htracked]
    exact hrun
  · rw [hprogress, ← Nat.not_le, htracked, Nat.not_le]

/-- The longest data whose file completes, from the second sector of the largest region on. -/
theorem update_of_4_mib_completes :
    let data := Memory.blank 0x400000
    let n := blocksFor data.size
    let clock : StepClock := ⟨0, 1⟩
    ∃ written, Command.make (.uf2 "d" "d.uf2" .orangeCrabR02 0x1000) data = .ok written ∧
      0 < data.size ∧ 1 ≤ clock.step.toNat ∧
      busyTimeout.toNat + clock.step.toNat < 0x100000000 ∧
      2 * clock.step.toNat ≤ busyTimeout.toNat ∧
      ∃ (f : File) (lba : Nat → UInt32) (i' : Intake (Bench NorPart)),
        File.ofBytes written.contents = .ok f ∧ f.records.length = n ∧
        (∀ k < n, (lba k).toNat = (0x1000 : UInt32).toNat / 256 + k ∧
          ∃ r, f.records[k]?.map Record.decode = some (.ok r) ∧
            placement Board.orangeCrabR02.layout r = .ok (lba k)) ∧
        runAll serve (world Bench.hold) (f.records.map fun bytes => .call (.record bytes))
            (fresh { family := Board.orangeCrabR02.layout.family } Board.orangeCrabR02.layout
              Board.orangeCrabR02.layout_valid .staged busyTimeout 2 clock (Memory.blank 256)) =
          .ok ((List.range n).map fun k => .ok (.status
            (if k + 1 = n ∧ data.size ≤ 0x400000 then .complete (some (lba k))
              else .written (lba k)))) i' ∧
        (i'.transfer.complete = true ↔ data.size ≤ 0x400000) ∧
        (i'.transfer.inProgress = true ↔ 0x400000 < data.size) := by
  intro data n clock
  have hsize : data.size = 0x400000 := Memory.size_blank _
  have hplace : checkPlacement Board.orangeCrabR02.layout 0x1000 data.size = .ok () := by
    rw [hsize]
    decide +kernel
  obtain ⟨written, -, hwritten, -⟩ := exists_uf2Product Board.orangeCrabR02.layout_valid
    (by decide) "d" "d.uf2" hplace
  have hdata : 0 < data.size := by rw [hsize]; decide
  have hstep : 1 ≤ clock.step.toNat := by decide
  have hsum : busyTimeout.toNat + clock.step.toNat < 0x100000000 := by decide
  have hbusy : 2 * clock.step.toNat ≤ busyTimeout.toNat := by decide
  exact ⟨written, hwritten, hdata, hstep, hsum, hbusy, update_completes_iff_tracked hwritten hdata
    .staged (Memory.blank 256) hstep hsum hbusy⟩

/-- One byte more than 4 MiB is accepted and becomes a file of 16385 records. The last one is stored
and completes nothing, and the transfer stays in progress. -/
theorem update_stays_in_progress :
    let data := Memory.blank 0x400001
    ∃ written f replies i',
      Command.make (.uf2 "d" "d.uf2" .orangeCrabR02 0) data = .ok written ∧
      File.ofBytes written.contents = .ok f ∧ f.records.length = 16385 ∧
      runAll serve (world Bench.hold) (f.records.map fun bytes => .call (.record bytes))
          (fresh { family := Board.orangeCrabR02.layout.family } Board.orangeCrabR02.layout
            Board.orangeCrabR02.layout_valid .onSectorStart busyTimeout 1 ⟨0, 1⟩
            (Memory.blank 256)) = .ok replies i' ∧
      replies.getLast? = some (.ok (.status (.written 16384))) ∧
      i'.transfer.complete = false ∧ i'.transfer.inProgress = true := by
  intro data
  have hsize : data.size = 0x400001 := Memory.size_blank _
  have hblocks : blocksFor data.size = 16385 := by rw [hsize]; rfl
  have hplace : checkPlacement Board.orangeCrabR02.layout 0 data.size = .ok () := by
    rw [hsize]
    decide +kernel
  obtain ⟨written, -, hwritten, -⟩ := exists_uf2Product Board.orangeCrabR02.layout_valid
    (by decide) "d" "d.uf2" hplace
  have hample : Patience.Ample {} (StepClock.mk 0 1).step := .ofTimeout (by decide) (by decide)
  have hbusy : 1 * (StepClock.mk 0 1).step.toNat ≤ busyTimeout.toNat := by decide
  obtain ⟨f, i', hf, hcount, -, hrun, hends⟩ :=
    exists_run_of_make hwritten .onSectorStart (Memory.blank 256) hample hbusy
  rw [hblocks] at hcount hrun hends
  obtain ⟨hcomplete, hprogress⟩ := hends (by rw [hsize]; decide)
  refine ⟨written, f, _, i', hwritten, hf, hcount, hrun, ?_, ?_, hprogress.mpr (by decide)⟩
  · rw [List.range_succ, List.map_append, List.map_singleton, List.getLast?_concat]
    rfl
  · rw [← Bool.not_eq_true, hcomplete]
    decide

end Tool

end NorDisk
