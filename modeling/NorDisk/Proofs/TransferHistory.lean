import Mathlib.Data.Finset.Card
import Mathlib.Data.List.DropRight
import NorDisk.Proofs.Intake

/-!
# Transfers and the history of records

A transfer is kept record by record: a block count, the block numbers seen, a flag. What it should
be at any time can be said without steps, from the list of all records that were counted so far
(`History`): the block count is that of the last record, and the numbers seen are those of the
longest run of records at the end that carry it (`History.currentRun`).

A call counts the record in its bytes unless there is none, it is for another family, or the disk
refused its block (`Intake.counted?`).

* **`Intake.reception`** — the cases of one call, with what is counted and what the call comes to.
* **`track_tracks`** — counting one record keeps the transfer in step with its history.
* **`existsUnique_reachedAt`** — a run that is complete was completed by exactly one of its records.
* **`transfer_follows_history`** — after any run of calls the transfer is what the history says, and
  the next call completes it exactly if its record makes the last missing number seen.
-/

namespace NorDisk.Uf2

/-! ## Histories -/

/-- The records that were counted, the last one last. -/
abbrev History := List Record

namespace History

/-- The block count of the last record; zero if there is none. -/
def announced (h : History) : UInt32 := (h.getLast?.map (·.numBlocks)).getD 0

/-- The longest run of records at the end that carry one block count. -/
def currentRun (h : History) : List Record := h.rtakeWhile (·.numBlocks = h.announced)

/-- The distinct block numbers of the current run that can be tracked. -/
def blocksSeen (h : History) : Finset UInt32 :=
  (h.currentRun.map (·.blockNo)).toFinset.filter fun b =>
    b.toNat < min h.announced.toNat trackedBlocks

/-- Every block of the current run has been seen. -/
def IsComplete (h : History) : Prop :=
  h.blocksSeen.card = h.announced.toNat ∧ 0 < h.announced.toNat

/-- Does a record, coming next, make the last missing block of its run seen? -/
def Reaches (h : History) (r : Record) : Prop :=
  IsComplete (h ++ [r]) ∧ ¬ (r.numBlocks = h.announced ∧ h.IsComplete)

/-- Did the record at a place do so when it came? -/
def ReachedAt (h : History) (k : Nat) : Prop :=
  ∃ hk : k < h.length, Reaches (h.take k) h[k]

variable {h : History} {r : Record}

instance : Decidable h.IsComplete := inferInstanceAs (Decidable (_ ∧ _))

instance : Decidable (h.Reaches r) := inferInstanceAs (Decidable (_ ∧ ¬ _))

@[simp] theorem announced_nil : announced [] = 0 := rfl

@[simp] theorem announced_snoc (h : History) (r : Record) : announced (h ++ [r]) = r.numBlocks := by
  simp [announced]

/-- A record with the block count of the one before it goes on with its run; another one starts a
run. -/
theorem currentRun_snoc (h : History) (r : Record) :
    currentRun (h ++ [r]) = (if r.numBlocks = h.announced then h.currentRun else []) ++ [r] := by
  rw [currentRun, announced_snoc, List.rtakeWhile_concat_pos _ _ _ (by simp)]
  congr 1
  split
  · rename_i heq
    rw [currentRun, heq]
  · rename_i hne
    -- The new count ends the run at the last record of `h`, of which there may be none.
    cases h using List.reverseRecOn with
    | nil => rfl
    | append_singleton h last =>
      rw [announced_snoc] at hne
      exact List.rtakeWhile_concat_neg _ _ _ (by simpa using fun heq => hne heq.symm)

theorem mem_blocksSeen {b : UInt32} :
    b ∈ h.blocksSeen ↔
      b.toNat < min h.announced.toNat trackedBlocks ∧ ∃ r ∈ h.currentRun, r.blockNo = b := by
  simp [blocksSeen, and_comm]

/-- The next record adds its block number, in its own run or in a new one. -/
theorem mem_blocksSeen_snoc {b : UInt32} :
    b ∈ blocksSeen (h ++ [r]) ↔ b.toNat < min r.numBlocks.toNat trackedBlocks ∧
      (b = r.blockNo ∨ r.numBlocks = h.announced ∧ b ∈ h.blocksSeen) := by
  rw [mem_blocksSeen, mem_blocksSeen, announced_snoc, currentRun_snoc]
  -- Only in the same run do the numbers seen before still count.
  by_cases hrun : r.numBlocks = h.announced
  · simp only [hrun, if_true, List.mem_append, List.mem_singleton, true_and]
    constructor
    · rintro ⟨hb, q, hq | rfl, rfl⟩
      · exact ⟨hb, Or.inr ⟨hb, q, hq, rfl⟩⟩
      · exact ⟨hb, Or.inl rfl⟩
    · rintro ⟨hb, rfl | ⟨-, q, hq, rfl⟩⟩
      · exact ⟨hb, r, Or.inr rfl, rfl⟩
      · exact ⟨hb, q, Or.inl hq, rfl⟩
  · simp [hrun, eq_comm]

/-- A run of `n` records' numbers below its block count has no more numbers than that. -/
theorem card_blocksSeen_le (h : History) : h.blocksSeen.card ≤ h.announced.toNat := by
  -- Different numbers are different positions below the count.
  have hmaps : Set.MapsTo UInt32.toNat h.blocksSeen (Finset.range h.announced.toNat) := by
    intro b hb
    have hb := (mem_blocksSeen.mp hb).1
    simp only [Finset.coe_range, Set.mem_Iio]
    omega
  have hinj : Set.InjOn UInt32.toNat h.blocksSeen := fun _ _ _ _ heq => UInt32.toNat_inj.mp heq
  simpa using Finset.card_le_card_of_injOn _ hmaps hinj

/-- The numbers that still count when a record comes. -/
def carried (h : History) (r : Record) : Finset UInt32 :=
  if r.numBlocks = h.announced then h.blocksSeen else ∅

/-- What a record adds: its own number, unless it cannot be tracked. -/
theorem blocksSeen_snoc (h : History) (r : Record) :
    blocksSeen (h ++ [r]) =
      if r.blockNo.toNat < min r.numBlocks.toNat trackedBlocks then insert r.blockNo (h.carried r)
      else h.carried r := by
  ext b
  rw [mem_blocksSeen_snoc, carried]
  by_cases hrun : r.numBlocks = h.announced
  · -- In one run the bound is the same for old and new numbers.
    have hbound : b ∈ h.blocksSeen → b.toNat < min r.numBlocks.toNat trackedBlocks := by
      rw [hrun]
      exact fun hb => (mem_blocksSeen.mp hb).1
    split <;> grind
  · split <;> grind

/-- Counting a record takes no number away from its run. -/
theorem carried_subset (h : History) (r : Record) : h.carried r ⊆ blocksSeen (h ++ [r]) := by
  rw [blocksSeen_snoc]
  split
  · exact Finset.subset_insert _ _
  · exact Finset.Subset.refl _

/-- A run is complete before a record comes exactly if it carries as many numbers as it has blocks.
-/
theorem carried_complete_iff :
    (h.carried r).card = r.numBlocks.toNat ∧ 0 < r.numBlocks.toNat ↔
      r.numBlocks = h.announced ∧ h.IsComplete := by
  rw [carried, IsComplete]
  split
  · rename_i hrun
    simp [hrun]
  · rename_i hrun
    -- A run that the record starts carries nothing, and no block count above zero is met.
    simp only [Finset.card_empty, hrun, false_and, iff_false]
    omega

theorem isComplete_snoc :
    IsComplete (h ++ [r]) ↔
      (blocksSeen (h ++ [r])).card = r.numBlocks.toNat ∧ 0 < r.numBlocks.toNat := by
  rw [IsComplete, announced_snoc]

/-! ### Completing a run -/

/-- A complete run gains no number, for it cannot have more than it has blocks. -/
theorem blocksSeen_snoc_of_complete (hrun : r.numBlocks = h.announced) (hc : h.IsComplete) :
    blocksSeen (h ++ [r]) = h.carried r := by
  have hle := card_blocksSeen_le (h ++ [r])
  rw [announced_snoc, ← (carried_complete_iff.mpr ⟨hrun, hc⟩).1] at hle
  exact (Finset.eq_of_subset_of_card_le (carried_subset h r) hle).symm

/-- A complete run stays complete. -/
theorem IsComplete.snoc (hc : h.IsComplete) (hrun : r.numBlocks = h.announced) :
    IsComplete (h ++ [r]) := by
  rw [isComplete_snoc, blocksSeen_snoc_of_complete hrun hc]
  exact carried_complete_iff.mpr ⟨hrun, hc⟩

/-- A record that adds no number completes nothing. -/
theorem not_reaches_of_eq (hsame : blocksSeen (h ++ [r]) = h.carried r) : ¬ h.Reaches r := by
  intro hreach
  obtain ⟨hdone, hnew⟩ := hreach
  rw [isComplete_snoc, hsame] at hdone
  -- With the same numbers the run was complete before.
  exact hnew (carried_complete_iff.mp hdone)

/-- The place of the first record of the current run. -/
def runStart (h : History) : Nat := h.length - h.currentRun.length

theorem length_currentRun_le (h : History) : h.currentRun.length ≤ h.length :=
  (List.rtakeWhile_suffix _ _).length_le

/-- A run starts where its first record lies, however many records follow. -/
theorem runStart_snoc (h : History) (r : Record) :
    runStart (h ++ [r]) = if r.numBlocks = h.announced then h.runStart else h.length := by
  have hle := length_currentRun_le h
  rw [runStart, runStart, currentRun_snoc]
  split <;> simp

/-- One more record changes nothing about the places before it. -/
theorem reachedAt_snoc {k : Nat} :
    ReachedAt (h ++ [r]) k ↔ h.ReachedAt k ∨ k = h.length ∧ h.Reaches r := by
  rcases Nat.lt_trichotomy k h.length with hlt | rfl | hgt
  · -- Before the new record: the history up to there is the same.
    have htake : (h ++ [r]).take k = h.take k := List.take_append_of_le_length (Nat.le_of_lt hlt)
    simp [ReachedAt, hlt, htake, Nat.ne_of_lt hlt, Nat.lt_succ_of_lt hlt]
  · simp [ReachedAt]
  · simp [ReachedAt, Nat.not_lt_of_gt hgt, Nat.ne_of_gt hgt,
      show ¬ k < h.length + 1 by omega]

/-- **One completion a run.** A current run that is complete was completed by exactly one of its
records, a run that is not by none. Induction on the history, from the last record. -/
theorem existsUnique_reachedAt (h : History) :
    (h.IsComplete → ∃! k, h.runStart ≤ k ∧ h.ReachedAt k) ∧
      (¬ h.IsComplete → ∀ k, h.runStart ≤ k → ¬ h.ReachedAt k) := by
  induction h using List.reverseRecOn with
  | nil =>
    refine ⟨fun hc => absurd hc.2 (by simp), fun _ k _ hk => ?_⟩
    obtain ⟨hk, -⟩ := hk
    simp at hk
  | append_singleton h r ih =>
    have hbefore : ∀ k, ReachedAt h k → k < h.length := fun k hk => hk.1
    have hstart : runStart h ≤ h.length := Nat.sub_le _ _
    simp only [reachedAt_snoc, runStart_snoc]
    by_cases hrun : r.numBlocks = announced h
    · simp only [hrun, if_true]
      by_cases hdone : IsComplete h
      · -- The run was complete already, so its next record completes nothing.
        have hnot : ¬ Reaches h r := fun hr => hr.2 ⟨hrun, hdone⟩
        simp only [hnot, and_false, or_false, hdone.snoc hrun, not_true]
        exact ⟨fun _ => ih.1 hdone, fun hfalse => hfalse.elim⟩
      · -- The run goes on incomplete: nothing before `r` completed it, so only `r` can.
        have hnone := ih.2 hdone
        refine ⟨fun hc => ⟨h.length, ⟨hstart, Or.inr ⟨rfl, hc, fun hd => hdone hd.2⟩⟩, ?_⟩, ?_⟩
        · intro k hk
          rcases hk.2 with hk' | hk'
          · exact absurd hk' (hnone k hk.1)
          · exact hk'.1
        · intro hc k hk hk'
          rcases hk' with hk' | hk'
          · exact hnone k hk hk'
          · exact hc hk'.2.1
    · -- A run of one record.
      simp only [hrun, if_false]
      refine ⟨fun hc => ⟨h.length, ⟨le_refl _, Or.inr ⟨rfl, hc, fun hd => hrun hd.1⟩⟩, ?_⟩, ?_⟩
      · intro k hk
        rcases hk.2 with hk' | hk'
        · exact absurd (hbefore k hk') (by omega)
        · exact hk'.1
      · intro hc k hk hk'
        rcases hk' with hk' | hk'
        · exact absurd (hbefore k hk') (by omega)
        · exact hc hk'.2.1

end History

/-! ## The numbers of a bitmap

A bitmap stands for the list of the numbers whose bits are set, and its population is how many they
are. -/

namespace Bitmap

variable {b : Bitmap} {n : Fin trackedBlocks} {x : UInt32}

/-- The numbers whose bits are set, each once and in order. -/
def numbers (b : Bitmap) : List UInt32 :=
  ((List.finRange trackedBlocks).filter b.isSet).map fun n => UInt32.ofNat n.val

theorem toNat_ofNat_val (n : Fin trackedBlocks) : (UInt32.ofNat n.val).toNat = n.val :=
  UInt32.toNat_ofNat_of_lt' (Nat.lt_trans n.isLt (by decide))

/-- The population of a bitmap counts them. -/
theorem length_numbers (b : Bitmap) : b.numbers.length = b.population := by
  rw [numbers, List.length_map, population, List.countP_eq_length_filter]

theorem nodup_numbers (b : Bitmap) : b.numbers.Nodup := by
  apply ((List.nodup_finRange _).filter _).map
  intro m n h
  have hval : (UInt32.ofNat m.val).toNat = (UInt32.ofNat n.val).toNat := congrArg UInt32.toNat h
  rw [toNat_ofNat_val, toNat_ofNat_val] at hval
  exact Fin.ext hval

/-- A number stands for the bit at its place, if there is one. -/
theorem mem_numbers :
    x ∈ b.numbers ↔ ∃ h : x.toNat < trackedBlocks, b.isSet ⟨x.toNat, h⟩ = true := by
  simp only [numbers, List.mem_map, List.mem_filter, List.mem_finRange, true_and]
  constructor
  · -- A number below the tracked count is the one of its own position.
    intro ⟨n, hset, hn⟩
    have htoNat : x.toNat = n.val := by rw [← hn, toNat_ofNat_val]
    refine ⟨by rw [htoNat]; exact n.isLt, ?_⟩
    rw [← hset]
    exact congrArg b.isSet (Fin.ext htoNat)
  · intro ⟨h, hset⟩
    exact ⟨⟨x.toNat, h⟩, hset, UInt32.ofNat_toNat⟩

theorem ofNat_mem_numbers : UInt32.ofNat n.val ∈ b.numbers ↔ b.isSet n = true := by
  have hsame (h : (UInt32.ofNat n.val).toNat < trackedBlocks) :
      (⟨(UInt32.ofNat n.val).toNat, h⟩ : Fin trackedBlocks) = n := Fin.ext (toNat_ofNat_val n)
  rw [mem_numbers]
  constructor
  · intro ⟨h, hset⟩
    rwa [hsame] at hset
  · intro hset
    refine ⟨by rw [toNat_ofNat_val]; exact n.isLt, ?_⟩
    rwa [hsame]

@[simp] theorem numbers_empty : empty.numbers = [] := by
  rw [← List.length_eq_zero_iff, length_numbers, population_empty]

end Bitmap

/-! ## One record counted -/

/-- The transfer is what the history says. -/
structure Transfer.Tracks (t : Transfer) (h : History) : Prop where
  total_eq : t.total = h.announced
  mem_written : ∀ b, b ∈ t.written.numbers ↔ b ∈ h.blocksSeen
  complete_iff : t.complete = true ↔ h.IsComplete

namespace Transfer

variable {t : Transfer} {h : History} {r : Record}

/-- A list without duplicates is as long as the set of its elements is large. -/
theorem length_eq_card {seen : List UInt32} {s : Finset UInt32} (hnodup : seen.Nodup)
    (hmem : ∀ b, b ∈ seen ↔ b ∈ s) : seen.length = s.card := by
  rw [← List.toFinset_card_of_nodup hnodup]
  congr 1
  ext b
  rw [List.mem_toFinset, hmem]

/-- The counter is the population of the bitmap, and that is the number of block numbers. -/
theorem toNat_seen {s : Finset UInt32} (hmem : ∀ b, b ∈ t.written.numbers ↔ b ∈ s) :
    t.seen.toNat = s.card := by
  rw [t.seen_eq, ← Bitmap.length_numbers]
  exact length_eq_card t.written.nodup_numbers hmem

/-- The counter is the number of blocks seen. -/
theorem Tracks.toNat_seen (ht : t.Tracks h) : t.seen.toNat = h.blocksSeen.card :=
  Transfer.toNat_seen ht.mem_written

/-- Each bit tells whether its block was seen. -/
theorem Tracks.isSet_iff (ht : t.Tracks h) (n : Fin trackedBlocks) :
    t.written.isSet n = true ↔ UInt32.ofNat n.val ∈ h.blocksSeen := by
  rw [← Bitmap.ofNat_mem_numbers, ht.mem_written]

/-- A transfer is in progress between its first block and its last one. -/
theorem Tracks.inProgress_iff (ht : t.Tracks h) :
    t.inProgress = true ↔ 0 < t.seen.toNat ∧ t.seen.toNat < t.total.toNat := by
  -- The flag says "not complete"; with the bound on the numbers that is "fewer than all".
  have hle := h.card_blocksSeen_le
  have hcomplete := ht.complete_iff
  rw [History.IsComplete, ← ht.toNat_seen, ← ht.total_eq] at hcomplete
  rw [← ht.toNat_seen, ← ht.total_eq] at hle
  have hpos : 0 < t.seen ↔ 0 < t.seen.toNat := UInt32.lt_iff_toNat_lt
  rw [inProgress, Bool.and_eq_true, decide_eq_true_eq, hpos, Bool.not_eq_true',
    ← Bool.not_eq_true, hcomplete]
  omega

/-- Marking a number adds this one and no other. -/
theorem mem_numbers_mark {b c : UInt32} (hb : b.toNat < trackedBlocks) :
    c ∈ (t.mark ⟨b.toNat, hb⟩).written.numbers ↔ c = b ∨ c ∈ t.written.numbers := by
  have hsame (hc : c.toNat < trackedBlocks) :
      (⟨c.toNat, hc⟩ : Fin trackedBlocks) = ⟨b.toNat, hb⟩ ↔ c = b := by
    rw [Fin.mk.injEq, UInt32.toNat_inj]
  -- Read every number through its bit: marking sets one bit and keeps the others.
  simp only [Bitmap.mem_numbers, isSet_mark, Bool.or_eq_true, beq_iff_eq, hsame]
  constructor
  · intro ⟨hc, h⟩
    exact h.elim (fun hset => Or.inr ⟨hc, hset⟩) Or.inl
  · intro h
    obtain heq | ⟨hc, hset⟩ := h
    · subst heq
      exact ⟨hb, Or.inr rfl⟩
    · exact ⟨hc, Or.inl hset⟩

/-- The record marks its number: its transfer is not complete, and the number is one of its blocks
and has a bit. -/
structure Marks (t : Transfer) (r : Record) : Prop where
  incomplete : (t.opened r).complete = false
  below : r.blockNo < (t.opened r).total
  tracked : r.blockNo.toNat < trackedBlocks

/-- A record that marks nothing opens its transfer, and that is all. -/
theorem track_of_not_marks (h : ¬ t.Marks r) : t.track r = (false, t.opened r) := by
  rw [track]
  split
  · rfl
  · rename_i hpassed
    rw [Bool.or_eq_true, decide_eq_true_eq, not_or, Bool.not_eq_true, UInt32.not_le] at hpassed
    -- The first test let the record pass, so that its number has no bit.
    rw [dif_neg fun htracked => h ⟨hpassed.1, hpassed.2, htracked⟩]

/-- A record that marks its number sets its bit; the answer compares the counter with the total. -/
theorem track_of_marks (hm : t.Marks r) :
    let t' := (t.opened r).mark ⟨r.blockNo.toNat, hm.tracked⟩
    t.track r = (decide (t'.seen = t'.total), { t' with complete := t'.seen = t'.total }) := by
  intro t'
  have hcomplete : t'.complete = false := (mark_keeps _ _).2.2.trans hm.incomplete
  have hcounts : ¬ ((t.opened r).complete || (t.opened r).total ≤ r.blockNo) = true := by
    rw [hm.incomplete, Bool.false_or, decide_eq_true_eq]
    exact UInt32.not_le.mpr hm.below
  rw [track]
  simp only [if_neg hcounts, dif_pos hm.tracked]
  by_cases hall : t'.seen = t'.total
  · simp [t', hall]
  · simp [t', hall, ← hcomplete]

/-- A transfer is complete after a record if the record completes it or it was complete. -/
theorem complete_track (t : Transfer) (r : Record) :
    (t.track r).2.complete = ((t.track r).1 || (t.opened r).complete) := by
  by_cases hm : t.Marks r
  · rw [track_of_marks hm, hm.incomplete, Bool.or_false]
  · rw [track_of_not_marks hm, Bool.false_or]

/-- Opening a transfer for a record carries over the numbers of its run, or drops them. -/
theorem Tracks.opened (ht : t.Tracks h) (r : Record) :
    (t.opened r).total = r.numBlocks ∧
      (∀ b, b ∈ (t.opened r).written.numbers ↔ b ∈ h.carried r) ∧
      ((t.opened r).complete = true ↔ r.numBlocks = h.announced ∧ h.IsComplete) := by
  rw [Transfer.opened, ht.total_eq, History.carried]
  by_cases hrun : r.numBlocks = h.announced
  · simp [hrun, ht.total_eq, ht.mem_written, ht.complete_iff]
  · simp [hrun, restart]

/-- A record that marks nothing adds no number to its run, and does not complete it. -/
theorem Tracks.of_not_marks (ht : t.Tracks h) (hm : ¬ t.Marks r) :
    (t.opened r).Tracks (h ++ [r]) ∧ ¬ h.Reaches r := by
  obtain ⟨htotal, hmem, hcomplete⟩ := ht.opened r
  have hsame : History.blocksSeen (h ++ [r]) = h.carried r := by
    by_cases hrun : r.numBlocks = h.announced ∧ h.IsComplete
    · exact History.blocksSeen_snoc_of_complete hrun.1 hrun.2
    · -- The run is open, so the number is none of its blocks or has no bit.
      have hincomplete : (t.opened r).complete = false := by
        rw [← Bool.not_eq_true, hcomplete]
        exact hrun
      rw [History.blocksSeen_snoc, if_neg]
      intro hnumber
      exact hm ⟨hincomplete, by rw [htotal, UInt32.lt_iff_toNat_lt]; omega, by omega⟩
  refine ⟨⟨?_, ?_, ?_⟩, History.not_reaches_of_eq hsame⟩
  · rw [htotal, History.announced_snoc]
  · rwa [hsame]
  · rw [hcomplete, History.isComplete_snoc, hsame, History.carried_complete_iff]

/-- A record that marks its number adds it to an incomplete run, and completes the run exactly if
the counter meets the total. -/
theorem Tracks.of_marks (ht : t.Tracks h) (hm : t.Marks r) :
    (t.track r).2.Tracks (h ++ [r]) ∧ ((t.track r).1 = true ↔ h.Reaches r) := by
  obtain ⟨htotal, hmem, hcomplete⟩ := ht.opened r
  have hincomplete : ¬ (r.numBlocks = h.announced ∧ h.IsComplete) := by
    rw [← hcomplete, hm.incomplete]
    exact Bool.false_ne_true
  have hbelow := hm.below
  have htracked := hm.tracked
  rw [htotal, UInt32.lt_iff_toNat_lt] at hbelow
  rw [track_of_marks hm]
  have htotal' := (mark_keeps ⟨r.blockNo.toNat, htracked⟩ (t.opened r)).2.1.trans htotal
  have hmem' (b : UInt32) :
      b ∈ ((t.opened r).mark ⟨r.blockNo.toNat, htracked⟩).written.numbers ↔
        b ∈ History.blocksSeen (h ++ [r]) := by
    rw [mem_numbers_mark, hmem, History.blocksSeen_snoc, if_pos (by omega), Finset.mem_insert]
  -- From here on only the numbers and the total of the marked transfer matter.
  generalize (t.opened r).mark ⟨r.blockNo.toNat, htracked⟩ = t' at htotal' hmem'
  -- The counter meets the total exactly if the run is complete.
  have hdone : t'.seen = t'.total ↔ History.IsComplete (h ++ [r]) := by
    rw [History.isComplete_snoc, ← Transfer.toNat_seen hmem', ← UInt32.toNat_inj, htotal']
    exact ⟨fun hall => ⟨hall, by omega⟩, And.left⟩
  refine ⟨⟨?_, hmem', ?_⟩, ?_⟩
  · rw [History.announced_snoc]
    exact htotal'
  · rw [decide_eq_true_eq]
    exact hdone
  · rw [decide_eq_true_eq, hdone]
    exact ⟨fun hc => ⟨hc, hincomplete⟩, And.left⟩

/-- **One record.** Counting it extends the history by it, and the answer tells whether it made the
last missing block seen. -/
theorem track_tracks (ht : t.Tracks h) (r : Record) :
    (t.track r).2.Tracks (h ++ [r]) ∧ ((t.track r).1 = true ↔ h.Reaches r) := by
  by_cases hm : t.Marks r
  · exact ht.of_marks hm
  · obtain ⟨htracks, hreaches⟩ := ht.of_not_marks hm
    rw [track_of_not_marks hm]
    exact ⟨htracks, by simp [hreaches]⟩

/-- A transfer of no records. -/
theorem tracks_nil (family : UInt32) : Tracks { family } [] where
  total_eq := rfl
  mem_written := by simp [History.blocksSeen]
  complete_iff := by simp [History.IsComplete]

end Transfer

/-! ## The records of a run -/

/-- A record that a call counts, with what the disk made of it. -/
structure Counted (σ : Type) where
  record : Record
  /-- The block it was written to, if any, or why it has none. -/
  place : Except Error (Option UInt32)
  /-- The disk after its block was written. -/
  disk : Disk σ

/-- The answer to a counted record: its refusal comes before its completing the transfer. -/
def Counted.reply {σ : Type} (c : Counted σ) (complete : Bool) : Except Error Status :=
  match c.place with
  | .error e => .error e
  | .ok lba =>
    if complete then .ok (.complete lba)
    else .ok (lba.elim .ignored .written)

namespace Intake

variable {σ ω : Type} [Controller σ] [TickSource σ]

/-- The record that a call counts: none if its bytes are not a record, if it is for another family
or if its block could not be written. -/
def counted? (bytes : List UInt8) (i : Intake σ) : Option (Counted σ) :=
  match Record.decode bytes with
  | .error _ => none
  | .ok r =>
    if i.transfer.isForeign r then none
    else if r.isMainFlash then
      match placement i.disk.store.layout r with
      | .error (.trap _) => none
      | .error (.refused e) => some ⟨r, .error e, i.disk⟩
      | .ok lba =>
        match Disk.writeBlocks r.payload lba 1 i.disk with
        | .ok _ disk => some ⟨r, .ok (some lba), disk⟩
        | .error _ _ => none
    else some ⟨r, .ok none, i.disk⟩

/-- A request on the disk counts nothing. -/
def countedIn? (i : Intake σ) : Call → Option (Counted σ)
  | .record bytes => i.counted? bytes
  | .request _ => none

/-- The records that the calls of a run count, up to one that traps. -/
def history (act : ω → σ → σ) : List (Event Call ω) → Intake σ → History
  | [], _ => []
  | .call call :: rest, i =>
    (i.countedIn? call).toList.map Counted.record ++
      match serve call i with
      | .error (.trap _) _ => []
      | .error (.refused _) i' | .ok _ i' => history act rest i'
  | .world w :: rest, i => history act rest (world act w i)

/-! ### One call -/

omit [Controller σ] [TickSource σ] in
/-- An action on the disk leaves the transfer alone; its refusal is wrapped. -/
theorem onDisk_eq {α : Type} (act : Action FlashError (Disk σ) α) (i : Intake σ) :
    onDisk act i =
      match act i.disk with
      | .ok a disk => .ok a { i with disk }
      | .error (.refused e) disk => .error (.refused (.flash e)) { i with disk }
      | .error (.trap cause) disk => .error (.trap cause) { i with disk } := by
  obtain ⟨transfer, disk⟩ := i
  unfold onDisk Action.mapError withDisk
  cases h : act disk with
  | ok a d => simp [h]
  | error fault d => cases fault <;> simp [h]

/-- The last part of a call: count the record, then answer. -/
def conclude (c : Counted σ) : Action Error (Intake σ) Status := do
  let complete ← track c.record
  .ofExcept (c.reply complete)

/-- The bytes are a record for this board, with a block to store in the region. -/
structure Stores (i : Intake σ) (bytes : List UInt8) (r : Record) (lba : UInt32) : Prop where
  decoded : Record.decode bytes = .ok r
  own : ¬ i.transfer.isForeign r
  main : r.isMainFlash
  placed : placement i.disk.store.layout r = .ok lba

/-- What a call with some bytes counts, and what it comes to. -/
inductive Reception (i : Intake σ) (bytes : List UInt8) :
    Option (Counted σ) → Outcome Error (Intake σ) Status → Prop
  | malformed {e} (h : Record.decode bytes = .error e) :
    Reception i bytes none (.error (.refused e) i)
  | foreign : Reception i bytes none (.ok .ignored i)
  | unplaced {cause} : Reception i bytes none (.error (.trap cause) i)
  | unwritten {r lba e disk} (stored : i.Stores bytes r lba)
    (h : Disk.writeBlocks r.payload lba 1 i.disk = .error (.refused e) disk) :
    Reception i bytes none (.error (.refused (.flash e)) { i with disk })
  | cutOff {r lba cause disk} (stored : i.Stores bytes r lba)
    (h : Disk.writeBlocks r.payload lba 1 i.disk = .error (.trap cause) disk) :
    Reception i bytes none (.error (.trap cause) { i with disk })
  | skipped {r} (decoded : Record.decode bytes = .ok r) :
    Reception i bytes (some ⟨r, .ok none, i.disk⟩) (conclude ⟨r, .ok none, i.disk⟩ i)
  | misplaced {r e} (decoded : Record.decode bytes = .ok r)
    (h : placement i.disk.store.layout r = .error (.refused e)) :
    Reception i bytes (some ⟨r, .error e, i.disk⟩) (conclude ⟨r, .error e, i.disk⟩ i)
  | written {r lba disk} (stored : i.Stores bytes r lba)
    (h : Disk.writeBlocks r.payload lba 1 i.disk = .ok () disk) :
    Reception i bytes (some ⟨r, .ok (some lba), disk⟩)
      (conclude ⟨r, .ok (some lba), disk⟩ { i with disk })

/-- **One call.** Everything else about it is a case analysis on this. -/
theorem reception (bytes : List UInt8) (i : Intake σ) :
    i.Reception bytes (i.counted? bytes) (receive bytes i) := by
  unfold counted? receive
  cases hdecode : Record.decode bytes with
  | error e => exact .malformed hdecode
  | ok r =>
    rw [Action.ofExcept_bind, ask_bind, Action.ite_apply]
    simp only
    by_cases hforeign : i.transfer.isForeign r
    · rw [if_pos hforeign, if_pos hforeign]
      exact .foreign
    · rw [if_neg hforeign, if_neg hforeign, Action.ite_apply]
      by_cases hmain : r.isMainFlash
      · rw [if_pos hmain, if_pos hmain, ask_bind]
        cases hplace : placement i.disk.store.layout r with
        | ok lba =>
          have hstored : i.Stores bytes r lba := ⟨hdecode, hforeign, hmain, hplace⟩
          simp only
          rw [Action.bind_apply, onDisk_eq]
          cases hwrite : Disk.writeBlocks r.payload lba 1 i.disk with
          | ok _ disk =>
            -- The block is stored: what is left is to count the record and to answer.
            convert Reception.written hstored hwrite using 1
            simp only [conclude, Action.bind_apply]
            rcases track r { i with disk } with ⟨_ | _, _⟩ | _ <;> rfl
          | error fault disk =>
            cases fault with
            | trap cause => exact .cutOff hstored hwrite
            | refused e => exact .unwritten hstored hwrite
        | error fault =>
          cases fault with
          | trap cause => exact .unplaced
          | refused e =>
            -- A misplaced record is counted for its completion only, the refusal is answered either
            -- way.
            convert Reception.misplaced hdecode hplace using 1
            simp only [conclude, Counted.reply]
            exact Action.discard_bind _ _ _
      · rw [if_neg hmain, if_neg hmain]
        convert Reception.skipped hdecode using 1
        simp only [conclude, Action.bind_apply]
        rcases track r i with ⟨_ | _, _⟩ | _ <;> rfl

/-- A call that counts a record comes to its conclusion on the disk of that record. -/
theorem receive_of_counted {bytes : List UInt8} {i : Intake σ} {c : Counted σ}
    (hc : i.counted? bytes = some c) :
    receive bytes i = conclude c { i with disk := c.disk } := by
  have hreception := reception bytes i
  rw [hc] at hreception
  generalize receive bytes i = outcome at hreception
  cases hreception <;> rfl

/-- A call that counts no record leaves the transfer as it is. -/
theorem receive_of_not_counted {bytes : List UInt8} {i : Intake σ}
    (hc : i.counted? bytes = none) :
    (Outcome.state (receive bytes i)).transfer = i.transfer ∧
      ∀ lba i', receive bytes i ≠ .ok (.complete lba) i' := by
  have hreception := reception bytes i
  rw [hc] at hreception
  generalize receive bytes i = outcome at hreception
  cases hreception <;> exact ⟨rfl, fun lba i' h => by cases h⟩

/-- The record that completes a transfer flushes the disk. -/
theorem track_of_done {r : Record} {i : Intake σ} (hdone : (i.transfer.track r).1 = true) :
    track r i =
      (onDisk Disk.flush >>= fun _ => pure true) { i with transfer := (i.transfer.track r).2 } := by
  rw [track, Action.ofStep_bind]
  simp only [hdone, if_true]

/-- Any other record only counts. -/
theorem track_of_not_done {r : Record} {i : Intake σ} (hdone : (i.transfer.track r).1 = false) :
    track r i = .ok false { i with transfer := (i.transfer.track r).2 } := by
  rw [track, Action.ofStep_bind]
  simp only [hdone]
  rfl

/-- Counting a record; the flush that ends a transfer does not touch it. -/
theorem track_transfer (r : Record) (i : Intake σ) :
    (Outcome.state (track r i)).transfer = (i.transfer.track r).2 := by
  cases hdone : (i.transfer.track r).1 with
  | true =>
    rw [track_of_done hdone, Action.bind_apply, onDisk_eq]
    rcases Disk.flush i.disk with _ | ⟨_ | _, _⟩ <;> rfl
  | false => rw [track_of_not_done hdone]; rfl

/-- Counting comes first, and only its failure replaces the answer. -/
theorem conclude_eq (c : Counted σ) (i : Intake σ) :
    conclude c i =
      match track c.record i with
      | .ok complete i' => Action.ofExcept (c.reply complete) i'
      | .error fault i' => .error fault i' := by
  rw [conclude, Action.bind_apply]
  cases track c.record i <;> rfl

/-- A record that does not complete its transfer is answered without the disk. -/
theorem conclude_of_not_done {c : Counted σ} {i : Intake σ}
    (hdone : (i.transfer.track c.record).1 = false) :
    conclude c i = Action.ofExcept (c.reply false) ⟨(i.transfer.track c.record).2, i.disk⟩ := by
  rw [conclude_eq, track_of_not_done hdone]

/-- A record that completes its transfer is answered after the flush. -/
theorem conclude_of_done {c : Counted σ} {i : Intake σ}
    (hdone : (i.transfer.track c.record).1 = true) :
    conclude c i =
      match Disk.flush i.disk with
      | .ok _ disk => Action.ofExcept (c.reply true) ⟨(i.transfer.track c.record).2, disk⟩
      | .error (.refused e) disk =>
        .error (.refused (.flash e)) ⟨(i.transfer.track c.record).2, disk⟩
      | .error (.trap cause) disk =>
        .error (.trap cause) ⟨(i.transfer.track c.record).2, disk⟩ := by
  rw [conclude_eq, track_of_done hdone, Action.bind_apply, onDisk_eq]
  rcases Disk.flush i.disk with _ | ⟨_ | _, _⟩ <;> rfl

/-- The transfer after a conclusion does not depend on how the flush went. -/
theorem conclude_transfer (c : Counted σ) (i : Intake σ) :
    (Outcome.state (conclude c i)).transfer = (i.transfer.track c.record).2 := by
  rw [conclude_eq, ← track_transfer]
  rcases track c.record i with ⟨complete, i'⟩ | _
  · simp only [Action.ofExcept]
    cases c.reply complete <;> rfl
  · rfl

/-- The answer to a record that counts, if the flush that it may call for succeeds. -/
theorem conclude_answer (c : Counted σ) (i : Intake σ)
    (hflush : (i.transfer.track c.record).1 = true → ∃ disk, Disk.flush i.disk = .ok () disk) :
    ((conclude c).attempt : Action Error _ _) i =
      .ok (c.reply (i.transfer.track c.record).1) (Outcome.state (conclude c i)) := by
  -- Either no flush is called for, or it succeeds; the reply is that of the record.
  have hconclude : ∃ i', conclude c i =
      Action.ofExcept (c.reply (i.transfer.track c.record).1) i' := by
    cases hdone : (i.transfer.track c.record).1 with
    | true =>
      obtain ⟨disk, hdisk⟩ := hflush hdone
      rw [conclude_of_done hdone, hdisk]
      exact ⟨_, rfl⟩
    | false => exact ⟨_, conclude_of_not_done hdone⟩
  obtain ⟨i', hi'⟩ := hconclude
  rw [Action.attempt, hi']
  cases c.reply (i.transfer.track c.record).1 <;> rfl

/-! ### A run -/

/-- The answer of a record as that of a call leaves the state alone. -/
theorem serve_record_state (bytes : List UInt8) (i : Intake σ) :
    Outcome.state (serve (.record bytes) i) = Outcome.state (receive bytes i) := by
  rw [serve, Action.bind_apply]
  cases receive bytes i <;> rfl

/-- A request on the disk does not touch the transfer. -/
theorem serve_request_transfer (request : Request) (i : Intake σ) :
    (Outcome.state (serve (.request request) i)).transfer = i.transfer := by
  rw [serve, Action.bind_apply, onDisk_eq]
  rcases Disk.serve request i.disk with _ | ⟨_ | _, _⟩ <;> rfl

/-- **One call.** It extends the history by the record that it counts, if any. -/
theorem serve_tracks {h : History} {i : Intake σ} (hi : i.transfer.Tracks h) (call : Call) :
    (Outcome.state (serve call i)).transfer.Tracks
      (h ++ (i.countedIn? call).toList.map Counted.record) := by
  cases call with
  | request request =>
    rw [serve_request_transfer]
    simpa [countedIn?] using hi
  | record bytes =>
    rw [serve_record_state, countedIn?]
    cases hc : i.counted? bytes with
    | none =>
      rw [(receive_of_not_counted hc).1]
      simpa using hi
    | some c =>
      -- The transfer counts the record whether the flush succeeds or not.
      rw [receive_of_counted hc, conclude_transfer]
      exact (Transfer.track_tracks hi c.record).1

/-- **A run.** Induction on its events; a request and an act of the world count nothing. -/
theorem runAll_tracks (act : ω → σ → σ) (events : List (Event Call ω)) {h : History}
    {i : Intake σ} (hi : i.transfer.Tracks h) :
    (Outcome.state (runAll serve (world act) events i)).transfer.Tracks
      (h ++ history act events i) := by
  induction events generalizing h i with
  | nil =>
    rw [history, List.append_nil]
    exact hi
  | cons event rest ih =>
    cases event with
    | call call =>
      have hcall := serve_tracks hi call
      rw [history, ← List.append_assoc, state_runAll_call]
      rcases hserve : serve call i with ⟨reply, i'⟩ | ⟨_ | _, i'⟩
      · exact ih (by rwa [hserve] at hcall)
      · exact ih (by rwa [hserve] at hcall)
      · -- A trap ends the run; its call was counted all the same.
        rw [List.append_nil]
        rwa [hserve] at hcall
    | world w => exact ih (i := world act w i) hi

/-- **A transfer follows the history of its records.** Take any run of calls and acts of the world
on a board that starts with no transfer. The block count of its transfer is that of the last record
that was counted; as many blocks are seen as there are distinct numbers that can be tracked in the
current run; the transfer is complete when that makes all of them. A run is completed by exactly
one of its records: whatever bytes come next, they complete the transfer exactly if the record in
them makes the last missing number seen, and that record is answered as complete or, if it was
misplaced, with its refusal. -/
theorem transfer_follows_history (act : ω → σ → σ) (family : UInt32) (disk : Disk σ)
    (events : List (Event Call ω)) :
    let start : Intake σ := ⟨{ family }, disk⟩
    let h := history act events start
    let i := Outcome.state (runAll serve (world act) events start)
    i.transfer.total = h.announced ∧
      i.transfer.seen.toNat = h.blocksSeen.card ∧
      (∀ n : Fin trackedBlocks,
        i.transfer.written.isSet n = true ↔ UInt32.ofNat n.val ∈ h.blocksSeen) ∧
      i.transfer.seen.toNat = i.transfer.written.population ∧
      (i.transfer.complete = true ↔
        i.transfer.seen.toNat = i.transfer.total.toNat ∧ 0 < i.transfer.total.toNat) ∧
      (i.transfer.inProgress = true ↔
        0 < i.transfer.seen.toNat ∧ i.transfer.seen.toNat < i.transfer.total.toNat) ∧
      (h.IsComplete → ∃! k, h.runStart ≤ k ∧ h.ReachedAt k) ∧
      (¬ h.IsComplete → ∀ k, h.runStart ≤ k → ¬ h.ReachedAt k) ∧
      ∀ bytes,
        let i' := Outcome.state (receive bytes i)
        (i.counted? bytes = none →
          i'.transfer = i.transfer ∧ ∀ lba, receive bytes i ≠ .ok (.complete lba) i') ∧
        ∀ c, i.counted? bytes = some c →
          (h.Reaches c.record ↔ i'.transfer.complete = true ∧
            ¬ (i'.transfer.total = i.transfer.total ∧ i.transfer.complete = true)) ∧
          (¬ h.Reaches c.record →
            ((receive bytes).attempt : Action Error _ _) i = .ok (c.reply false) i') ∧
          (h.Reaches c.record → (∃ disk', Disk.flush c.disk = .ok () disk') →
            ((receive bytes).attempt : Action Error _ _) i = .ok (c.reply true) i') := by
  intro start h i
  have ht : i.transfer.Tracks h := by
    simpa using runAll_tracks act events (i := start) (Transfer.tracks_nil family)
  obtain ⟨honce, hnever⟩ := History.existsUnique_reachedAt h
  refine ⟨ht.total_eq, ht.toNat_seen, ht.isSet_iff, i.transfer.seen_eq, ?_, ht.inProgress_iff,
    honce, hnever, ?_⟩
  · rw [ht.complete_iff, ht.toNat_seen, ht.total_eq]
    rfl
  · intro bytes i'
    constructor
    · intro hc
      obtain ⟨hsame, hnot⟩ := receive_of_not_counted hc
      exact ⟨hsame, fun lba => hnot lba i'⟩
    · intro c hc
      -- The next call counts a record: one more step of the history tells the rest.
      have hreceive := receive_of_counted hc
      have hi' : i'.transfer = (i.transfer.track c.record).2 := by
        show (Outcome.state (receive bytes i)).transfer = _
        rw [hreceive, conclude_transfer]
      obtain ⟨htracks, hdone⟩ := Transfer.track_tracks ht c.record
      rw [← hi'] at htracks
      have hattempt : ((receive bytes).attempt : Action Error _ _) i =
          ((conclude c).attempt : Action Error _ _) { i with disk := c.disk } := by
        rw [Action.attempt, Action.attempt, hreceive]
      have hanswer := conclude_answer c { i with disk := c.disk }
      rw [← hreceive, ← hattempt] at hanswer
      refine ⟨?_, ?_, ?_⟩
      · rw [History.Reaches, htracks.complete_iff, htracks.total_eq, ht.total_eq, ht.complete_iff,
          History.announced_snoc]
      · intro hnot
        rw [← hdone, Bool.not_eq_true] at hnot
        rw [hanswer (fun hd => by simp [hnot] at hd)]
        simp only [hnot]
        rfl
      · intro hreach hflush
        rw [hanswer fun _ => hflush]
        simp only [hdone.mpr hreach]
        rfl

/-- A transfer of two blocks: the first one comes twice, then the second one at an address outside
the region. It is refused, and completes the transfer. -/
theorem transfer_follows_history_misplaced :
    let layout := Board.orangeCrabR01.layout
    let disk : Disk (Bench NorPart) := .fresh layout Board.orangeCrabR01.layout_valid .onSectorStart
      {} (.fresh (Memory.blank layout.flashBytes.toNat) 2 ⟨0, 1⟩)
    let start : Intake (Bench NorPart) := ⟨{ family := boardFamily }, disk⟩
    let record (target blockNo : UInt32) : Record :=
      { flags := familyPresent, target, payloadSize := 256, blockNo, numBlocks := 2
        family := boardFamily, data := List.replicate dataBytes 0x5A
        length_data := List.length_replicate }
    let first := Event.call (.record (record 0x20080000 0).encode)
    let i := Outcome.state (runAll serve (world Bench.hold) [first, first] start)
    i.transfer.complete = false ∧
      ∃ i', ((receive (record 0x20000000 1).encode).attempt : Action Error _ _) i =
          .ok (.error (.outsideRegion 0x20000000)) i' ∧
        i'.transfer.complete = true := by
  intro layout disk start record first i
  obtain ⟨-, -, -, -, -, -, -, -, hnext⟩ :=
    transfer_follows_history Bench.hold boardFamily disk [first, first]
  obtain ⟨-, hnext⟩ := hnext (record 0x20000000 1).encode
  -- What the next call counts, and that the flush it calls for succeeds, is computed.
  have hcounted : (i.counted? (record 0x20000000 1).encode).any (fun c =>
      c.record = record 0x20000000 1 ∧ c.place = .error (.outsideRegion 0x20000000) ∧
        Outcome.Meets (fun _ _ => True) (fun _ _ => False) (Disk.flush c.disk)) = true := by
    decide +kernel
  have hreach : History.Reaches (history Bench.hold [first, first] start)
      (record 0x20000000 1) := by decide +kernel
  have hbefore : i.transfer.complete = false := by decide +kernel
  obtain ⟨c, hc, hproperties⟩ := (Option.any_eq_true _ _).mp hcounted
  rw [decide_eq_true_eq] at hproperties
  obtain ⟨hrecord, hplace, hflushed⟩ := hproperties
  obtain ⟨_, disk', hflush, -⟩ := hflushed.ok fun _ _ => id
  obtain ⟨hcomplete, -, hanswer⟩ := hnext c hc
  rw [hrecord] at hcomplete hanswer
  have hreply : c.reply true = .error (.outsideRegion 0x20000000) := by
    rw [Counted.reply, hplace]
  rw [← hreply]
  exact ⟨hbefore, _, hanswer hreach ⟨disk', hflush⟩, (hcomplete.mp hreach).1⟩

end Intake

end NorDisk.Uf2
