import NorDisk.Proofs.LastWrite
import NorDisk.Proofs.RecordOutcomes

/-!
# What a record asks of its disk

Which requests a record makes is decided before the disk is asked anything: by its bytes, the
transfer and the layout. They are put down here as a `Plan`, and taking a record is running its plan
on the disk (`receive_eq_run`), whatever the controller and whatever was done with the disk before.

* **`Judged`** — the tests that a record has to pass, in their order, said of its fields and of the
  blocks of the region; each record is judged in exactly one way.
* **`Verdict.plan`** — what follows from that.
* **`record_calls`** — the block of a record is written exactly if the record passes all tests, and
  the only other request is the flush that ends a transfer.
-/

namespace NorDisk.Uf2

open Outcome

/-! ## Plans -/

/-- The requests of a record, each with the transfer as it stands when the request is made. A
request that fails is the last one. -/
inductive Plan where
  | reply (transfer : Transfer) (result : Except Error Status)
  | ask (transfer : Transfer) (request : Request) (next : Plan)

namespace Plan

/-- The requests, if none of them fails. -/
def calls : Plan → List Request
  | reply _ _ => []
  | ask _ request next => request :: next.calls

/-- Make the requests of a plan. -/
def run {σ : Type} [Controller σ] [TickSource σ] : Plan → Disk σ → Outcome Error (Intake σ) Status
  | reply transfer (.ok status), disk => .ok status { transfer, disk }
  | reply transfer (.error e), disk => .error (.refused e) { transfer, disk }
  | ask transfer request next, disk =>
    match Disk.serve request disk with
    | .ok _ disk => next.run disk
    | .error (.refused e) disk => .error (.refused (.flash e)) { transfer, disk }
    | .error (.trap cause) disk => .error (.trap cause) { transfer, disk }

end Plan

/-- What a record that is counted is answered, from its place. -/
def answerAt (place : Except Error (Option UInt32)) (complete : Bool) : Except Error Status :=
  place.map fun lba => if complete then .complete lba else lba.elim .ignored .written

/-- Count a record, and flush if it completes the transfer. -/
def Transfer.concluding (t : Transfer) (r : Record) (place : Except Error (Option UInt32)) : Plan :=
  if (t.track r).1 then .ask (t.track r).2 .flush (.reply (t.track r).2 (answerAt place true))
  else .reply (t.track r).2 (answerAt place false)

/-- Does the record complete the transfer that it belongs to? -/
def Transfer.CompletedBy (t : Transfer) (r : Record) : Prop :=
  (t.track r).2.complete = true ∧ (t.opened r).complete = false

instance (t : Transfer) (r : Record) : Decidable (t.CompletedBy r) :=
  inferInstanceAs (Decidable (_ ∧ _))

theorem Transfer.track_fst_iff (t : Transfer) (r : Record) :
    (t.track r).1 = true ↔ t.CompletedBy r := by
  rw [CompletedBy, complete_track]
  cases hopened : (t.opened r).complete with
  | false => simp
  | true =>
    -- A transfer that is complete counts no more records.
    have hskip : (t.track r).1 = false := by
      rw [track_of_not_marks fun hm => absurd hm.incomplete (by simp [hopened])]
    simp [hskip]

/-! ## Tests -/

/-- What the tests make of a record. -/
inductive Verdict where
  /-- It is answered at once. -/
  | answered (result : Except Error Status)
  /-- It is counted, but has no block to store. -/
  | counted (r : Record) (place : Except Error (Option UInt32))
  /-- Its payload is for a block of the region. -/
  | stored (r : Record) (payload : List UInt8) (lba : UInt32)

/-- The record is for any family or for this one. -/
def Record.IsOwn (r : Record) (family : UInt32) : Prop :=
  r.flags &&& familyPresent = 0 ∨ r.family = family

/-- Address of a block in the read window. -/
def blockAddress (l : Layout) (k : Nat) : Nat := windowBase.toNat + l.regionBase.toNat + 256 * k

/-- The bytes are a record that passes all tests, and its target is a block of the region. -/
structure Accepted (l : Layout) (family : UInt32) (bytes : List UInt8) (r : Record)
    (lba : UInt32) : Prop where
  decoded : Record.decode bytes = .ok r
  own : r.IsOwn family
  main : r.flags &&& notMainFlash = 0
  size : r.payloadSize.toNat = 256
  inside : lba.toNat < l.blocks
  target : r.target.toNat = blockAddress l lba.toNat

/-- The tests in their order: the bytes are a record, for this family, for the main flash, with a
payload of one block, for an aligned address, which is that of a block of the region. -/
inductive Judged (l : Layout) (family : UInt32) (bytes : List UInt8) : Verdict → Prop
  | malformed {e} (h : Record.decode bytes = .error e) :
    Judged l family bytes (.answered (.error e))
  | foreign {r} (decoded : Record.decode bytes = .ok r) (h : ¬ r.IsOwn family) :
    Judged l family bytes (.answered (.ok .ignored))
  | elsewhere {r} (decoded : Record.decode bytes = .ok r) (own : r.IsOwn family)
    (h : r.flags &&& notMainFlash ≠ 0) : Judged l family bytes (.counted r (.ok none))
  | badPayloadSize {r} (decoded : Record.decode bytes = .ok r) (own : r.IsOwn family)
    (main : r.flags &&& notMainFlash = 0) (h : r.payloadSize.toNat ≠ 256) :
    Judged l family bytes (.counted r (.error (.badPayloadSize r.payloadSize)))
  | misaligned {r} (decoded : Record.decode bytes = .ok r) (own : r.IsOwn family)
    (main : r.flags &&& notMainFlash = 0) (size : r.payloadSize.toNat = 256)
    (h : r.target.toNat % 256 ≠ 0) :
    Judged l family bytes (.counted r (.error (.misaligned r.target)))
  | outsideRegion {r} (decoded : Record.decode bytes = .ok r) (own : r.IsOwn family)
    (main : r.flags &&& notMainFlash = 0) (size : r.payloadSize.toNat = 256)
    (aligned : r.target.toNat % 256 = 0)
    (h : ∀ k < l.blocks, r.target.toNat ≠ blockAddress l k) :
    Judged l family bytes (.counted r (.error (.outsideRegion r.target)))
  | stored {r lba} (h : Accepted l family bytes r lba) :
    Judged l family bytes (.stored r ((bytes.drop 32).take 256) lba)

variable {l : Layout} {family : UInt32} {bytes : List UInt8} {r : Record} {lba : UInt32}
  {verdict verdict' : Verdict}

/-- The address of a block is aligned. -/
theorem blockAddress_mod (hv : l.Valid) (k : Nat) : blockAddress l k % 256 = 0 := by
  have hbase := hv.regionBase_mod
  have hwindow : windowBase.toNat % 256 = 0 := by decide
  unfold blockAddress
  omega

theorem blockAddress_inj {j k : UInt32} (h : blockAddress l j.toNat = blockAddress l k.toNat) :
    j = k := by
  unfold blockAddress at h
  exact UInt32.toNat_inj.mp (by omega)

/-- Each test excludes those after it. -/
theorem Judged.unique (hv : l.Valid) (h : Judged l family bytes verdict)
    (h' : Judged l family bytes verdict') : verdict = verdict' := by
  -- A target that is misaligned or outside of the region is the address of no block, and that of a
  -- block names only this block. Any two other verdicts differ in a test that both speak of.
  have haligned := blockAddress_mod hv
  have hinj := @blockAddress_inj l
  cases h <;> cases h' <;> grind [Accepted]

theorem exists_judged (l : Layout) (family : UInt32) (bytes : List UInt8) :
    ∃ verdict, Judged l family bytes verdict := by
  cases decoded : Record.decode bytes with
  | error e => exact ⟨_, .malformed decoded⟩
  | ok r =>
    by_cases own : r.IsOwn family
    swap
    · exact ⟨_, .foreign decoded own⟩
    by_cases main : r.flags &&& notMainFlash = 0
    swap
    · exact ⟨_, .elsewhere decoded own main⟩
    by_cases size : r.payloadSize.toNat = 256
    swap
    · exact ⟨_, .badPayloadSize decoded own main size⟩
    by_cases aligned : r.target.toNat % 256 = 0
    swap
    · exact ⟨_, .misaligned decoded own main size aligned⟩
    by_cases inside : ∃ k < l.blocks, r.target.toNat = blockAddress l k
    swap
    · exact ⟨_, .outsideRegion decoded own main size aligned fun k hk h => inside ⟨k, hk, h⟩⟩
    obtain ⟨k, hk, htarget⟩ := inside
    have hcount := l.blocks_lt
    have hlba : (UInt32.ofNat k).toNat = k := UInt32.toNat_ofNat_of_lt' (show k < 2 ^ 32 by omega)
    have haccepted : Accepted l family bytes r (UInt32.ofNat k) :=
      ⟨decoded, own, main, size, hlba.symm ▸ hk, hlba.symm ▸ htarget⟩
    exact ⟨_, .stored haccepted⟩

/-! ## Tests and placement -/

theorem isForeign_iff (t : Transfer) (r : Record) :
    t.isForeign r = true ↔ ¬ r.IsOwn t.family := by
  simp [Transfer.isForeign, Record.IsOwn, Record.hasFamily]

theorem isMainFlash_iff (r : Record) : r.isMainFlash = true ↔ r.flags &&& notMainFlash = 0 := by
  simp [Record.isMainFlash]

theorem payloadSize_iff (r : Record) : r.payloadSize = blockBytes ↔ r.payloadSize.toNat = 256 := by
  rw [← UInt32.toNat_inj]
  rfl

theorem target_mod_iff (r : Record) : r.target % blockBytes = 0 ↔ r.target.toNat % 256 = 0 := by
  rw [← UInt32.toNat_inj, UInt32.toNat_mod]
  rfl

theorem placement_of_badPayloadSize (h : r.payloadSize.toNat ≠ 256) :
    placement l r = .error (.refused (.badPayloadSize r.payloadSize)) := by
  rw [placement, if_pos (mt (payloadSize_iff r).mp h)]

theorem placement_of_misaligned (size : r.payloadSize.toNat = 256)
    (h : r.target.toNat % 256 ≠ 0) :
    placement l r = .error (.refused (.misaligned r.target)) := by
  rw [placement, if_neg (not_not_intro ((payloadSize_iff r).mpr size)),
    if_pos (mt (target_mod_iff r).mp h)]

theorem placement_of_aligned (size : r.payloadSize.toNat = 256)
    (aligned : r.target.toNat % 256 = 0) :
    placement l r =
      match l.blockAt? r.target with
      | .error cause => .error (.trap cause)
      | .ok none => .error (.refused (.outsideRegion r.target))
      | .ok (some lba) => .ok lba := by
  have hsize := not_not_intro ((payloadSize_iff r).mpr size)
  have haligned := not_not_intro ((target_mod_iff r).mpr aligned)
  exact (if_neg hsize).trans (if_neg haligned)

theorem placement_of_outside (hv : l.Valid) (hw : l.WindowFits)
    (size : r.payloadSize.toNat = 256) (aligned : r.target.toNat % 256 = 0)
    (h : ∀ k < l.blocks, r.target.toNat ≠ blockAddress l k) :
    placement l r = .error (.refused (.outsideRegion r.target)) := by
  rw [placement_of_aligned size aligned]
  match hblock : l.blockAt? r.target with
  | .error cause => exact absurd hblock (Layout.blockAt?_ne_error hv hw r.target cause)
  | .ok none => rfl
  | .ok (some lba) =>
    -- Whatever block is found has its address at the target.
    obtain ⟨hlba, htarget⟩ := (Layout.blockAt?_eq_some_iff hv hw).mp hblock
    exact absurd (htarget.trans (Nat.add_assoc ..).symm) (h lba.toNat hlba)

theorem Accepted.placed (hv : l.Valid) (hw : l.WindowFits) (h : Accepted l family bytes r lba) :
    placement l r = .ok lba := by
  have hblock : l.blockAt? r.target = .ok (some lba) :=
    (Layout.blockAt?_eq_some_iff hv hw).mpr ⟨h.inside, h.target.trans (Nat.add_assoc ..)⟩
  rw [placement_of_aligned h.size (h.target ▸ blockAddress_mod hv _), hblock]

/-- The payload of a record is a stretch of its bytes. -/
theorem Accepted.payload_eq (h : Accepted l family bytes r lba) :
    r.payload = (bytes.drop 32).take 256 := by
  have hdata : r.data = (bytes.drop 32).take dataBytes := by
    have hdecode := h.decoded
    unfold Record.decode at hdecode
    split at hdecode
    · cases hdecode
    · split at hdecode
      · cases hdecode
      · cases hdecode
        rfl
  rw [Record.payload, h.size, hdata, List.take_take]
  rfl

/-! ## What follows from the tests -/

namespace Verdict

/-- The requests of a record. -/
def plan (t : Transfer) : Verdict → Plan
  | answered result => .reply t result
  | counted r place => t.concluding r place
  | stored r payload lba => .ask t (.write payload lba 1) (t.concluding r (.ok (some lba)))

/-- The block that is written. -/
def block? : Verdict → Option UInt32
  | stored _ _ lba => some lba
  | answered _ | counted _ _ => none

/-- Does counting the record complete the transfer? -/
def Completes (t : Transfer) : Verdict → Prop
  | answered _ => False
  | counted r _ | stored r _ _ => t.CompletedBy r

instance (t : Transfer) : (verdict : Verdict) → Decidable (verdict.Completes t)
  | answered _ => inferInstanceAs (Decidable False)
  | counted r _ | stored r _ _ => inferInstanceAs (Decidable (t.CompletedBy r))

end Verdict

theorem Transfer.calls_concluding (t : Transfer) (r : Record)
    (place : Except Error (Option UInt32)) :
    (t.concluding r place).calls = if t.CompletedBy r then [.flush] else [] := by
  rw [concluding]
  by_cases h : t.CompletedBy r
  · rw [if_pos h, if_pos ((track_fst_iff t r).mpr h)]
    rfl
  · rw [if_neg h, if_neg (mt (track_fst_iff t r).mp h)]
    rfl

theorem Judged.calls_plan (h : Judged l family bytes verdict) (t : Transfer) :
    (verdict.plan t).calls =
      verdict.block?.toList.map (fun lba => .write ((bytes.drop 32).take 256) lba 1) ++
        if verdict.Completes t then [.flush] else [] := by
  cases h with
  | malformed | foreign => rfl
  | elsewhere | badPayloadSize | misaligned | outsideRegion => exact t.calls_concluding _ _
  | @stored r lba h => exact congrArg (Request.write _ lba 1 :: ·) (t.calls_concluding r _)

/-- The block of a record is written exactly if the record passes all tests. -/
theorem Judged.block?_eq_some_iff (hv : l.Valid) (h : Judged l family bytes verdict) :
    verdict.block? = some lba ↔ ∃ r, Accepted l family bytes r lba := by
  constructor
  · intro hblock
    cases h with
    | @stored r _ h =>
      obtain rfl := Option.some.inj hblock
      exact ⟨r, h⟩
    | _ => cases hblock
  · rintro ⟨r, haccepted⟩
    rw [h.unique hv (.stored haccepted)]
    rfl

namespace Intake

variable {σ : Type} [Controller σ] [TickSource σ] {i : Intake σ}

theorem run_concluding (t : Transfer) (r : Record) (place : Except Error (Option UInt32))
    (d d' : Disk σ) : (t.concluding r place).run d = conclude ⟨r, place, d'⟩ ⟨t, d⟩ := by
  have hreply (complete : Bool) (i : Intake σ) :
      (Plan.reply i.transfer (answerAt place complete)).run i.disk =
        Action.ofExcept (Counted.reply ⟨r, place, d'⟩ complete) i := by
    rcases place with e | _ | lba <;> cases complete <;> rfl
  rw [Transfer.concluding]
  cases hdone : (t.track r).1 with
  | false =>
    rw [if_neg Bool.false_ne_true, conclude_of_not_done (i := ⟨t, d⟩) hdone]
    exact hreply false ⟨(t.track r).2, d⟩
  | true =>
    rw [if_pos rfl, conclude_of_done (i := ⟨t, d⟩) hdone, Plan.run, Disk.serve, Action.bind_apply]
    rcases Disk.flush d with ⟨_, d₁⟩ | ⟨e | cause, d₁⟩
    · exact hreply true ⟨(t.track r).2, d₁⟩
    · rfl
    · rfl

/-- A record that is counted without a block to store. -/
theorem receive_eq_run_of_counted {place : Except Error (Option UInt32)}
    (h : i.counted? bytes = some ⟨r, place, i.disk⟩) :
    receive bytes i = (i.transfer.concluding r place).run i.disk := by
  rw [receive_of_counted h, run_concluding _ _ _ _ i.disk]

/-- A record with a block to store is counted after that. -/
theorem Stores.receive_eq (h : i.Stores bytes r lba) :
    receive bytes i =
      match Disk.writeBlocks r.payload lba 1 i.disk with
      | .ok _ d => conclude ⟨r, .ok (some lba), d⟩ ⟨i.transfer, d⟩
      | .error (.refused e) d => .error (.refused (.flash e)) ⟨i.transfer, d⟩
      | .error (.trap cause) d => .error (.trap cause) ⟨i.transfer, d⟩ := by
  cases hwrite : Disk.writeBlocks r.payload lba 1 i.disk with
  | ok _ d => exact receive_of_counted (h.counted? hwrite)
  | error fault d =>
    rw [receive, h.decoded, Action.ofExcept_bind, ask_bind, Action.ite_apply, if_neg h.own,
      Action.ite_apply, if_pos h.main, ask_bind, h.placed]
    simp only [Action.bind_apply, onDisk_eq, hwrite]
    cases fault <;> rfl

/-- **A record is its plan.** -/
theorem receive_eq_run (hw : i.disk.store.layout.WindowFits)
    (h : Judged i.disk.store.layout i.transfer.family bytes verdict) :
    receive bytes i = (verdict.plan i.transfer).run i.disk := by
  have hv := i.disk.store.layout_valid
  have hforeign (r : Record) (own : r.IsOwn i.transfer.family) : ¬ i.transfer.isForeign r = true :=
    fun h => (isForeign_iff _ r).mp h own
  -- The last three tests are those of the placement, and a record that fails one still counts.
  have hmisplaced {r : Record} {e : Error} (decoded : Record.decode bytes = .ok r)
      (own : r.IsOwn i.transfer.family) (main : r.flags &&& notMainFlash = 0)
      (hplace : placement i.disk.store.layout r = .error (.refused e)) :
      receive bytes i = (i.transfer.concluding r (.error e)).run i.disk := by
    apply receive_eq_run_of_counted
    simp only [counted?, decoded, if_neg (hforeign r own), if_pos ((isMainFlash_iff r).mpr main),
      hplace]
  cases h with
  | malformed h =>
    rw [receive, h]
    rfl
  | @foreign r decoded h =>
    rw [receive, decoded, Action.ofExcept_bind, ask_bind, Action.ite_apply,
      if_pos ((isForeign_iff _ r).mpr h)]
    rfl
  | @elsewhere r decoded own h =>
    apply receive_eq_run_of_counted
    simp only [counted?, decoded, if_neg (hforeign r own), if_neg (mt (isMainFlash_iff r).mp h)]
  | badPayloadSize decoded own main h =>
    exact hmisplaced decoded own main (placement_of_badPayloadSize h)
  | misaligned decoded own main size h =>
    exact hmisplaced decoded own main (placement_of_misaligned size h)
  | outsideRegion decoded own main size aligned h =>
    exact hmisplaced decoded own main (placement_of_outside hv hw size aligned h)
  | @stored r lba h =>
    have hstored : i.Stores bytes r lba :=
      ⟨h.decoded, hforeign r h.own, (isMainFlash_iff r).mpr h.main, h.placed hv hw⟩
    rw [hstored.receive_eq, ← h.payload_eq, Verdict.plan, Plan.run, Disk.serve, Action.bind_apply]
    rcases Disk.writeBlocks r.payload lba 1 i.disk with ⟨_, d⟩ | ⟨_ | _, d⟩
    · exact (run_concluding _ _ _ _ _).symm
    · rfl
    · rfl

/-! ## Records and requests -/

/-- A record that is not stored leaves the disk to the flush that ends a transfer. -/
theorem disk_receive (hw : i.disk.store.layout.WindowFits)
    (h : Judged i.disk.store.layout i.transfer.family bytes verdict)
    (hblock : verdict.block? = none) :
    (state (receive bytes i)).disk =
      if verdict.Completes i.transfer then state (Disk.flush i.disk) else i.disk := by
  rw [receive_eq_run hw h]
  match verdict, hblock with
  | .answered result, _ => cases result <;> rfl
  | .counted r place, _ =>
    have hcompletes : (Verdict.counted r place).Completes i.transfer ↔
        (i.transfer.track r).1 = true := (Transfer.track_fst_iff i.transfer r).symm
    rw [Verdict.plan, run_concluding _ _ _ _ i.disk, conclude_disk]
    simp only [hcompletes]

/-- What the bytes of a record come to. -/
structure Handled (i : Intake σ) (bytes : List UInt8) (verdict : Verdict) : Prop where
  judged : Judged i.disk.store.layout i.transfer.family bytes verdict
  only : ∀ other, Judged i.disk.store.layout i.transfer.family bytes other → other = verdict
  run : receive bytes i = (verdict.plan i.transfer).run i.disk
  calls : (verdict.plan i.transfer).calls =
    verdict.block?.toList.map (fun lba => .write ((bytes.drop 32).take 256) lba 1) ++
      if verdict.Completes i.transfer then [.flush] else []
  written_iff : ∀ lba, verdict.block? = some lba ↔
    ∃ r, Accepted i.disk.store.layout i.transfer.family bytes r lba
  untouched : verdict.block? = none → (state (receive bytes i)).disk =
    if verdict.Completes i.transfer then state (Disk.flush i.disk) else i.disk

/-- **A record asks for what its tests say.** Whatever bytes arrive, whatever the controller is and
whatever was done with the disk and the transfer before: the bytes are judged in one way, by the
first test that they fail, and are answered so. Their block is written, by one request, exactly if
they pass all tests. The only other request is the flush after a record that completes its transfer,
and without that nothing is done to the disk. -/
theorem record_calls (i : Intake σ) (hw : i.disk.store.layout.WindowFits) (bytes : List UInt8) :
    ∃ verdict, i.Handled bytes verdict := by
  have hv := i.disk.store.layout_valid
  obtain ⟨verdict, h⟩ := exists_judged i.disk.store.layout i.transfer.family bytes
  exact ⟨verdict, h, fun _ hother => hother.unique hv h, receive_eq_run hw h,
    h.calls_plan i.transfer, fun _ => h.block?_eq_some_iff hv, disk_receive hw h⟩

/-- A record for the last block of a region, which is a transfer of its own. -/
theorem record_calls_for_last_block :
    let layout := Board.orangeCrabR01.layout
    let i : Intake (Bench NorPart) := fresh { family := boardFamily } layout
      Board.orangeCrabR01.layout_valid .staged busyTimeout 1 ⟨0, 1⟩
      (Memory.blank layout.flashBytes.toNat)
    let record : Record :=
      { flags := familyPresent, target := 0x200FFF00, payloadSize := 256, blockNo := 0
        numBlocks := 1, family := boardFamily
        data := List.replicate 256 0x5A ++ List.replicate 220 0
        length_data := by
          rw [List.length_append, List.length_replicate, List.length_replicate, dataBytes] }
    layout.WindowFits ∧ ∃ verdict, i.Handled record.encode verdict ∧
      verdict.block? = some 2047 ∧ verdict.Completes i.transfer := by
  intro layout i record
  have hw : layout.WindowFits := Board.orangeCrabR01.windowFits
  have haccepted : Accepted layout boardFamily record.encode record 2047 :=
    ⟨record.decode_encode, Or.inr rfl, by decide, rfl, by decide, by decide⟩
  obtain ⟨verdict, h⟩ := record_calls i hw record.encode
  obtain rfl := h.only _ (.stored haccepted)
  have hcompletes : i.transfer.CompletedBy record := by decide
  exact ⟨hw, _, h, rfl, hcompletes⟩

end Intake

end NorDisk.Uf2
