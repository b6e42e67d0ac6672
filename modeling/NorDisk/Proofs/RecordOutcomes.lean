import NorDisk.Proofs.RequestOutcomes
import NorDisk.Proofs.TransferHistory

/-!
# How a record ends

The bytes of a record are refused if they are not one or if the record has no place in the region.
Apart from that only the flash can fail, and it can do so at two points: when the block of the
record is written, and when the transfer that the record completes is flushed. At the first point
the record has not been counted yet, at the second one it has.

* **`Intake.Refuses`** — the four ways in which bytes are refused; there are no others
  (`refuses_of_receive`).
* **`receive_keeps`** — a record does nothing to the disk but write and flush;
  **`runAll_continues`** — the store under a whole run.
-/

namespace NorDisk.Uf2

open Outcome

/-- Reading a record does not involve the flash. -/
theorem Record.decode_ne_flash (bytes : List UInt8) (e : FlashError) :
    Record.decode bytes ≠ .error (.flash e) := by
  unfold Record.decode
  split
  · exact nofun
  · split <;> exact nofun

/-- Finding the place of a record does not involve the flash. -/
theorem placement_ne_flash (l : Layout) (r : Record) (e : FlashError) :
    placement l r ≠ .error (.refused (.flash e)) := by
  unfold placement
  split
  · exact nofun
  · split
    · exact nofun
    · split <;> exact nofun

namespace Intake

variable {σ ω : Type} [Controller σ] [TickSource σ] {i i' : Intake σ} {bytes : List UInt8}

/-- The ways in which the bytes of a record are refused. -/
inductive Refuses (i : Intake σ) (bytes : List UInt8) : Error → Prop
  | malformed {e} (h : Record.decode bytes = .error e) : Refuses i bytes e
  | misplaced {r e} (decoded : Record.decode bytes = .ok r)
    (h : placement i.disk.store.layout r = .error (.refused e)) : Refuses i bytes e
  /-- Its block could not be written, and it was not counted. -/
  | write {r lba e disk} (uncounted : i.counted? bytes = none) (stored : i.Stores bytes r lba)
    (h : Disk.writeBlocks r.payload lba 1 i.disk = .error (.refused e) disk) :
    Refuses i bytes (.flash e)
  /-- It was counted and completed its transfer, which could not be flushed. -/
  | flush {c e disk} (counted : i.counted? bytes = some c)
    (completed : (i.transfer.track c.record).1 = true)
    (h : Disk.flush c.disk = .error (.refused e) disk) : Refuses i bytes (.flash e)

/-- A block that is stored is counted. -/
theorem Stores.counted? {r : Record} {lba : UInt32} {disk : Disk σ} (h : i.Stores bytes r lba)
    (hwrite : Disk.writeBlocks r.payload lba 1 i.disk = .ok () disk) :
    i.counted? bytes = some ⟨r, .ok (some lba), disk⟩ := by
  simp only [Intake.counted?, h.decoded, if_neg h.own, if_pos h.main, h.placed, hwrite]

/-- A block that is stored, in a transfer that is flushed if the record completes it. -/
theorem Stores.receive_eq_ok {r : Record} {lba : UInt32} {written flushed : Disk σ}
    (h : i.Stores bytes r lba)
    (hwrite : Disk.writeBlocks r.payload lba 1 i.disk = .ok () written)
    (hflush : Disk.flush written = .ok () flushed) :
    receive bytes i =
      .ok (if (i.transfer.track r).1 then .complete (some lba) else .written lba)
        ⟨(i.transfer.track r).2, if (i.transfer.track r).1 then flushed else written⟩ := by
  rw [receive_of_counted (h.counted? hwrite)]
  cases hdone : (i.transfer.track r).1 with
  | false => rw [conclude_of_not_done (i := { i with disk := written }) hdone]; rfl
  | true => rw [conclude_of_done (i := { i with disk := written }) hdone, hflush]; rfl

/-- A counted record was decoded; its disk is the one before it, or has the block written. -/
theorem of_counted? {c : Counted σ} (hc : i.counted? bytes = some c) :
    Record.decode bytes = .ok c.record ∧
      (∀ e, c.place = .error e → placement i.disk.store.layout c.record = .error (.refused e)) ∧
      (c.disk = i.disk ∨
        ∃ lba, Disk.writeBlocks c.record.payload lba 1 i.disk = .ok () c.disk) := by
  have hreception := reception bytes i
  rw [hc] at hreception
  generalize receive bytes i = outcome at hreception
  cases hreception with
  | skipped hdecode => exact ⟨hdecode, nofun, Or.inl rfl⟩
  | misplaced hdecode hplace =>
    refine ⟨hdecode, fun e he => ?_, Or.inl rfl⟩
    rw [hplace, Except.error.inj he]
  | written hstored hwrite => exact ⟨hstored.decoded, nofun, Or.inr ⟨_, hwrite⟩⟩

/-- What requests keep is kept on the way to the disk of a counted record. -/
theorem carried_of_counted? {I : σ → Prop} {bad : Fault FlashError → Prop} {c : Counted σ}
    (hcarrier : Carrier i.disk.store.patience I bad) (h : I i.disk.device)
    (hc : i.counted? bytes = some c) : i.disk.Carried I c.disk := by
  obtain ⟨-, -, hsame | ⟨lba, hwrite⟩⟩ := of_counted? hc
  · rw [hsame]
    exact ⟨.refl _, h⟩
  · have hmeets := Disk.writeBlocks_carried hcarrier h c.record.payload lba 1
    rw [hwrite] at hmeets
    exact hmeets.2

/-- Under the policy that writes at once nothing is pending after a record. -/
theorem clean_of_counted? {c : Counted σ} (hpolicy : i.disk.store.policy = .onSectorStart)
    (hstage : i.disk.store.stage = none) (hc : i.counted? bytes = some c) :
    c.disk.store.pending? = none := by
  have hcarried := carried_of_counted? (Carrier.trivial _) True.intro hc
  rw [Store.pending?, hcarried.continues.unstaged hpolicy hstage]
  rfl

/-- A record that is counted without completing its transfer is not answered as if it did. -/
theorem receive_of_not_done {c : Counted σ} (hc : i.counted? bytes = some c)
    (hnot : (i.transfer.track c.record).1 = false) (lba : Option UInt32) :
    receive bytes i ≠ .ok (.complete lba) i' := by
  intro hanswer
  rw [receive_of_counted hc, conclude_of_not_done (i := { i with disk := c.disk }) hnot] at hanswer
  cases hplace : c.place with
  | error e => simp [Counted.reply, hplace] at hanswer; cases hanswer
  | ok lba' => cases lba' <;> simp [Counted.reply, hplace] at hanswer <;> cases hanswer

/-- A record that is counted is refused for its place, or because its transfer could not be
flushed. -/
theorem refuses_of_counted {c : Counted σ} {e : Error} (hc : i.counted? bytes = some c)
    (h : receive bytes i = .error (.refused e) i') : i.Refuses bytes e := by
  obtain ⟨hdecode, hplace, -⟩ := of_counted? hc
  rw [receive_of_counted hc] at h
  -- A reply is an error for the place of the record only.
  have hreply (complete : Bool) {j : Intake σ}
      (h : Action.ofExcept (c.reply complete) j = .error (.refused e) i') :
      i.Refuses bytes e := by
    cases hcplace : c.place with
    | error e' =>
      rw [Counted.reply, hcplace] at h
      obtain rfl : e' = e := by cases h; rfl
      exact .misplaced hdecode (hplace e' hcplace)
    | ok lba => cases complete <;> simp [Counted.reply, hcplace] at h <;> cases h
  cases hdone : (i.transfer.track c.record).1 with
  | false =>
    rw [conclude_of_not_done (i := { i with disk := c.disk }) hdone] at h
    exact hreply false h
  | true =>
    rw [conclude_of_done (i := { i with disk := c.disk }) hdone] at h
    -- The record completes its transfer, so the flush decides.
    cases hflush : Disk.flush c.disk with
    | ok _ disk =>
      simp only [hflush] at h
      exact hreply true h
    | error fault disk =>
      cases fault with
      | trap cause => simp [hflush] at h
      | refused fe =>
        obtain rfl : Error.flash fe = e := by simp [hflush] at h; exact h.1
        exact .flush hc hdone hflush

/-- **Refused records.** -/
theorem refuses_of_receive {e : Error} (h : receive bytes i = .error (.refused e) i') :
    i.Refuses bytes e := by
  cases hc : i.counted? bytes with
  | some c => exact refuses_of_counted hc h
  | none =>
    have hreception := reception bytes i
    rw [hc, h] at hreception
    cases hreception with
    | malformed hdecode => exact .malformed hdecode
    | unwritten hstored hwrite => exact .write hc hstored hwrite

/-! ## The disk under a record -/

/-- A counted record flushes the disk if it completes its transfer, and leaves it alone otherwise.
-/
theorem conclude_disk (c : Counted σ) (i : Intake σ) :
    (state (conclude c i)).disk =
      if (i.transfer.track c.record).1 then state (Disk.flush i.disk) else i.disk := by
  have hreply (complete : Bool) (i : Intake σ) :
      (state (Action.ofExcept (c.reply complete) i)).disk = i.disk := by
    cases c.reply complete <;> rfl
  cases hdone : (i.transfer.track c.record).1 with
  | false =>
    rw [conclude_of_not_done hdone, hreply]
    rfl
  | true =>
    rw [conclude_of_done hdone, if_pos rfl]
    rcases Disk.flush i.disk with ⟨_, d⟩ | ⟨_ | _, d⟩
    · exact hreply true _
    · rfl
    · rfl

/-- **The disk under a record.** A record does nothing to it but write and flush. -/
theorem receive_keeps {P : Disk σ → Prop}
    (hwrite : ∀ source lba count d, P d → P (state (Disk.writeBlocks source lba count d)))
    (hflush : ∀ d, P d → P (state (Disk.flush d))) (bytes : List UInt8) (h : P i.disk) :
    P (state (receive bytes i)).disk := by
  cases hc : i.counted? bytes with
  | some c =>
    have hdisk : P c.disk := by
      obtain ⟨-, -, hsame | ⟨lba, hwritten⟩⟩ := of_counted? hc
      · rwa [hsame]
      · have := hwrite c.record.payload lba 1 i.disk h
        rwa [hwritten] at this
    rw [receive_of_counted hc, conclude_disk]
    split
    · exact hflush c.disk hdisk
    · exact hdisk
  | none =>
    have hreception := reception bytes i
    rw [hc] at hreception
    generalize receive bytes i = outcome at hreception
    -- Only a block that could not be written leaves another disk.
    cases hreception with
    | malformed | foreign | unplaced => exact h
    | @unwritten r lba e disk _ hwritten | @cutOff r lba e disk _ hwritten =>
      have hdisk := hwrite r.payload lba 1 i.disk h
      rw [hwritten] at hdisk
      exact hdisk

/-! ## The store under a run -/

/-- A request is served by the disk of the intake. -/
theorem serve_request_disk (request : Request) (i : Intake σ) :
    (state (serve (.request request) i)).disk = state (Disk.serve request i.disk) := by
  rw [serve, Action.bind_apply, onDisk_eq]
  rcases Disk.serve request i.disk with _ | ⟨_ | _, _⟩ <;> rfl

/-- **One call** goes on from the store that it finds. -/
theorem serve_continues (call : Call) (i : Intake σ) :
    i.disk.store.Continues (state (serve call i)).disk.store := by
  cases call with
  | request request =>
    have hserve := Disk.serve_carried (Carrier.trivial i.disk.store.patience) True.intro request
    rw [serve_request_disk]
    exact Meets.state (hserve.mono (fun _ _ h => h.2.2.continues) fun _ _ h => h.1)
  | record bytes =>
    rw [serve_record_state]
    apply receive_keeps (P := fun d => i.disk.store.Continues d.store)
    · intro source lba count d hd
      have hwrite := Disk.writeBlocks_carried (Carrier.trivial d.store.patience) True.intro source
        lba count
      exact Meets.state
        (hwrite.mono (fun _ _ h => hd.trans h.2.continues) fun _ _ h => hd.trans h.1)
    · intro d hd
      have hflush := Disk.flush_carried (Carrier.trivial d.store.patience) ⟨.refl _, True.intro⟩
      exact Meets.state
        (hflush.mono (fun _ _ h => hd.trans h.continues) fun _ _ h => hd.trans h.continues)
    · exact .refl _

/-- **The store under a run.** It goes on from the one that the run began with. -/
theorem runAll_continues (act : ω → σ → σ) (events : List (Event Call ω)) (i : Intake σ) :
    i.disk.store.Continues (state (runAll serve (world act) events i)).disk.store := by
  have hserve : ∀ call (j : Intake σ), i.disk.store.Continues j.disk.store →
      i.disk.store.Continues (state (serve call j)).disk.store :=
    fun call j h => h.trans (serve_continues call j)
  -- The world has no hand on the store.
  have hworld : ∀ w (j : Intake σ), i.disk.store.Continues j.disk.store →
      i.disk.store.Continues (world act w j).disk.store :=
    fun _ _ h => h
  exact state_runAll_of_keeps (I := fun j : Intake σ => i.disk.store.Continues j.disk.store)
    hserve hworld events (.refl _)

end Intake

end NorDisk.Uf2
