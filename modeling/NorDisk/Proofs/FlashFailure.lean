import NorDisk.Proofs.BusyWait
import NorDisk.Proofs.LastWrite
import NorDisk.Proofs.RecordOutcomes

/-!
# Transfers across a flash failure

A record that the flash refuses should not count, so that it can be sent again. Whether it does not
depends on the point of the failure. A block that could not be written was not counted, and sending
its record again does what sending it for the first time would have done. A flush that failed comes
after the record was counted and had completed its transfer. The transfer stays complete, although
its last blocks are still pending, and no record completes it a second time. Only a disk that stages
sectors has anything to flush.

* **`Intake.Kept`**, **`Intake.Lost`** — the two cases, with what sending the record again does.
* **`failed_record_kept_or_lost`** — there are no others, whatever the board did before.
* **`receive_on_held_part`** — a held part loses every record that completes a transfer into a stage
  that was empty.
-/

namespace NorDisk

open Outcome

namespace Uf2

/-- A transfer that is complete stays so under records with its block count, and none of them
completes it. -/
theorem Transfer.Tracks.track_of_complete {t : Transfer} {h : History} {r : Record}
    (ht : t.Tracks h) (hrun : r.numBlocks = t.total) (hcomplete : t.complete = true) :
    (t.track r).1 = false := by
  have hdone := (track_tracks ht r).2
  rw [ht.total_eq] at hrun
  rw [ht.complete_iff] at hcomplete
  exact Bool.eq_false_iff.mpr fun h => (hdone.mp h).2 ⟨hrun, hcomplete⟩

namespace Intake

variable {σ ω : Type} [Controller σ] [TickSource σ] {i i' : Intake σ} {bytes : List UInt8}
  {h : History}

/-- The failure left the transfer as it was. Sent again to a part that takes the block this time,
the record is answered as complete exactly if its number is the missing one. -/
structure Kept (h : History) (i i' : Intake σ) (bytes : List UInt8) (r : Record)
    (e : FlashError) : Prop where
  transfer_eq : i'.transfer = i.transfer
  failed : ∃ lba disk, i.Stores bytes r lba ∧
    Disk.writeBlocks r.payload lba 1 i.disk = .error (.refused e) disk
  again : ∀ (j : Intake σ) lba written flushed, j.transfer = i'.transfer → j.Stores bytes r lba →
    Disk.writeBlocks r.payload lba 1 j.disk = .ok () written →
    Disk.flush written = .ok () flushed →
    ((∃ j', receive bytes j = .ok (.complete (some lba)) j') ↔ h.Reaches r)

/-- The failure came after the record had completed its transfer. Sent again, to whatever part, it
is not answered as complete. -/
structure Lost (h : History) (i i' : Intake σ) (bytes : List UInt8) (r : Record)
    (e : FlashError) : Prop where
  reached : h.Reaches r
  transfer_eq : i'.transfer = (i.transfer.track r).2
  complete : i'.transfer.complete = true
  changed : i'.transfer ≠ i.transfer
  failed : ∃ c disk, i.counted? bytes = some c ∧ Disk.flush c.disk = .error (.refused e) disk
  again : ∀ j : Intake σ, j.transfer = i'.transfer →
    ∀ lba j', receive bytes j ≠ .ok (.complete lba) j'

/-- While a transfer is complete, a record with its block count does not complete it. -/
theorem receive_of_complete (ht : i.transfer.Tracks h) (hcomplete : i.transfer.complete = true)
    {r : Record} (hdecode : Record.decode bytes = .ok r) (hrun : r.numBlocks = i.transfer.total)
    (lba : Option UInt32) : receive bytes i ≠ .ok (.complete lba) i' := by
  intro hanswer
  cases hc : i.counted? bytes with
  | none => exact (receive_of_not_counted hc).2 lba i' hanswer
  | some c =>
    have hrecord := (of_counted? hc).1
    rw [hdecode] at hrecord
    obtain rfl := Except.ok.inj hrecord
    exact receive_of_not_done hc (ht.track_of_complete hrun hcomplete) lba hanswer

/-- A record whose block could not be written was not counted, so sending it again works. -/
theorem kept_of_unwritten (ht : i.transfer.Tracks h) {r : Record} {lba : UInt32} {e : FlashError}
    {disk : Disk σ} (hreceive : receive bytes i = .error (.refused (.flash e)) i')
    (huncounted : i.counted? bytes = none) (hstored : i.Stores bytes r lba)
    (hwrite : Disk.writeBlocks r.payload lba 1 i.disk = .error (.refused e) disk) :
    Kept h i i' bytes r e := by
  have hsame := (receive_of_not_counted huncounted).1
  rw [hreceive] at hsame
  refine ⟨hsame, ⟨lba, disk, hstored, hwrite⟩, ?_⟩
  intro j lba' written flushed htransfer hstored' hwritten hflushed
  -- The next attempt finds the transfer that this one left, which is the one before it.
  have htracks : j.transfer.Tracks h := by
    rw [htransfer, show i'.transfer = i.transfer from hsame]
    exact ht
  rw [← (Transfer.track_tracks htracks r).2, hstored'.receive_eq_ok hwritten hflushed]
  cases (j.transfer.track r).1 <;> simp

/-- A record whose transfer could not be flushed was counted and completed it, so sending it again
cannot. -/
theorem lost_of_unflushed (ht : i.transfer.Tracks h) {c : Counted σ} {e : FlashError}
    {disk : Disk σ}
    (hreceive : receive bytes i = .error (.refused (.flash e)) i')
    (hcounted : i.counted? bytes = some c) (hcompleted : (i.transfer.track c.record).1 = true)
    (hflush : Disk.flush c.disk = .error (.refused e) disk) : Lost h i i' bytes c.record e := by
  obtain ⟨htracks, hdone⟩ := Transfer.track_tracks ht c.record
  have htransfer : i'.transfer = (i.transfer.track c.record).2 := by
    rw [← conclude_transfer c { i with disk := c.disk }, ← receive_of_counted hcounted, hreceive]
    rfl
  have hreach := hdone.mp hcompleted
  rw [← htransfer] at htracks
  have hcomplete : i'.transfer.complete = true := htracks.complete_iff.mpr hreach.1
  refine ⟨hreach, htransfer, hcomplete, ?_, ⟨c, disk, hcounted, hflush⟩, ?_⟩
  · -- A transfer as before would be complete on both sides of the record.
    intro hsame
    rw [hsame] at htracks hcomplete
    apply hreach.2
    rw [← ht.total_eq, htracks.total_eq, History.announced_snoc, ← ht.complete_iff]
    exact ⟨rfl, hcomplete⟩
  · intro j hj lba j'
    rw [← hj] at htracks hcomplete
    apply receive_of_complete htracks hcomplete (of_counted? hcounted).1
    rw [htracks.total_eq, History.announced_snoc]

/-- **A record that the flash refused is kept or lost.** Take any run of calls and acts of the world
on a board that starts with no transfer, and bytes that the flash refuses after it. They are a
record. If its block could not be written, the transfer is as before, and the record can be sent
again. Otherwise the disk stages sectors and its flush failed; the transfer is complete then, and
the record cannot. -/
theorem failed_record_kept_or_lost (act : ω → σ → σ) (family : UInt32) (disk : Disk σ)
    (hstage : disk.store.policy = .onSectorStart → disk.store.stage = none)
    (events : List (Event Call ω)) {e : FlashError} :
    let start : Intake σ := ⟨{ family }, disk⟩
    let h := history act events start
    let i := Outcome.state (runAll serve (world act) events start)
    receive bytes i = .error (.refused (.flash e)) i' →
      ∃ r, Record.decode bytes = .ok r ∧
        (Kept h i i' bytes r e ∨ disk.store.policy = .staged ∧ Lost h i i' bytes r e) := by
  intro start h i hreceive
  have ht : i.transfer.Tracks h := by
    simpa using runAll_tracks act events (i := start) (Transfer.tracks_nil family)
  have hcontinues : disk.store.Continues i.disk.store := runAll_continues act events start
  generalize herror : Error.flash e = error at hreceive
  -- Bytes are refused in four ways, two of them by the flash.
  cases refuses_of_receive hreceive with
  | malformed hdecode =>
    subst herror
    exact absurd hdecode (Record.decode_ne_flash bytes e)
  | misplaced _ hplace =>
    subst herror
    exact absurd hplace (placement_ne_flash _ _ e)
  | write huncounted hstored hwrite =>
    obtain rfl := Error.flash.inj herror
    exact ⟨_, hstored.decoded, Or.inl (kept_of_unwritten ht hreceive huncounted hstored hwrite)⟩
  | @flush c _ _ hcounted hcompleted hflush =>
    obtain rfl := Error.flash.inj herror
    refine ⟨c.record, (of_counted? hcounted).1,
      Or.inr ⟨?_, lost_of_unflushed ht hreceive hcounted hcompleted hflush⟩⟩
    cases hpolicy : disk.store.policy with
    | staged => rfl
    -- A disk that writes at once has nothing to flush, so that cannot fail.
    | onSectorStart =>
      have hclean := clean_of_counted? (hcontinues.policy_eq.trans hpolicy)
        (hcontinues.unstaged hpolicy (hstage hpolicy)) hcounted
      rw [Disk.flush_of_clean hclean] at hflush
      exact nomatch hflush

/-- The first record of a transfer of two blocks is stored, the second one finds the part held. The
disk writes at once, so the record is kept. -/
theorem failed_record_kept_on_held_part :
    let layout := Board.orangeCrabR01.layout
    let start : Intake (Bench NorPart) := fresh { family := boardFamily } layout
      Board.orangeCrabR01.layout_valid .onSectorStart busyTimeout 1 ⟨0, 1⟩
      (Memory.blank layout.flashBytes.toNat)
    let record (target blockNo : UInt32) : Record :=
      { flags := familyPresent, target, payloadSize := 256, blockNo, numBlocks := 2
        family := boardFamily, data := List.replicate dataBytes 0x5A
        length_data := List.length_replicate }
    let events := [.call (.record (record 0x20080000 0).encode), .world true]
    let i := Outcome.state (runAll serve (world Bench.hold) events start)
    (start.disk.store.policy = .onSectorStart → start.disk.store.stage = none) ∧
    ∃ i', receive (record 0x20080100 1).encode i =
        .error (.refused (.flash (.stalled 0x80100))) i' ∧
      Kept (history Bench.hold events start) i i' (record 0x20080100 1).encode
        (record 0x20080100 1) (.stalled 0x80100) := by
  intro layout start record events i
  refine ⟨fun _ => rfl, ?_⟩
  obtain ⟨i', hreceive⟩ : ∃ i', receive (record 0x20080100 1).encode i =
      .error (.refused (.flash (.stalled 0x80100))) i' := by
    apply Meets.eq_error
    decide +kernel
  refine ⟨i', hreceive, ?_⟩
  obtain ⟨r, hdecode, hkept | ⟨hstaged, -⟩⟩ := failed_record_kept_or_lost Bench.hold boardFamily
    start.disk (fun _ => rfl) events hreceive
  · obtain rfl := Except.ok.inj ((Record.decode_encode _).symm.trans hdecode)
    exact hkept
  · exact absurd hstaged (by decide)

end Intake

end Uf2

/-! ## A held part -/

theorem NorPart.stalled_readMapped (addr : UInt32) (len : Nat) (p : NorPart) :
    (p.readMapped addr len).2.stalled = p.stalled := by
  simp only [readMapped]
  split <;> exact stalled_record _ p

namespace Disk

/-- The first block of a disk that stages sectors is stored in a sector read for it. -/
theorem writeBlocks_first {σ : Type} [Controller σ] [TickSource σ] {l : Layout} {d : Disk σ}
    (hl : d.store.layout = l) (hw : l.WindowFits) (hpolicy : d.store.policy = .staged)
    (hmode : d.store.mode = .mapped) (hstage : d.store.stage = none) {lba : UInt32}
    (hlba : lba.toNat < l.blocks) {block : List UInt8} (hlength : block.length = 256) :
    let base := sectorBase (l.offset lba)
    let window := Controller.readMapped (windowBase + base) sectorBytes.toNat d.device
    let copy := StagedSector.ofBytes base window.1 (Controller.length_readMapped _ _ _)
    let staged := copy.put (pageInSector (l.offset lba)) block
    writeBlocks block lba 1 d =
      .ok () ⟨{ d.store with stage := some staged }, window.2⟩ := by
  intro base window copy staged
  have hv : l.Valid := hl ▸ d.store.layout_valid
  have hbase := isSector_sectorBase hv hlba
  have hend : base.toNat + 4096 ≤ l.flashBytes.toNat := hbase.2.2
  obtain ⟨hadd, -⟩ := windowAddr_eq hw base (by omega)
  have hclean : d.store.pending? = none := by rw [Store.pending?, hstage]; rfl
  have hpieces : Bytes.pieces 256 (1 : UInt32).toNat block = [block] := by
    show [block.take 256] = [block]
    rw [List.take_of_length_le (Nat.le_of_eq hlength)]
  -- The sector is not staged and nothing is pending, so it is read from the window at once.
  have hload : loadSector base d =
      .ok () ⟨{ d.store with stage := some copy }, window.2⟩ := by
    rw [loadSector, ask_bind, hstage, Option.map_none, if_pos (Option.some_ne_none base).symm,
      Action.bind_apply, flush_of_clean hclean]
    show (ensureMapped >>= _) d = _
    rw [Action.bind_apply, ensureMapped, ask_bind, if_neg (not_not_intro hmode)]
    show (Action.ofChecked _ >>= _) d = _
    rw [hadd]
    rfl
  have haccepted : d.store.layout.refusal? lba 1 block.length = none := by
    rw [hl]
    exact Layout.refusal?_block hlba hlength
  rw [writeBlocks_of_accepted (by decide) haccepted, hpolicy, hpieces]
  show stageEach lba [block] d = _
  rw [stageEach, ask_bind, hl, Action.bind_apply, hload]
  rfl

/-- Switching to commands does not release a held part. -/
theorem ensureCommand_held {d : Disk (Bench NorPart)} (hheld : d.device.part.stalled = true) :
    ∃ d₁, ensureCommand d = .ok () d₁ ∧ d₁.store.patience = d.store.patience ∧
      d₁.device.clock = d.device.clock ∧ d₁.device.part.stalled = true := by
  rw [ensureCommand, ask_bind]
  split
  · exact ⟨_, rfl, rfl, rfl, (NorPart.stalled_record .enterCommand d.device.part).trans hheld⟩
  · exact ⟨d, rfl, rfl, rfl, hheld⟩

/-- A held part cannot write a sector back. -/
theorem flush_on_held_part {l : Layout} {d : Disk (Bench NorPart)} {sector : StagedSector}
    (hp : d.store.patience.Ample d.device.clock.step) (hheld : d.device.part.stalled = true)
    (hpending : d.store.pending? = some sector) (hfits : sector.Fits l) :
    ∃ d', flush d = .error (.refused (.stalled sector.base)) d' := by
  obtain ⟨d₁, hensure, hpatience, hclock, hheld₁⟩ := ensureCommand_held hheld
  rw [← hpatience, ← hclock] at hp
  have hbusy : ¬ d₁.device.Responsive d₁.store.patience.timeout := by
    intro hresponsive
    exact absurd hresponsive.1 (by simp [hheld₁])
  have hwait := Bench.waitIdle_eq hp sector.base
  rw [if_neg hbusy] at hwait
  -- The wait before the erase is given up, and nothing comes after it.
  have hexecute (rest : List Command) : ∃ b, Controller.executeAll d₁.store.patience
      (.erase sector.base :: rest) d₁.device = .error (.refused (.stalled sector.base)) b := by
    rw [Controller.executeAll, Action.bind_apply, Controller.execute, Action.bind_apply]
    exact ⟨_, by rw [show (Command.erase sector.base).offset = sector.base from rfl, hwait]⟩
  obtain ⟨b, hb⟩ := hexecute (StagedSector.programs sector.base 0 sector.pages)
  rw [flush, ask_bind, hpending]
  show ∃ d', (ensureCommand >>= _) d = _
  rw [Action.bind_apply, hensure]
  show ∃ d', (Action.ofChecked sector.commands >>= _) d₁ = _
  rw [StagedSector.commands_eq hfits, Action.ofChecked_bind, Action.bind_apply, executeAll,
    ask_bind, onDevice]
  exact ⟨⟨d₁.store, b⟩, by rw [StagedSector.writeBack, hb]⟩

end Disk

namespace Uf2.Intake

variable {l : Layout} {bytes : List UInt8}

/-- **A held part loses the record.** Whatever the memory holds, a board that stages sectors and was
not used yet stores the block of a record, completes its transfer and then fails to flush it. -/
theorem receive_on_held_part (transfer : Transfer) (hv : l.Valid) (hw : l.WindowFits)
    {timeout : UInt32} (busyPolls : Nat) {clock : StepClock} (memory : ByteArray)
    (hp : ({ timeout } : Patience).Ample clock.step) {r : Record} {lba : UInt32}
    (hstored : (world Bench.hold true
      (fresh transfer l hv .staged timeout busyPolls clock memory)).Stores bytes r lba)
    (hdone : (transfer.track r).1 = true) :
    ∃ i', receive bytes (world Bench.hold true
        (fresh transfer l hv .staged timeout busyPolls clock memory)) =
          .error (.refused (.flash (.stalled (sectorBase (l.offset lba))))) i' ∧
      i'.transfer = (transfer.track r).2 := by
  obtain ⟨hlba, hlength, -⟩ := of_placement hv hw hstored.placed
  let i := world Bench.hold true (fresh transfer l hv .staged timeout busyPolls clock memory)
  let base := sectorBase (l.offset lba)
  let window := Controller.readMapped (windowBase + base) sectorBytes.toNat i.disk.device
  let copy := StagedSector.ofBytes base window.1 (Controller.length_readMapped _ _ _)
  let sector := copy.put (pageInSector (l.offset lba)) r.payload
  let written : Disk (Bench NorPart) :=
    { store := { i.disk.store with stage := some sector }, device := window.2 }
  have hwrite : Disk.writeBlocks r.payload lba 1 i.disk = .ok () written :=
    Disk.writeBlocks_first rfl hw rfl rfl rfl hlba hlength
  have hfits : sector.Fits l := by
    obtain ⟨hmod, hlow, hhigh⟩ := Disk.isSector_sectorBase hv hlba
    exact StagedSector.Fits.put ⟨hmod, hlow, hhigh⟩ _ _
  have hheld : written.device.part.stalled = true := NorPart.stalled_readMapped _ _ _
  -- The stored block makes the sector pending, and its flush finds the part held.
  have hpending : written.store.pending? = some sector :=
    Option.filter_eq_some_iff.mpr ⟨rfl, StagedSector.dirty_put hlength _ copy⟩
  have hbase : sector.base = base := StagedSector.base_put _ _ copy
  obtain ⟨flushed, hflush⟩ := Disk.flush_on_held_part (d := written) hp hheld hpending hfits
  rw [receive_of_counted (hstored.counted? hwrite),
    conclude_of_done (i := { i with disk := written }) hdone, hflush, hbase]
  exact ⟨_, rfl, rfl⟩

/-- A record that is a transfer of its own comes while the part is held. It is refused, its transfer
is complete, and once the part is released the record does not complete it. -/
theorem held_part_completes_transfer :
    let layout := Board.orangeCrabR01.layout
    let start : Intake (Bench NorPart) := fresh { family := boardFamily } layout
      Board.orangeCrabR01.layout_valid .staged busyTimeout 1 ⟨0, 1⟩
      (Memory.blank layout.flashBytes.toNat)
    let record : Record :=
      { flags := familyPresent, target := 0x20080000, payloadSize := 256, blockNo := 0
        numBlocks := 1, family := boardFamily
        data := List.replicate 256 0x5A ++ List.replicate 220 0
        length_data := by
          rw [List.length_append, List.length_replicate, List.length_replicate, dataBytes] }
    let held := world Bench.hold true start
    held.transfer.complete = false ∧
      ∃ failed, receive record.encode held = .error (.refused (.flash (.stalled 0x80000))) failed ∧
        failed.transfer.complete = true ∧
        ∀ lba i',
          receive record.encode (world Bench.hold false failed) ≠ .ok (.complete lba) i' := by
  intro layout start record held
  have hplace : placement layout record = .ok 0 := by decide
  have hstored : held.Stores record.encode record 0 :=
    ⟨Record.decode_encode record, by decide, by decide, hplace⟩
  obtain ⟨failed, hreceive, htransfer⟩ := receive_on_held_part { family := boardFamily }
    Board.orangeCrabR01.layout_valid Board.orangeCrabR01.windowFits 1
    (Memory.blank layout.flashBytes.toNat) (.ofTimeout (by decide) (by decide)) hstored (by decide)
  have htracks := (Transfer.track_tracks (Transfer.tracks_nil boardFamily) record).1
  rw [← htransfer] at htracks
  have hcomplete : failed.transfer.complete = true := by rw [htransfer]; decide
  have htotal : record.numBlocks = failed.transfer.total := by rw [htransfer]; decide
  refine ⟨rfl, failed, hreceive, hcomplete, fun lba i' => ?_⟩
  exact receive_of_complete (i := world Bench.hold false failed) htracks hcomplete
    (Record.decode_encode record) htotal lba

end Uf2.Intake

end NorDisk
