import NorDisk.Proofs.DeviceRefinement
import NorDisk.Proofs.RecordOutcomes

/-!
# Completed transfers and the pending reset

The record that completes a transfer asks for a reset, and the last request counts. The device finds
out about a completion by comparing the flag of the transfer before and after the record. That
misses a completion that comes while the flag is still set: after a transfer that is complete, a
record that is a transfer of its own opens the next one and completes it at once. For such a
transfer no reset is asked for, and a reset that an earlier one asked for stays pending.

* **`Transfer.track_again`** — a record that completes a transfer over a complete one is number 0
  of 1.
* **`Device.completion?`** — the transfer that a call completes, whether its record is written,
  skipped or refused; **`Device.completions`** for the calls of a run.
* **`writeRecord_reset`** — one call; **`reset_follows_completions`** — a run.
-/

namespace NorDisk

open Outcome

namespace Uf2

namespace Transfer

variable {t : Transfer} {r : Record}

/-- Opening a transfer anew clears the flag, so a transfer that is complete then was left as it was.
-/
theorem complete_opened (h : (t.opened r).complete = true) :
    t.complete = true ∧ t.opened r = t := by
  unfold opened at h ⊢
  split
  · rename_i hrun
    simp [hrun, restart] at h
  · rename_i hrun
    rw [if_neg hrun] at h
    exact ⟨h, rfl⟩

/-- The comparison of the flag before and after a record shows its completion, unless the flag was
set before. -/
theorem not_complete_and_complete_track (t : Transfer) (r : Record) :
    (!t.complete && (t.track r).2.complete) = (!t.complete && (t.track r).1) := by
  rw [complete_track]
  cases hopened : (t.opened r).complete with
  | false => rw [Bool.or_false]
  | true => simp [(complete_opened hopened).1]

/-- A record that completes a transfer while the one before is complete has it for itself. -/
theorem track_again (hcomplete : t.complete = true) (hdone : (t.track r).1 = true) :
    r.numBlocks = 1 ∧ r.blockNo = 0 ∧ t.total ≠ 1 := by
  have hm : t.Marks r := by
    by_contra hm
    rw [track_of_not_marks hm] at hdone
    cases hdone
  obtain ⟨hnew, hbelow, hr⟩ := hm
  rw [track_of_marks ⟨hnew, hbelow, hr⟩, decide_eq_true_eq] at hdone
  -- The transfer was opened anew, so the record is the first one in it.
  have hrun : r.numBlocks ≠ t.total := by
    intro hrun
    rw [opened, if_neg (not_not_intro hrun), hcomplete] at hnew
    cases hnew
  have hopened : t.opened r = { t.restart with total := r.numBlocks } := if_pos hrun
  have hclear : (t.opened r).written.isSet ⟨r.blockNo.toNat, hr⟩ = false := by
    rw [hopened]
    exact Bitmap.isSet_empty _
  have hseen : ((t.opened r).mark ⟨r.blockNo.toNat, hr⟩).seen = 1 := by
    rw [seen_mark hclear, hopened]
    rfl
  rw [hseen, (mark_keeps _ _).2.1, hopened] at hdone
  have hblocks : r.numBlocks = 1 := hdone.symm
  rw [hopened, UInt32.lt_iff_toNat_lt] at hbelow
  have hfirst : r.blockNo.toNat < r.numBlocks.toNat := hbelow
  have hone : r.numBlocks.toNat = 1 := congrArg UInt32.toNat hblocks
  refine ⟨hblocks, UInt32.toNat_inj.mp ?_, fun htotal => hrun (hblocks.trans htotal.symm)⟩
  show r.blockNo.toNat = 0
  omega

end Transfer

namespace Intake

variable {σ : Type} [Controller σ] [TickSource σ] {i i' : Intake σ} {bytes : List UInt8}

/-- The record in some bytes, if it completes a transfer when they come. -/
def completes? (bytes : List UInt8) (i : Intake σ) : Option Record :=
  match i.counted? bytes with
  | some c => if (i.transfer.track c.record).1 then some c.record else none
  | none => none

/-- Bytes that complete a transfer are a record that was counted. -/
theorem of_completes? {r : Record} (h : i.completes? bytes = some r) :
    ∃ c, i.counted? bytes = some c ∧ (i.transfer.track c.record).1 = true ∧ c.record = r := by
  unfold completes? at h
  cases hc : i.counted? bytes with
  | none => simp [hc] at h
  | some c =>
    simp only [hc] at h
    split at h
    · rename_i hdone
      exact ⟨c, rfl, hdone, Option.some.inj h⟩
    · exact nomatch h

/-- Where the flag of the transfer was not set, it shows what the bytes completed. -/
theorem complete_receive (bytes : List UInt8) (i : Intake σ) :
    (!i.transfer.complete && (state (receive bytes i)).transfer.complete) =
      (!i.transfer.complete && (i.completes? bytes).isSome) := by
  unfold completes?
  -- Only a counted record moves the flag.
  cases hc : i.counted? bytes with
  | none =>
    rw [(receive_of_not_counted hc).1]
    simp
  | some c =>
    rw [receive_of_counted hc, conclude_transfer]
    simp only [Transfer.not_complete_and_complete_track]
    cases (i.transfer.track c.record).1 <;> rfl

/-- Bytes that complete a transfer are answered so or refused for their place, if nothing was staged
under the policy that writes at once. -/
theorem receive_of_completes {r : Record} (hpolicy : i.disk.store.policy = .onSectorStart)
    (hstage : i.disk.store.stage = none) (h : i.completes? bytes = some r) :
    (∃ lba i', receive bytes i = .ok (.complete lba) i') ∨
      ∃ e i', receive bytes i = .error (.refused e) i' := by
  obtain ⟨c, hc, hdone, -⟩ := of_completes? h
  rw [receive_of_counted hc, conclude_of_done (i := { i with disk := c.disk }) hdone,
    Disk.flush_of_clean (clean_of_counted? hpolicy hstage hc)]
  -- A misplaced record counts, but it is answered as such.
  cases hplace : c.place with
  | error e => exact Or.inr ⟨e, _, by simp only [Counted.reply, hplace]; rfl⟩
  | ok lba => exact Or.inl ⟨lba, _, by simp only [Counted.reply, hplace]; rfl⟩

/-- Bytes that complete no transfer are not answered as if they did. -/
theorem receive_of_not_completes (h : i.completes? bytes = none) (lba : Option UInt32) :
    receive bytes i ≠ .ok (.complete lba) i' := by
  unfold completes? at h
  cases hc : i.counted? bytes with
  | none => exact (receive_of_not_counted hc).2 lba i'
  | some c =>
    simp only [hc] at h
    have hnot : (i.transfer.track c.record).1 = false := by
      cases hdone : (i.transfer.track c.record).1 with
      | false => rfl
      | true => simp [hdone] at h
    exact receive_of_not_done hc hnot lba

end Intake

end Uf2

namespace Firmware.Device

/-- A transfer that a call completed. -/
structure Completion where
  record : Uf2.Record
  /-- The time at which the call returned. -/
  time : UInt32
  /-- Was the transfer before it still complete? -/
  again : Bool

/-- The pending reset after a completion. -/
def Completion.schedule (reset : Reset) (c : Completion) : Reset :=
  if c.again then reset else Reset.request c.time resetDelay layout.bootImage

/-- A device with flash state at hand that writes at once. -/
structure Ready (s : FlashState) (d : Device) : Prop where
  slot_eq : d.slot = some s
  policy_eq : s.store.policy = .onSectorStart
  stage_eq : s.store.stage = none

variable {s : FlashState} {d : Device} {bytes : List UInt8}

/-! ### One call -/

/-- The device after a record was taken, with the flash state that it left. -/
def finish (s : FlashState) (f : Flash) (d : Device) : Device :=
  let d := noteWriting (settle f { d with slot := none })
  if !s.transfer.complete && f.transfer.complete then d.requestReset else d

/-- The step of the device: the record, and whether the flag was set by it. -/
theorem receive_eq (bytes : List UInt8) (f : Flash) :
    receive bytes f =
      match Uf2.Intake.receive bytes f with
      | .ok status g => .ok (.ok status, !f.transfer.complete && g.transfer.complete) g
      | .error (.refused e) g => .ok (.error e, !f.transfer.complete && g.transfer.complete) g
      | .error (.trap cause) g => .error (.trap cause) g := by
  rw [receive, Uf2.Intake.ask_bind, Action.bind_apply, Action.attempt]
  rcases Uf2.Intake.receive bytes f with _ | ⟨_ | _, _⟩ <;> rfl

/-- A call takes its record with the flash state in the slot. -/
theorem writeRecord_eq (hslot : d.slot = some s) (bytes : List UInt8) :
    writeRecord (some bytes) d =
      match Uf2.Intake.receive bytes (assemble s d.machine) with
      | .ok status f => .ok (recordStatus (.ok status)) (finish s f d)
      | .error (.refused e) f => .ok (recordStatus (.error e)) (finish s f d)
      | .error (.trap cause) f => .error (.trap cause) (settle f { d with slot := none }) := by
  have hcomplete : (assemble s d.machine).transfer.complete = s.transfer.complete := rfl
  rw [writeRecord, Action.bind_apply, Action.attempt, withFlash, checkOut_of_some hslot]
  simp only [receive_eq, hcomplete]
  rcases Uf2.Intake.receive bytes (assemble s d.machine) with ⟨status, f⟩ | ⟨e | cause, f⟩
  · simp only [finish]
    cases !s.transfer.complete && f.transfer.complete <;> rfl
  · simp only [finish]
    cases !s.transfer.complete && f.transfer.complete <;> rfl
  · rfl

/-- A call returns, or the record traps; either way the flash state is put back. -/
theorem writeRecord_returns_or_traps (hslot : d.slot = some s) (bytes : List UInt8) :
    let f := state (Uf2.Intake.receive bytes (assemble s d.machine))
    (∃ status, writeRecord (some bytes) d = .ok status (finish s f d)) ∨
      ∃ cause, writeRecord (some bytes) d =
        .error (.trap cause) (settle f { d with slot := none }) := by
  rw [writeRecord_eq hslot]
  rcases Uf2.Intake.receive bytes (assemble s d.machine) with ⟨status, f⟩ | ⟨e | cause, f⟩
  · exact Or.inl ⟨_, rfl⟩
  · exact Or.inl ⟨_, rfl⟩
  · exact Or.inr ⟨cause, rfl⟩

/-- After a call the slot holds what the record left. -/
theorem slot_finish (s : FlashState) (f : Flash) (d : Device) :
    (finish s f d).slot =
      some ⟨f.disk.store, f.disk.device.busErrors, f.transfer⟩ := by
  unfold finish
  split <;> rfl

/-- A reset is asked for where the flag was set by the record. -/
theorem reset_finish (s : FlashState) (f : Flash) (d : Device) :
    (finish s f d).reset =
      if !s.transfer.complete && f.transfer.complete then
        Reset.request (finish s f d).now resetDelay layout.bootImage
      else d.reset := by
  unfold finish
  split <;> rfl

/-- The transfer that a call completes, whether its record is written, skipped or refused. -/
def completion? : Option (List UInt8) → Device → Option Completion
  | none, _ => none
  | some bytes, d =>
    match d.slot with
    | none => none
    | some s => ((assemble s d.machine).completes? bytes).map fun record =>
      { record, time := (state (writeRecord (some bytes) d)).now, again := s.transfer.complete }

/-- With the flash state in the slot, a call completes what its bytes do. -/
theorem completion?_eq (hslot : d.slot = some s) (bytes : List UInt8) :
    completion? (some bytes) d = ((assemble s d.machine).completes? bytes).map fun record =>
      ⟨record, (state (writeRecord (some bytes) d)).now, s.transfer.complete⟩ := by
  simp only [completion?, hslot]

/-- A call that completes a transfer returns. -/
theorem writeRecord_of_completion {record : Option (List UInt8)} {c : Completion} (h : d.Ready s)
    (hc : completion? record d = some c) : ∃ status d', writeRecord record d = .ok status d' := by
  cases record with
  | none => exact nomatch hc
  | some bytes =>
    rw [completion?_eq h.slot_eq] at hc
    obtain ⟨r, hr, -⟩ := Option.map_eq_some_iff.mp hc
    rw [writeRecord_eq h.slot_eq]
    obtain ⟨lba, f, hf⟩ | ⟨e, f, hf⟩ :=
      Uf2.Intake.receive_of_completes (i := assemble s d.machine) h.policy_eq h.stage_eq hr
    · rw [hf]
      exact ⟨_, _, rfl⟩
    · rw [hf]
      exact ⟨_, _, rfl⟩

/-- **One call.** It asks for a reset exactly if it completes a transfer after one that was not
complete. -/
theorem writeRecord_reset (h : d.Ready s) (record : Option (List UInt8)) :
    (state (writeRecord record d)).reset =
      (completion? record d).toList.foldl Completion.schedule d.reset := by
  cases record with
  | none => rfl
  | some bytes =>
    have hflag := Uf2.Intake.complete_receive bytes (assemble s d.machine)
    have hcompletion := completion?_eq h.slot_eq bytes
    obtain ⟨status, hreturned⟩ | ⟨cause, htrapped⟩ := writeRecord_returns_or_traps h.slot_eq bytes
    · rw [hreturned] at hcompletion ⊢
      rw [hcompletion]
      show (finish s _ d).reset = _
      rw [reset_finish]
      -- The flag of the transfer shows the completion, unless it was set before.
      change (!s.transfer.complete && _) = (!s.transfer.complete && _) at hflag
      rw [hflag]
      cases (assemble s d.machine).completes? bytes <;> cases s.transfer.complete <;>
        simp [Completion.schedule, state]
    · -- A call that traps completes nothing.
      cases hnone : completion? (some bytes) d with
      | some c =>
        obtain ⟨status, d', hreturned⟩ := writeRecord_of_completion h hnone
        exact nomatch hreturned.symm.trans htrapped
      | none =>
        rw [htrapped]
        rfl

/-- A call leaves flash state of the same kind. -/
theorem writeRecord_ready (h : d.Ready s) (record : Option (List UInt8)) :
    ∃ s', (state (writeRecord record d)).Ready s' := by
  cases record with
  | none => exact ⟨s, h⟩
  | some bytes =>
    have hcontinues := Uf2.Intake.serve_continues (.record bytes) (assemble s d.machine)
    rw [Uf2.Intake.serve_record_state] at hcontinues
    obtain ⟨status, hreturned⟩ | ⟨cause, htrapped⟩ := writeRecord_returns_or_traps h.slot_eq bytes
    · rw [hreturned]
      exact ⟨_, slot_finish s _ d, hcontinues.policy_eq.trans h.policy_eq,
        hcontinues.unstaged h.policy_eq h.stage_eq⟩
    · rw [htrapped]
      exact ⟨_, rfl, hcontinues.policy_eq.trans h.policy_eq,
        hcontinues.unstaged h.policy_eq h.stage_eq⟩

/-- What a completion after a complete transfer must be. -/
theorem of_completion_again {record : Option (List UInt8)} {c : Completion}
    (hc : completion? record d = some c) (hagain : c.again = true) :
    c.record.numBlocks = 1 ∧ c.record.blockNo = 0 := by
  cases record with
  | none => exact nomatch hc
  | some bytes =>
    cases hslot : d.slot with
    | none => simp [completion?, hslot] at hc
    | some s =>
      rw [completion?_eq hslot] at hc
      obtain ⟨r, hr, rfl⟩ := Option.map_eq_some_iff.mp hc
      obtain ⟨c, -, hdone, rfl⟩ := Uf2.Intake.of_completes? hr
      obtain ⟨hblocks, hnumber, -⟩ := Uf2.Transfer.track_again hagain hdone
      exact ⟨hblocks, hnumber⟩

/-! ### A run -/

/-- The transfers that the calls of a run complete. -/
def completions :
    List (NorDisk.Event (Option (List UInt8)) (Machine → Machine)) → Device → List Completion
  | [], _ => []
  | .call record :: rest, d =>
    (completion? record d).toList ++
      match writeRecord record d with
      | .ok _ d' => completions rest d'
      | .error _ _ => []
  | .world f :: rest, d => completions rest (d.onMachine f)

/-- **A run.** The pending reset follows the completions. Induction on the events; what is kept is
that the flash state is at hand and nothing is staged. -/
theorem runAll_reset (h : d.Ready s)
    (events : List (NorDisk.Event (Option (List UInt8)) (Machine → Machine))) :
    let d' := state (runAll writeRecord onMachine events d)
    d'.reset = (completions events d).foldl Completion.schedule d.reset ∧ ∃ s', d'.Ready s' := by
  induction events generalizing s d with
  | nil => exact ⟨rfl, s, h⟩
  | cons event rest ih =>
    cases event with
    -- The machine moves on by itself, the flash state stays.
    | world f => exact ih (d := d.onMachine f) ⟨h.slot_eq, h.policy_eq, h.stage_eq⟩
    | call record =>
      have hreset := writeRecord_reset h record
      obtain ⟨s₁, hready⟩ := writeRecord_ready h record
      simp only [state_runAll_call, completions, List.foldl_append, ← hreset]
      match hcall : writeRecord record d with
      | .ok status d₁ =>
        rw [hcall] at hready
        exact ih hready
      | .error (.refused e) d₁ => exact nomatch e
      | .error (.trap cause) d₁ =>
        rw [hcall] at hready
        exact ⟨rfl, s₁, hready⟩

theorem again_of_mem_completions
    {events : List (NorDisk.Event (Option (List UInt8)) (Machine → Machine))} {c : Completion}
    (hc : c ∈ completions events d) (hagain : c.again = true) :
    c.record.numBlocks = 1 ∧ c.record.blockNo = 0 := by
  induction events generalizing d with
  | nil => exact absurd hc List.not_mem_nil
  | cons event rest ih =>
    cases event with
    | world f => exact ih hc
    | call record =>
      rcases List.mem_append.mp hc with hhere | hlater
      · exact of_completion_again (Option.mem_toList.mp hhere) hagain
      · split at hlater
        · exact ih hlater
        · exact absurd hlater List.not_mem_nil

/-- Of some completions the last one that did not come over a complete transfer counts. -/
theorem foldl_schedule (reset : Reset) (all : List Completion) :
    all.foldl Completion.schedule reset =
      match (all.filter (!·.again)).getLast? with
      | some c => Reset.request c.time resetDelay layout.bootImage
      | none => reset := by
  induction all using List.reverseRecOn with
  | nil => rfl
  | append_singleton all c ih =>
    rw [List.foldl_append, List.foldl_cons, List.foldl_nil, ih, List.filter_append]
    cases hagain : c.again <;> simp [Completion.schedule, hagain]

theorem ready_initFlash (d : Device) :
    ∃ s, (state (initFlash d)).Ready s ∧ (state (initFlash d)).reset = d.reset := by
  rw [initFlash_eq]
  simp only [state, and_true]
  exact ⟨_, rfl, rfl, rfl⟩

/-- **The pending reset follows the completed transfers.** Take a device whose flash state was set
up, and any calls with records, between which anything may happen to the machine. The pending reset
is that of the last transfer which was completed while none was complete, at the time of its call
plus the delay; it is the one from before if there is no such transfer. The transfers that do not
count consist of one record each. For the next call the same holds: it asks for a reset exactly if
it completes a transfer and the one before is not still complete. -/
theorem reset_follows_completions (d : Device)
    (events : List (NorDisk.Event (Option (List UInt8)) (Machine → Machine))) :
    let d₁ := state (initFlash d)
    let all := completions events d₁
    let d₂ := state (runAll writeRecord onMachine events d₁)
    d₂.reset =
        (match (all.filter (!·.again)).getLast? with
        | some c => Reset.request c.time resetDelay layout.bootImage
        | none => d.reset) ∧
      (∀ c ∈ all, c.again = true → c.record.numBlocks = 1 ∧ c.record.blockNo = 0) ∧
      ∃ s, d₂.slot = some s ∧ ∀ bytes,
        let i := assemble s d₂.machine
        let d₃ := state (writeRecord (some bytes) d₂)
        (i.completes? bytes = none →
          d₃.reset = d₂.reset ∧ ∀ lba i', Uf2.Intake.receive bytes i ≠ .ok (.complete lba) i') ∧
        (∀ r, i.completes? bytes = some r →
          d₃.reset = (if i.transfer.complete then d₂.reset
            else Reset.request d₃.now resetDelay layout.bootImage) ∧
          ((∃ lba i', Uf2.Intake.receive bytes i = .ok (.complete lba) i') ∨
            ∃ e i', Uf2.Intake.receive bytes i = .error (.refused e) i')) := by
  intro d₁ all d₂
  obtain ⟨s₁, hinit, hbefore⟩ : ∃ s, d₁.Ready s ∧ d₁.reset = d.reset := ready_initFlash d
  obtain ⟨hreset, s, hready⟩ := runAll_reset hinit events
  refine ⟨?_, fun c hc => again_of_mem_completions hc, s, hready.slot_eq, ?_⟩
  · rw [hreset, foldl_schedule, hbefore]
  · intro bytes i d₃
    have hcall := writeRecord_reset hready (some bytes)
    rw [completion?_eq hready.slot_eq] at hcall
    constructor
    · intro hnone
      rw [hnone] at hcall
      exact ⟨hcall, fun lba i' => Uf2.Intake.receive_of_not_completes hnone lba⟩
    · intro r hr
      rw [hr] at hcall
      exact ⟨hcall, Uf2.Intake.receive_of_completes (i := i) hready.policy_eq hready.stage_eq hr⟩

/-- A transfer of two records at tick 0, and one of a single record 500 ticks later. The second one
completes too, but the device is reset at the time that the first one asked for. -/
theorem second_transfer_keeps_first_deadline :
    let record (target blockNo numBlocks : UInt32) : Uf2.Record :=
      { flags := 0x2001, target, payloadSize := 256, blockNo, numBlocks, family := boardFamily
        data := List.replicate 256 0x5A ++ List.replicate 220 0
        length_data := by
          rw [List.length_append, List.length_replicate, List.length_replicate, Uf2.dataBytes] }
    let d₁ := state (initFlash (.ofMachine { chip := { memory := Memory.blank 0x100000 } }))
    let events : List (NorDisk.Event (Option (List UInt8)) (Machine → Machine)) :=
      [.call (some (record 0x20080000 0 2).encode), .call (some (record 0x20080100 1 2).encode),
        .world (Machine.wait 500), .call (some (record 0x20080000 0 1).encode),
        .world (Machine.wait 600)]
    let d₂ := state (runAll writeRecord onMachine events d₁)
    (completions events d₁).map (·.time) = [0, 500] ∧ d₂.now = 1100 ∧
      d₂.reset.deadline = some 1000 ∧ d₂.resetDue? = some 0xAC := by
  decide +kernel

end Firmware.Device

end NorDisk
