import NorDisk.Proofs.AnsweredRequests
import NorDisk.Proofs.CommandTraces

/-!
# Waits with a bound

A wait on a part next to a stepping clock has an exact bound, wherever the clock stands. The part is
seen idle after as many busy polls as it has left if their steps fit the timeout. Else the wait is
given up on the poll after the last one whose step does.

* **`Traced.waitIdle_eq`** — a wait with its polls.
* **`Disk.writeBlocks_of_held`** — on a part with the busy flag held a write at once is given up
  before its first command.
* **`bounded_wait_exact`** — the wait, and what follows from it for writes and flushes. A staged
  write depends on the window as well, which has to fit the address space.
* **`staged_write_traps_on_checked_layout`** — the check of a layout does not see to that.
-/

namespace NorDisk

open Outcome Signal

namespace Traced

/-! ## The polls of a wait -/

section Inner

variable {κ : Type} [Controller κ] [TickSource κ]

/-- Tracing does not change what polls do to the device. -/
theorem inner_polled (n : Nat) (s : Traced κ) :
    (Controller.polled n s).inner = Controller.polled n s.inner := by
  induction n generalizing s with
  | zero => rfl
  | succ n ih => exact ih _

/-- Tracing does not change the answer of a poll. -/
theorem busyAt_inner (n : Nat) (s : Traced κ) :
    Controller.busyAt n s = Controller.busyAt n s.inner := by
  rw [Controller.busyAt, Controller.busyAt, ← inner_polled]
  rfl

/-- Tracing does not change the reading of the clock. -/
theorem readingAt_inner (n : Nat) (s : Traced κ) :
    Controller.readingAt n s = Controller.readingAt n s.inner := by
  rw [Controller.readingAt, Controller.readingAt, ← inner_polled]
  rfl

/-- The device after polls that answered busy. -/
theorem polled_eq {n : Nat} {s : Traced κ} (h : ∀ i < n, Controller.busyAt i s = true) :
    Controller.polled n s = ⟨Controller.polled n s.inner, s.trace ++ busyFor n⟩ := by
  rw [← trace_polled h, ← inner_polled]

/-- The device after an idle answer that came first. -/
theorem isBusy_polled_eq {n : Nat} {s : Traced κ} (h : ∀ i < n, Controller.busyAt i s = true)
    (hidle : Controller.busyAt n s = false) :
    (Controller.isBusy (Controller.polled n s)).2 =
      ⟨(Controller.isBusy (Controller.polled n s.inner)).2, s.trace ++ idleAfter n⟩ := by
  rw [← trace_idle h hidle, ← inner_polled]
  rfl

end Inner

/-- **A wait with its polls.** -/
theorem waitIdle_eq {patience : Patience} {s : Traced (Bench NorPart)}
    (h : patience.Ample s.inner.clock.step) (offset : UInt32) :
    let limit := patience.timeout.toNat / s.inner.clock.step.toNat
    Controller.waitIdle patience offset s =
      if s.inner.Responsive patience.timeout then
        .ok () ⟨s.inner.tick.polled s.inner.part.busyLeft,
          s.trace ++ idleAfter s.inner.part.busyLeft⟩
      else .error (.refused (.stalled offset))
        ⟨s.inner.tick.polled (limit + 1), s.trace ++ busyFor (limit + 1)⟩ := by
  intro limit
  let started : Traced (Bench NorPart) := ⟨s.inner.tick, s.trace⟩
  have hnow : TickSource.now s = (s.inner.clock.now, started) := by
    show ((TickSource.now s.inner).1, Traced.mk (TickSource.now s.inner).2 s.trace) = _
    rw [Bench.now_eq]
    rfl
  have hanswer (n : Nat) : Controller.busyAt n started = Controller.busyAt n s.inner.tick :=
    busyAt_inner n started
  -- The traced part answers as the bench does, so that its polls end where those of the bench end.
  have hpoll := Bench.pollIdle_of_alike h offset hanswer fun n => readingAt_inner n started
  rw [Controller.waitIdle, Action.ofStep_bind, hnow]
  refine hpoll.trans ?_
  split
  · rename_i hresponsive
    obtain ⟨hbusy, hidle⟩ := hresponsive.busyAt
    rw [isBusy_polled_eq (fun i hi => (hanswer i).trans (hbusy i hi)) ((hanswer _).trans hidle),
      Bench.isBusy_of_idle hidle]
  · rename_i hslow
    have hbusy := Bench.busyAt_of_not_responsive h hslow
    rw [polled_eq fun i hi => (hanswer i).trans (hbusy i hi), Bench.controllerPolled_eq]

/-! ## A part with the busy flag held -/

/-- Commands are given up before the first one is issued. -/
theorem executeAll_of_held {patience : Patience} {s : Traced (Bench NorPart)}
    (h : patience.Ample s.inner.clock.step) (hheld : s.inner.part.stalled = true)
    (command : Command) (later : List Command) :
    ∃ s', Controller.executeAll patience (command :: later) s =
      .error (.refused (.stalled command.offset)) s' := by
  -- A part that is held is never seen idle.
  have hslow : ¬ s.inner.Responsive patience.timeout := by
    rintro ⟨hfree, -⟩
    exact absurd (hfree.symm.trans hheld) (by decide)
  rw [Controller.executeAll, Action.bind_apply, Controller.execute, Action.bind_apply,
    waitIdle_eq h, if_neg hslow]
  exact ⟨_, rfl⟩

end Traced

/-- The first command for some blocks is at the offset of the first block. -/
theorem Layout.writes_cons_eq {l : Layout} (hv : l.Valid) {lba : UInt32}
    (hlba : lba.toNat < l.blocks)
    (block : List UInt8) (rest : List (List UInt8)) :
    ∃ command later, l.writes lba (block :: rest) = command :: later ∧
      command.offset = l.offset lba := by
  rw [writes, blockWrite_eq hv hlba, blockCommands, ofNat_blockOffset hv hlba]
  split <;> exact ⟨_, _, rfl, rfl⟩

namespace Disk

variable {d : Disk (Traced (Bench NorPart))} {lba count : UInt32} {source : List UInt8}

/-- On a part that is held, writing some blocks at once is given up on the first of them. -/
theorem writeEach_of_held (hp : d.store.patience.Ample d.device.inner.clock.step)
    (hheld : d.device.inner.part.stalled = true) (hlba : lba.toNat < d.store.layout.blocks)
    (block : List UInt8) (rest : List (List UInt8)) :
    ∃ d', writeEach lba (block :: rest) d =
      .error (.refused (.stalled (d.store.layout.offset lba))) d' := by
  have hheld' : (Controller.enterCommand d.device).inner.part.stalled = true :=
    (NorPart.stalled_record _ _).trans hheld
  obtain ⟨command, later, hwrites, hoffset⟩ :=
    Layout.writes_cons_eq d.store.layout_valid hlba block rest
  obtain ⟨s', hstall⟩ := Traced.executeAll_of_held (s := Controller.enterCommand d.device) hp hheld'
    command later
  rw [writeEach_eq, hwrites, onDevice, ← hoffset]
  simp only [hstall]
  exact ⟨_, rfl⟩

/-- On a part with the busy flag held a write at once is given up before its first command. -/
theorem writeBlocks_of_held (hp : d.store.patience.Ample d.device.inner.clock.step)
    (hheld : d.device.inner.part.stalled = true) (hpolicy : d.store.policy = .onSectorStart)
    (hcount : count ≠ 0) (haccepted : d.store.layout.refusal? lba count source.length = none) :
    ∃ d', writeBlocks source lba count d =
      .error (.refused (.stalled (d.store.layout.offset lba))) d' := by
  obtain ⟨hpos, hrange, -⟩ := Layout.of_refusal?_eq_none hcount haccepted
  obtain ⟨n, hn⟩ := Nat.exists_eq_add_of_lt hpos
  rw [writeBlocks_of_accepted hcount haccepted, hpolicy, hn, Nat.zero_add, Bytes.pieces]
  exact writeEach_of_held hp hheld (by omega) _ _

/-- What waits with a bound make of a disk next to a stepping clock. -/
structure BoundedWaits (timeout : UInt32) (d : Disk (Traced (Bench NorPart))) : Prop where
  /-- A wait ends: with the part idle, after the busy polls that it has left, or given up after the
  last poll whose step fits the timeout and one more. -/
  wait : ∀ offset,
    let limit := timeout.toNat / d.device.inner.clock.step.toNat
    Controller.waitIdle { timeout } offset d.device =
      if d.device.inner.Responsive timeout then
        .ok () ⟨d.device.inner.tick.polled d.device.inner.part.busyLeft,
          d.device.trace ++ idleAfter d.device.inner.part.busyLeft⟩
      else .error (.refused (.stalled offset))
        ⟨d.device.inner.tick.polled (limit + 1), d.device.trace ++ busyFor (limit + 1)⟩
  flush : d.device.inner.setting.Brisk timeout →
    d.device.inner.part.busyLeft ≤ d.device.inner.part.busyPolls → d.StageFits →
    ∃ d', Disk.flush d = .ok () d'
  write : d.device.inner.setting.Brisk timeout →
    d.device.inner.part.busyLeft ≤ d.device.inner.part.busyPolls →
    ∀ {source lba count}, lba.toNat + count.toNat ≤ d.store.layout.blocks →
    256 * count.toNat ≤ source.length →
    (d.store.policy = .staged → d.store.layout.WindowFits ∧ d.StageFits) →
    ∃ d', writeBlocks source lba count d = .ok () d'
  held : d.device.inner.part.stalled = true → d.store.policy = .onSectorStart →
    ∀ {source lba count}, count ≠ 0 → lba.toNat + count.toNat ≤ d.store.layout.blocks →
    256 * count.toNat ≤ source.length →
    ∃ d', writeBlocks source lba count d =
      .error (.refused (.stalled (d.store.layout.offset lba))) d'

end Disk

/-- **Waits are bounded exactly.** Next to a clock that moves by a step, and with a timeout that
leaves room for one more step on the circle, wherever the clock stands. -/
theorem bounded_wait_exact {d : Disk (Traced (Bench NorPart))} {timeout : UInt32}
    (hpatience : d.store.patience = { timeout }) (hstep : 1 ≤ d.device.inner.clock.step.toNat)
    (hsum : timeout.toNat + d.device.inner.clock.step.toNat < 0x100000000) :
    d.BoundedWaits timeout := by
  have hp : d.store.patience.Ample d.device.inner.clock.step := by
    rw [hpatience]
    exact .ofTimeout hstep hsum
  have htimeout : d.store.patience.timeout = timeout := by rw [hpatience]
  -- Where no command outlasts the timeout, none is given up.
  have hanswers (h : d.device.inner.setting.Brisk timeout)
      (hleft : d.device.inner.part.busyLeft ≤ d.device.inner.part.busyPolls) :
      NeverStalls d.store.patience d.device := by
    have hhealthy : d.device.inner.Healthy d.store.patience d.device.inner.part.busyPolls :=
      .of_brisk hp (htimeout ▸ h) hleft
    exact NeverStalls.traced ⟨_, Bench.healthy_carrier _ _, hhealthy⟩
  refine ⟨fun offset => ?_, fun hbrisk hleft hfits => ?_, ?_, ?_⟩
  · have hwait := Traced.waitIdle_eq hp offset
    rw [hpatience] at hwait
    exact hwait
  · obtain ⟨I, hc, hI⟩ := hanswers hbrisk hleft
    obtain ⟨d', hflush, -⟩ := Disk.flush_answered hc hI hfits
    exact ⟨d', hflush⟩
  · intro hbrisk hleft source lba count hrange hsource hstaged
    obtain ⟨I, hc, hI⟩ := hanswers hbrisk hleft
    obtain ⟨d', hwrite, -⟩ := Disk.writeBlocks_answered hc hI
      (Layout.refusal?_eq_none hrange hsource) hstaged
    exact ⟨d', hwrite⟩
  · intro hheld hpolicy source lba count hcount hrange hsource
    exact Disk.writeBlocks_of_held hp hheld hpolicy hcount (Layout.refusal?_eq_none hrange hsource)

/-- A part with two polls for each command, then one with the busy flag held, while the clock wraps
in steps that do not divide the timeout. -/
theorem bounded_wait_exact_across_wrap :
    let disk (policy : ErasePolicy) (stalled : Bool) : Disk (Traced (Bench NorPart)) :=
      .fresh Board.orangeCrabR01.layout Board.orangeCrabR01.layout_valid policy { timeout := 8 }
        { inner := ⟨{ NorPart.blank 0x100000 with busyPolls := 2, busyLeft := 1, stalled },
          ⟨0xFFFFFFFE, 3⟩⟩ }
    let free := disk .staged false
    let held := disk .onSectorStart true
    let source : List UInt8 := List.replicate 768 0x5A
    (free.device.inner.setting.Brisk 8 ∧
      free.device.inner.part.busyLeft ≤ free.device.inner.part.busyPolls ∧ free.StageFits) ∧
      free.BoundedWaits 8 ∧ (∃ d', Disk.flush free = .ok () d') ∧
      (∃ d', Disk.writeBlocks source 15 3 free = .ok () d') ∧
      held.BoundedWaits 8 ∧
      ∃ d', Disk.writeBlocks source 15 3 held = .error (.refused (.stalled 0x80F00)) d' := by
  intro disk free held source
  have hfree : free.BoundedWaits 8 := bounded_wait_exact rfl (by decide) (by decide)
  have hheld : held.BoundedWaits 8 := bounded_wait_exact rfl (by decide) (by decide)
  have hbrisk : free.device.inner.setting.Brisk 8 := ⟨rfl, by decide⟩
  have hleft : free.device.inner.part.busyLeft ≤ free.device.inner.part.busyPolls := by decide
  have hfits : free.StageFits := Disk.fresh_stageFits _ _ _ _
  have hwindow : free.store.layout.WindowFits := by decide
  have hsource : 256 * (3 : UInt32).toNat ≤ source.length := by
    rw [List.length_replicate]
    decide
  have hoffset : held.store.layout.offset 15 = 0x80F00 := by decide
  refine ⟨⟨hbrisk, hleft, hfits⟩, hfree, hfree.flush hbrisk hleft hfits,
    hfree.write hbrisk hleft (by decide) hsource fun _ => ⟨hwindow, hfits⟩, hheld, ?_⟩
  rw [← hoffset]
  exact hheld.held rfl rfl (by decide) (by decide) hsource

/-- A part of 3840 MiB with its region in the last 256 MiB passes the check, and the first staged
write traps, although no command of the part can outlast the timeout. -/
theorem staged_write_traps_on_checked_layout :
    let l : Layout :=
      { name := "", flashBytes := 0xF0000000, regionBase := 0xE0000000, clockHz := 12000000
        family := boardFamily, bootImage := 0 }
    ∃ hvalid : l.validate = .ok (),
      let d : Disk (Traced (Bench NorPart)) :=
        .fresh l ((Layout.validate_eq_ok_iff l).mp hvalid) .staged { timeout := 8 }
          { inner := ⟨.blank 256, ⟨0, 1⟩⟩ }
      d.device.inner.setting.Brisk 8 ∧
        d.device.inner.part.busyLeft ≤ d.device.inner.part.busyPolls ∧
        (0 : UInt32).toNat + (1 : UInt32).toNat ≤ d.store.layout.blocks ∧
        Meets (fun _ _ => False) (fun fault _ => fault = .trap .overflow)
          (Disk.writeBlocks (List.replicate 256 0x5A) 0 1 d) := by
  intro l
  refine ⟨(Layout.validate_eq_ok_iff l).mpr (by decide), ⟨rfl, by decide⟩, by decide, by decide, ?_⟩
  decide +kernel

end NorDisk
