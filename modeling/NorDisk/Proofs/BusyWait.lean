import NorDisk.NorPart
import NorDisk.Proofs.Outcome

/-!
# Busy waits

A wait polls the busy flag and reads the clock after every busy answer. It ends with the first idle
answer, or with the first busy one that comes too late (`Controller.pollIdle_exact`).

Next to a clock that moves by a fixed step, a wait on a simulated part has a closed form. The part
is polled until it is idle or until `timeout / step + 1` polls have answered busy, whichever comes
first; every busy answer costs one reading of the clock, and the wait as a whole costs one more.

* **`Patience.Ample`** — the clock moves, the timeout does not reach around the circle, and the
  allowance of polls outlasts the timeout. No wait is then cut off without an answer.
* **`Bench.Responsive`** — the part will be seen idle before the timeout.
* **`Bench.busyInTime_iff`** — the polls that are busy and in time.
* **`Bench.waitIdle_eq`** — the outcome of a wait, with the state that it leaves.
-/

namespace NorDisk

open Outcome

/-! ## Polls -/

namespace Controller

variable {σ : Type} [Controller σ] [TickSource σ]

/-- The device after `n` polls, each followed by a reading of the clock. -/
def polled : Nat → σ → σ
  | 0, s => s
  | n + 1, s => polled n (TickSource.now (isBusy s).2).2

/-- The answer of the poll after `n` polls. -/
def busyAt (n : Nat) (s : σ) : Bool := (isBusy (polled n s)).1

/-- The reading of the clock after that poll. -/
def readingAt (n : Nat) (s : σ) : UInt32 := (TickSource.now (isBusy (polled n s)).2).1

/-- The first `n` polls answer busy, and none of them too late. -/
def BusyInTime (timeout start : UInt32) (n : Nat) (s : σ) : Prop :=
  ∀ i < n, busyAt i s = true ∧ elapsed start (readingAt i s) ≤ timeout

/-- The first of some polls is busy and in time, and so are those after it. -/
theorem busyInTime_succ {timeout start : UInt32} {n : Nat} {s : σ} :
    BusyInTime timeout start (n + 1) s ↔
      (busyAt 0 s = true ∧ elapsed start (readingAt 0 s) ≤ timeout) ∧
        BusyInTime timeout start n (TickSource.now (isBusy s).2).2 :=
  Nat.forall_lt_succ_left

/-- What busy answers and readings of the clock keep is kept by polls that answer busy. -/
theorem polled_keeps {I : σ → Prop} (hnow : ∀ s, I s → I (TickSource.now s).2)
    (hbusy : ∀ s, I s → (isBusy s).1 = true → I (isBusy s).2) {n : Nat} {s : σ} (hs : I s)
    (h : ∀ i < n, busyAt i s = true) : I (polled n s) := by
  induction n generalizing s with
  | zero => exact hs
  | succ n ih =>
    -- The first poll answers busy, so it and the reading after it keep the property.
    rw [Nat.forall_lt_succ_left] at h
    exact ih (hnow _ (hbusy s hs h.1)) h.2

/-- **Polling.** It ends with the first idle answer, with the first busy answer that is too late, or
with the allowance of polls. -/
theorem pollIdle_exact (timeout offset start : UInt32) (polls : Nat) (s : σ) :
    Meets
      (fun _ s' => ∃ n, BusyInTime timeout start n s ∧ busyAt n s = false ∧
        s' = (isBusy (polled n s)).2)
      (fun fault s' =>
        fault = .trap .stuck ∧ BusyInTime timeout start polls s ∧ s' = polled polls s ∨
        fault = .refused (.stalled offset) ∧ ∃ n, BusyInTime timeout start n s ∧
          busyAt n s = true ∧ timeout < elapsed start (readingAt n s) ∧ s' = polled (n + 1) s)
      (pollIdle timeout offset start polls s) := by
  induction polls generalizing s with
  -- No poll is allowed any more.
  | zero => exact Or.inl ⟨rfl, nofun, rfl⟩
  | succ polls ih =>
    rw [pollIdle, Action.ofStep_bind]
    cases hanswer : (isBusy s).1 with
    | false => exact ⟨0, nofun, hanswer, rfl⟩
    | true =>
      rw [if_pos rfl, Action.ofStep_bind, Action.ite_apply]
      -- Busy: either this answer is too late, or polling goes on.
      split
      · rename_i hlate
        exact Or.inr ⟨rfl, 0, nofun, hanswer, hlate, rfl⟩
      · rename_i hlate
        have hfirst : busyAt 0 s = true ∧ elapsed start (readingAt 0 s) ≤ timeout :=
          ⟨hanswer, UInt32.not_lt.mp hlate⟩
        -- What the rest of the polls come to, counted from the first one.
        apply (ih _).mono
        · intro _ s' h
          obtain ⟨n, hbusy, hidle⟩ := h
          exact ⟨n + 1, busyInTime_succ.mpr ⟨hfirst, hbusy⟩, hidle⟩
        · intro fault s' h
          rcases h with ⟨hstuck, hbusy, hend⟩ | ⟨hstall, n, hbusy, hend⟩
          · exact Or.inl ⟨hstuck, busyInTime_succ.mpr ⟨hfirst, hbusy⟩, hend⟩
          · exact Or.inr ⟨hstall, n + 1, busyInTime_succ.mpr ⟨hfirst, hbusy⟩, hend⟩

end Controller

/-! ## A part next to a clock that moves by a step -/

namespace Patience

/-- Waits end: with an answer of the part, or with the timeout. -/
structure Ample (patience : Patience) (step : UInt32) : Prop where
  step_pos : 0 < step.toNat
  timeout_add_step : patience.timeout.toNat + step.toNat < 0x100000000
  timeout_div_step : patience.timeout.toNat / step.toNat < patience.polls

/-- The default allowance of polls outlasts every timeout. -/
theorem Ample.ofTimeout {timeout step : UInt32} (hstep : 1 ≤ step.toNat)
    (hsum : timeout.toNat + step.toNat < 0x100000000) : Ample { timeout } step := by
  refine ⟨hstep, hsum, ?_⟩
  have := Nat.div_le_self timeout.toNat step.toNat
  show timeout.toNat / step.toNat < 0x100000000
  omega

end Patience

/-- The clock after `n` readings. -/
def StepClock.ahead (n : Nat) (c : StepClock) : StepClock :=
  { c with now := c.now + UInt32.ofNat (n * c.step.toNat) }

/-- Reading the clock moves it by one step. -/
theorem StepClock.read_eq (c : StepClock) : c.read = (c.now, c.ahead 1) := by
  simp [StepClock.read, StepClock.ahead]

theorem StepClock.ahead_zero (c : StepClock) : c.ahead 0 = c := by
  simp [StepClock.ahead]

/-- Readings add up. -/
theorem StepClock.ahead_ahead (m n : Nat) (c : StepClock) :
    (c.ahead m).ahead n = c.ahead (m + n) := by
  simp only [StepClock.ahead, Nat.add_mul, UInt32.ofNat_add, UInt32.add_assoc]

/-- The time between two readings is the number of steps between them, while that fits a word. -/
theorem StepClock.elapsed_ahead {n : Nat} {c : StepClock} (h : n * c.step.toNat < 0x100000000) :
    (elapsed c.now (c.ahead n).now).toNat = n * c.step.toNat := by
  have hsub : elapsed c.now (c.ahead n).now = UInt32.ofNat (n * c.step.toNat) := by
    simp only [elapsed, StepClock.ahead]
    rw [UInt32.add_comm, UInt32.add_sub_cancel]
  rw [hsub]
  exact UInt32.toNat_ofNat_of_lt' h

/-- A busy part that is not held counts its polls down. -/
theorem NorPart.isBusy_eq (p : NorPart) :
    p.isBusy = (p.stalled || decide (0 < p.busyLeft),
      { p with busyLeft := if p.stalled then p.busyLeft else p.busyLeft - 1 }) := by
  obtain ⟨memory, mode, busyPolls, busyLeft, stalled, log, dropped, misuse, erases, programs⟩ := p
  cases stalled <;> cases busyLeft <;> rfl

namespace Bench

variable {b : Bench NorPart} {patience : Patience}

/-- A poll asks the part and leaves the clock. -/
theorem isBusy_eq (b : Bench NorPart) :
    Controller.isBusy b = (b.part.isBusy.1, { b with part := b.part.isBusy.2 }) := rfl

/-- A reading of the clock leaves the part. -/
theorem now_eq (b : Bench NorPart) :
    TickSource.now b = (b.clock.now, { b with clock := b.clock.ahead 1 }) := by
  show (b.clock.read.1, { b with clock := b.clock.read.2 }) = _
  rw [StepClock.read_eq]

/-- The bench after `n` polls that answered busy, each followed by a reading of the clock. -/
def polled (n : Nat) (b : Bench NorPart) : Bench NorPart where
  part := { b.part with
    busyLeft := if b.part.stalled then b.part.busyLeft else b.part.busyLeft - n }
  clock := b.clock.ahead n

/-- The bench after the clock was read once. -/
def tick (b : Bench NorPart) : Bench NorPart := { b with clock := b.clock.ahead 1 }

/-- Polls count down the time that a part is busy, unless it is held. -/
theorem busyLeft_polled (n : Nat) (b : Bench NorPart) :
    (b.tick.polled n).part.busyLeft =
      if b.part.stalled then b.part.busyLeft else b.part.busyLeft - n := rfl

theorem busyLeft_polled_self (hstalled : b.part.stalled = false) :
    (b.tick.polled b.part.busyLeft).part.busyLeft = 0 := by
  rw [busyLeft_polled, hstalled, if_neg Bool.false_ne_true, Nat.sub_self]

theorem polled_zero (b : Bench NorPart) : b.polled 0 = b := by
  obtain ⟨part, clock⟩ := b
  simp [polled, StepClock.ahead_zero]

/-- Polls add up. -/
theorem polled_polled (m n : Nat) (b : Bench NorPart) :
    (b.polled m).polled n = b.polled (m + n) := by
  simp only [polled, StepClock.ahead_ahead]
  split <;> simp [Nat.sub_sub]

/-- The part will be seen idle before the timeout. -/
def Responsive (timeout : UInt32) (b : Bench NorPart) : Prop :=
  b.part.stalled = false ∧ b.part.busyLeft * b.clock.step.toNat ≤ timeout.toNat

instance (timeout : UInt32) (b : Bench NorPart) : Decidable (b.Responsive timeout) :=
  inferInstanceAs (Decidable (_ ∧ _))

/-- The state after some polls, in closed form. -/
theorem controllerPolled_eq (n : Nat) (b : Bench NorPart) :
    Controller.polled n b = b.polled n := by
  induction n generalizing b with
  | zero => rw [polled_zero, Controller.polled]
  | succ n ih =>
    -- One poll and one reading are one step of the closed form.
    have hfirst : (TickSource.now (Controller.isBusy b).2).2 = b.polled 1 := by
      rw [isBusy_eq, NorPart.isBusy_eq, now_eq]
      rfl
    rw [Controller.polled, hfirst, ih, polled_polled, Nat.add_comm 1]

/-- A poll answers busy while the part is held or its time is not over. -/
theorem busyAt_iff (n : Nat) (b : Bench NorPart) :
    Controller.busyAt n b = true ↔ b.part.stalled = true ∨ n < b.part.busyLeft := by
  rw [Controller.busyAt, controllerPolled_eq, isBusy_eq, NorPart.isBusy_eq]
  cases hstalled : b.part.stalled with
  | true => simp [polled, hstalled]
  | false => simp only [polled, hstalled, Bool.false_or, Bool.false_eq_true, if_false, false_or,
      decide_eq_true_eq, Nat.sub_pos_iff_lt]

theorem busyAt_eq_false_iff (n : Nat) (b : Bench NorPart) :
    Controller.busyAt n b = false ↔ b.part.stalled = false ∧ b.part.busyLeft ≤ n := by
  rw [← Bool.not_eq_true, busyAt_iff, not_or, Nat.not_lt, Bool.not_eq_true]

/-- A poll that answers idle changes nothing. -/
theorem isBusy_of_idle {n : Nat} (h : Controller.busyAt n b = false) :
    (Controller.isBusy (Controller.polled n b)).2 = b.polled n := by
  obtain ⟨hstalled, hleft⟩ := (busyAt_eq_false_iff n b).mp h
  rw [controllerPolled_eq, isBusy_eq, NorPart.isBusy_eq]
  simp [polled, hstalled, hleft]

/-- A busy answer comes in time exactly if the steps up to it fit the timeout. -/
theorem readingAt_le_iff (h : patience.Ample b.clock.step) {n : Nat}
    (hn : n * b.clock.step.toNat ≤ patience.timeout.toNat) :
    elapsed b.clock.now (Controller.readingAt n b.tick) ≤ patience.timeout ↔
      (n + 1) * b.clock.step.toNat ≤ patience.timeout.toNat := by
  -- One more step cannot leave the circle: the steps so far fit the timeout.
  have hfits : (n + 1) * b.clock.step.toNat < 0x100000000 := by
    have := h.timeout_add_step
    rw [Nat.succ_mul]
    omega
  have hreading : Controller.readingAt n b.tick = (b.clock.ahead (n + 1)).now := by
    rw [Nat.add_comm, ← StepClock.ahead_ahead, Controller.readingAt, controllerPolled_eq]
    rfl
  rw [hreading, UInt32.le_iff_toNat_le, StepClock.elapsed_ahead hfits]

/-- The first polls of a wait that are busy and in time. -/
theorem busyInTime_iff (h : patience.Ample b.clock.step) (n : Nat) :
    Controller.BusyInTime patience.timeout b.clock.now n b.tick ↔
      (b.part.stalled = true ∨ n ≤ b.part.busyLeft) ∧
        n * b.clock.step.toNat ≤ patience.timeout.toNat := by
  induction n with
  | zero => simp [Controller.BusyInTime]
  | succ n ih =>
    have hstep : n * b.clock.step.toNat ≤ (n + 1) * b.clock.step.toNat :=
      Nat.mul_le_mul_right _ (Nat.le_succ n)
    have hbusy : Controller.busyAt n b.tick = true ↔
        b.part.stalled = true ∨ n < b.part.busyLeft := busyAt_iff n b.tick
    -- The last of the polls decides: the ones before it are in time if it is.
    rw [Controller.BusyInTime, Nat.forall_lt_succ_right]
    constructor
    · rintro ⟨hfirst, hlast, hlate⟩
      obtain ⟨-, htime⟩ := ih.mp hfirst
      exact ⟨hbusy.mp hlast, (readingAt_le_iff h htime).mp hlate⟩
    · rintro ⟨hlast, htime⟩
      have hfirst : b.part.stalled = true ∨ n ≤ b.part.busyLeft := hlast.imp_right Nat.le_of_lt
      exact ⟨ih.mpr ⟨hfirst, by omega⟩, hbusy.mpr hlast, (readingAt_le_iff h (by omega)).mpr htime⟩

/-- A wait that ends with an idle answer ends with the first one. -/
theorem exit_of_idle (h : patience.Ample b.clock.step) {n : Nat}
    (hbusy : Controller.BusyInTime patience.timeout b.clock.now n b.tick)
    (hidle : Controller.busyAt n b.tick = false) :
    b.part.busyLeft = n ∧ b.Responsive patience.timeout := by
  obtain ⟨hfirst, htime⟩ := (busyInTime_iff h n).mp hbusy
  obtain ⟨hstalled, hleft⟩ := (busyAt_eq_false_iff n b.tick).mp hidle
  -- All polls before were busy, so this is the first one that is not.
  have hn : b.part.busyLeft = n := by
    rcases hfirst with hheld | hle
    · exact absurd (hstalled.symm.trans hheld) (by decide)
    · exact Nat.le_antisymm hleft hle
  exact ⟨hn, hstalled, hn ▸ htime⟩

/-- A wait that is given up is given up after the last step that fits the timeout. -/
theorem exit_of_late (h : patience.Ample b.clock.step) {n : Nat}
    (hbusy : Controller.BusyInTime patience.timeout b.clock.now n b.tick)
    (hlast : Controller.busyAt n b.tick = true)
    (hlate : patience.timeout < elapsed b.clock.now (Controller.readingAt n b.tick)) :
    n = patience.timeout.toNat / b.clock.step.toNat ∧ ¬ b.Responsive patience.timeout := by
  obtain ⟨-, htime⟩ := (busyInTime_iff h n).mp hbusy
  -- The step after the last busy answer does not fit the timeout any more.
  have hover : ¬ (n + 1) * b.clock.step.toNat ≤ patience.timeout.toNat :=
    mt (readingAt_le_iff h htime).mpr (UInt32.not_le.mpr hlate)
  refine ⟨?_, ?_⟩
  · have hle : n ≤ patience.timeout.toNat / b.clock.step.toNat :=
      (Nat.le_div_iff_mul_le h.step_pos).mpr htime
    have hlt : ¬ n + 1 ≤ patience.timeout.toNat / b.clock.step.toNat :=
      mt (Nat.le_div_iff_mul_le h.step_pos).mp hover
    omega
  · rintro ⟨hstalled, hleft⟩
    rcases (busyAt_iff n b.tick).mp hlast with hheld | hn
    · exact absurd (hstalled.symm.trans hheld) (by decide)
    · exact hover (Nat.le_trans (Nat.mul_le_mul_right _ hn) hleft)

/-- The allowance of polls outlasts the timeout. -/
theorem not_busyInTime_polls (h : patience.Ample b.clock.step) :
    ¬ Controller.BusyInTime patience.timeout b.clock.now patience.polls b.tick := by
  intro hbusy
  have hpolls := (Nat.le_div_iff_mul_le h.step_pos).mpr ((busyInTime_iff h _).mp hbusy).2
  have := h.timeout_div_step
  omega

/-- Polling a device that answers as the part does, next to the same clock. -/
theorem pollIdle_of_alike {σ : Type} [Controller σ] [TickSource σ] {s : σ}
    (h : patience.Ample b.clock.step) (offset : UInt32)
    (hanswer : ∀ n, Controller.busyAt n s = Controller.busyAt n b.tick)
    (hreading : ∀ n, Controller.readingAt n s = Controller.readingAt n b.tick) :
    Controller.pollIdle patience.timeout offset b.clock.now patience.polls s =
      if b.Responsive patience.timeout then
        .ok () (Controller.isBusy (Controller.polled b.part.busyLeft s)).2
      else .error (.refused (.stalled offset))
        (Controller.polled (patience.timeout.toNat / b.clock.step.toNat + 1) s) := by
  have hintime (n : Nat) : Controller.BusyInTime patience.timeout b.clock.now n s →
      Controller.BusyInTime patience.timeout b.clock.now n b.tick := by
    simp only [Controller.BusyInTime, hanswer, hreading, imp_self]
  have hexit := Controller.pollIdle_exact patience.timeout offset b.clock.now patience.polls s
  -- The three ways in which polling ends, by the two closed forms above.
  match Controller.pollIdle patience.timeout offset b.clock.now patience.polls s, hexit with
  | .ok _ s', ⟨n, hbusy, hidle, hs⟩ =>
    rw [hanswer] at hidle
    obtain ⟨hn, hresponsive⟩ := exit_of_idle h (hintime n hbusy) hidle
    rw [if_pos hresponsive, hn, hs]
  | .error fault s', .inl ⟨_, hbusy, _⟩ =>
    exact absurd (hintime _ hbusy) (not_busyInTime_polls h)
  | .error fault s', .inr ⟨hstall, n, hbusy, hlast, hlate, hs⟩ =>
    rw [hanswer] at hlast
    rw [hreading] at hlate
    obtain ⟨hn, hslow⟩ := exit_of_late h (hintime n hbusy) hlast hlate
    rw [if_neg hslow, ← hn, hs, hstall]

/-- The polls of a part that is seen idle before the timeout. -/
theorem Responsive.busyAt (h : b.Responsive patience.timeout) :
    (∀ i < b.part.busyLeft, Controller.busyAt i b.tick = true) ∧
      Controller.busyAt b.part.busyLeft b.tick = false :=
  ⟨fun i hi => (busyAt_iff i b.tick).mpr (.inr hi),
    (busyAt_eq_false_iff _ b.tick).mpr ⟨h.1, Nat.le_refl _⟩⟩

/-- Any other part answers busy up to the poll on which the wait is given up. -/
theorem busyAt_of_not_responsive (h : patience.Ample b.clock.step)
    (hslow : ¬ b.Responsive patience.timeout) :
    ∀ i < patience.timeout.toNat / b.clock.step.toNat + 1, Controller.busyAt i b.tick = true := by
  intro i hi
  apply (busyAt_iff i b.tick).mpr
  cases hstalled : b.part.stalled with
  | true => exact .inl hstalled
  | false =>
    have hleft : ¬ b.part.busyLeft ≤ patience.timeout.toNat / b.clock.step.toNat := fun hle =>
      hslow ⟨hstalled, (Nat.le_div_iff_mul_le h.step_pos).mp hle⟩
    exact .inr (Nat.lt_of_lt_of_le hi (Nat.lt_of_not_le hleft))

/-- **A wait in closed form.** -/
theorem waitIdle_eq (h : patience.Ample b.clock.step) (offset : UInt32) :
    Controller.waitIdle patience offset b =
      if b.Responsive patience.timeout then .ok () (b.tick.polled b.part.busyLeft)
      else .error (.refused (.stalled offset))
        (b.tick.polled (patience.timeout.toNat / b.clock.step.toNat + 1)) := by
  rw [Controller.waitIdle, Action.ofStep_bind, now_eq]
  refine (pollIdle_of_alike h offset (fun _ => rfl) fun _ => rfl).trans ?_
  split
  · rename_i hresponsive
    rw [isBusy_of_idle hresponsive.busyAt.2]
  · rw [controllerPolled_eq]

end Bench

end NorDisk
