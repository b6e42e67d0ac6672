import NorDisk.Indicator

/-!
# The pace of the indicator

A watch goes along with an indicator: it passes times that do not wrap, writes down the interval in
force at each toggle, and logs the calls that the pins get, whatever they answer. The sum of the
intervals is where the current blink starts. The indicator knows that time by the counter only. It
never lies after the last poll, so as long as the polls stay within one round of the counter from
it, the wrapped difference is the true one.

* **`Watch.Steady`** — what holds between two calls; **`Steady.serve`** — one call keeps it.
* **`Steady.poll_iff`** — a poll toggles exactly if the interval in force has passed.
* **`Keeps.polledOut`** — at one pace, polls at one time catch up with the clock.
* **`Watch.blinks_without_drift`** — all runs from a new indicator.
-/

namespace NorDisk.Indicator

variable {σ : Type}

/-! ### Watching an indicator -/

/-- Pins with a log of the calls they got: the colour and the level it was set to. -/
structure LoggedPins (σ : Type) where
  pins : σ
  log : List (Channel × Bool) := []

instance [RgbPins σ] : RgbPins (LoggedPins σ) where
  drive channel high p :=
    let (ok, pins) := RgbPins.drive channel high p.pins
    (ok, { pins, log := p.log ++ [(channel, high)] })

/-- The calls of one toggle. -/
def toggleLog (lit : Bool) : List (Channel × Bool) := [(.red, false), (.green, lit), (.blue, lit)]

/-- A change of the light calls all three pins, whatever they answer. -/
theorem display_log [RgbPins σ] (lit : Bool) (p : LoggedPins σ) :
    (display lit p).log = p.log ++ toggleLog lit := by
  simp [display, RgbPins.drive, toggleLog]

/-- No interval is zero. -/
theorem interval_pos (i : Indicator) : 0 < i.interval.toNat := by
  unfold interval
  split
  · decide
  · cases i.link <;> decide

/-- The calls that an indicator takes; the time of a poll does not wrap. -/
inductive Call where
  | setLink (link : Link)
  | setWriting (writing : Bool)
  | handle (event : LinkEvent)
  | poll (time : Nat)
deriving DecidableEq, Repr

/-- An indicator and its pins, with the intervals in force at its toggles and the time of the last
poll. -/
structure Watch (σ : Type) where
  indicator : Indicator := {}
  pins : LoggedPins σ
  intervals : List UInt32 := []
  last : Nat := 0

namespace Watch

variable {w : Watch σ} {time : Nat} {interval : UInt32}

/-- The start of the current blink. -/
def start (w : Watch σ) : Nat :=
  w.intervals.foldl (fun start interval => start + interval.toNat) 0

/-- Does a call come in time? A poll must not be before the last one, and within one round of the
counter from the start of the blink. -/
def Timely : Call → Watch σ → Prop
  | .poll time, w => w.last ≤ time ∧ time < w.start + UInt32.size
  | _, _ => True

instance : (call : Call) → (w : Watch σ) → Decidable (Timely call w)
  | .poll _, _ => inferInstanceAs (Decidable (_ ∧ _))
  | .setLink _, _ | .setWriting _, _ | .handle _, _ => inferInstanceAs (Decidable True)

/-- Between two calls: the indicator has the start of the blink by the counter, and that lies in the
round which ends with the last poll; the light is lit after an odd number of toggles; and the pins
got the calls of the toggles, lit and dark in turns, and no others. -/
structure Steady (w : Watch σ) : Prop where
  start_eq : w.indicator.start = .ofNat w.start
  start_le : w.start ≤ w.last
  last_lt : w.last < w.start + UInt32.size
  lit_eq : w.indicator.lit = decide (w.intervals.length % 2 = 1)
  log_eq : w.pins.log = (List.range w.intervals.length).flatMap fun k => toggleLog (k % 2 = 0)

/-- Before the first call. -/
theorem steady_new (pins : σ) : Steady { pins := { pins } } where
  start_eq := rfl
  start_le := Nat.le_refl 0
  last_lt := by simp [start]
  lit_eq := rfl
  log_eq := rfl

/-- Is an interval the one in force, now and at each toggle before? -/
structure Keeps (interval : UInt32) (w : Watch σ) : Prop where
  now : w.indicator.interval = interval
  before : ∀ i ∈ w.intervals, i = interval

/-- Equal intervals add up to a product. -/
theorem foldl_start {intervals : List UInt32} (h : ∀ i ∈ intervals, i = interval) (start : Nat) :
    intervals.foldl (fun start interval => start + interval.toNat) start =
      start + intervals.length * interval.toNat := by
  induction intervals generalizing start with
  | nil => simp
  | cons first rest ih =>
    obtain ⟨rfl, hrest⟩ := List.forall_mem_cons.mp h
    rw [List.foldl_cons, ih hrest, List.length_cons, Nat.succ_mul]
    omega

/-- At one pace the blink starts at a multiple of the interval. -/
theorem Keeps.start_eq (h : w.Keeps interval) :
    w.start = w.intervals.length * interval.toNat := by
  rw [start, foldl_start h.before, Nat.zero_add]

/-- At one pace no more toggles came than intervals fit. -/
theorem Keeps.length_le (h : w.Keeps interval) (hsteady : w.Steady)
    (htime : Timely (.poll time) w) : w.intervals.length ≤ time / interval.toNat := by
  rw [Nat.le_div_iff_mul_le (h.now ▸ interval_pos _), ← h.start_eq]
  exact Nat.le_trans hsteady.start_le htime.1

/-! ### One poll -/

variable [RgbPins σ]

/-- Poll the indicator; the first part of the answer tells whether it toggled. -/
def poll (time : Nat) (w : Watch σ) : Bool × Watch σ :=
  let (toggled, indicator, pins) := w.indicator.poll (.ofNat time) w.pins
  let intervals := if toggled then w.intervals ++ [w.indicator.interval] else w.intervals
  (toggled, { indicator, pins, intervals, last := time })

/-- The watch after a poll that toggles. -/
def toggled (time : Nat) (w : Watch σ) : Watch σ where
  indicator := { w.indicator with
    start := w.indicator.start + w.indicator.interval, lit := !w.indicator.lit }
  pins := display (!w.indicator.lit) w.pins
  intervals := w.intervals ++ [w.indicator.interval]
  last := time

/-- A poll toggles once the interval has passed by the counter. -/
theorem poll_eq (time : Nat) (w : Watch σ) :
    w.poll time =
      if elapsed w.indicator.start (.ofNat time) < w.indicator.interval then
        (false, { w with last := time })
      else (true, w.toggled time) := by
  rw [poll, Indicator.poll]
  by_cases hlt : elapsed w.indicator.start (.ofNat time) < w.indicator.interval
  · rw [if_pos hlt, if_pos hlt]
    rfl
  · rw [if_neg hlt, if_neg hlt]
    rfl

theorem poll_snd (time : Nat) (w : Watch σ) :
    (w.poll time).2 = if (w.poll time).1 then w.toggled time else { w with last := time } := by
  rw [poll_eq]
  split <;> rfl

/-- A toggle makes its three calls, another poll none. -/
theorem poll_log (time : Nat) (w : Watch σ) :
    (w.poll time).2.pins.log =
      w.pins.log ++ if (w.poll time).1 then toggleLog (w.poll time).2.indicator.lit else [] := by
  rw [poll_snd]
  split
  · exact display_log _ _
  · exact (List.append_nil _).symm

/-- A toggle moves the start of the blink on by one interval. -/
theorem start_toggled (time : Nat) (w : Watch σ) :
    (w.toggled time).start = w.start + w.indicator.interval.toNat := by
  simp [toggled, start]

theorem Keeps.toggled (h : w.Keeps interval) (time : Nat) : (w.toggled time).Keeps interval where
  now := h.now
  before := by simpa [Watch.toggled, or_imp, forall_and, h.now] using h.before

namespace Steady

/-- A toggle keeps what holds between two calls. -/
theorem toggled (h : w.Steady) (htime : time < w.start + UInt32.size)
    (hpassed : w.start + w.indicator.interval.toNat ≤ time) : (w.toggled time).Steady where
  start_eq := by
    rw [start_toggled, Watch.toggled, h.start_eq, UInt32.ofNat_add, UInt32.ofNat_toNat]
  start_le := by rwa [start_toggled]
  last_lt := by
    rw [start_toggled]
    exact Nat.lt_of_lt_of_le htime (by omega)
  lit_eq := by
    simp only [Watch.toggled, h.lit_eq, List.length_append, List.length_singleton, ← decide_not,
      decide_eq_decide]
    omega
  log_eq := by
    -- The light changes, and so does the parity of the toggles.
    have hlevel : (!w.indicator.lit) = decide (w.intervals.length % 2 = 0) := by
      rw [h.lit_eq, ← decide_not, decide_eq_decide]
      omega
    simp only [Watch.toggled, display_log, h.log_eq, hlevel, List.length_append,
      List.length_singleton, List.range_succ, List.flatMap_append, List.flatMap_singleton]

/-- A poll toggles exactly if the interval in force has passed since the start of the blink. -/
theorem poll_iff (h : w.Steady) (htime : Timely (.poll time) w) :
    (w.poll time).1 = true ↔ w.start + w.indicator.interval.toNat ≤ time := by
  have hle := Nat.le_trans h.start_le htime.1
  -- The poll is within one round from the start, so the wrapped difference is the true one.
  have helapsed : (elapsed w.indicator.start (.ofNat time)).toNat = time - w.start := by
    rw [h.start_eq, toNat_elapsed_ofNat hle htime.2]
  simp only [poll_eq, UInt32.lt_iff_toNat_lt, helapsed]
  split <;> simp <;> omega

/-- A poll in time keeps what holds between two calls. -/
theorem poll (h : w.Steady) (htime : Timely (.poll time) w) : (w.poll time).2.Steady := by
  rw [poll_snd]
  split
  · rename_i htoggle
    exact h.toggled htime.2 ((h.poll_iff htime).mp htoggle)
  · exact { h with start_le := Nat.le_trans h.start_le htime.1, last_lt := htime.2 }

end Steady

/-! ### Polls at one time -/

/-- Polls at one time until one does not toggle, and what they leave. -/
inductive PolledOut (time : Nat) : Watch σ → Watch σ → Prop
  | rest {w : Watch σ} : (w.poll time).1 = false → PolledOut time w (w.poll time).2
  | toggle {w w' : Watch σ} : (w.poll time).1 = true → PolledOut time (w.poll time).2 w' →
      PolledOut time w w'

/-- At one pace a poll toggles as long as more intervals fit than there were toggles. -/
theorem Keeps.poll_iff (h : w.Keeps interval) (hsteady : w.Steady)
    (htime : Timely (.poll time) w) :
    (w.poll time).1 = true ↔ w.intervals.length < time / interval.toNat := by
  rw [hsteady.poll_iff htime, h.start_eq, h.now, ← Nat.succ_mul,
    ← Nat.le_div_iff_mul_le (h.now ▸ interval_pos _)]
  rfl

/-- The polls catch up with the clock. Induction on the toggles that are to come. -/
theorem Keeps.polledOut (h : w.Keeps interval) (hsteady : w.Steady)
    (htime : Timely (.poll time) w) :
    ∃ w', PolledOut time w w' ∧ w'.intervals.length = time / interval.toNat := by
  induction hn : time / interval.toNat - w.intervals.length generalizing w with
  -- As many toggles as intervals fit, so the next poll does not toggle.
  | zero =>
    have hlength := h.length_le hsteady htime
    have hrest : (w.poll time).1 = false := by
      rw [← Bool.not_eq_true, h.poll_iff hsteady htime]
      omega
    refine ⟨_, .rest hrest, ?_⟩
    rw [poll_snd, hrest]
    show w.intervals.length = _
    omega
  | succ n ih =>
    have htoggle : (w.poll time).1 = true := by
      rw [h.poll_iff hsteady htime]
      omega
    have hnext : (w.poll time).2 = w.toggled time := by rw [poll_snd, if_pos htoggle]
    have hlength : (w.toggled time).intervals.length = w.intervals.length + 1 :=
      List.length_append
    -- The blink starts later now, so the same time is still within its round.
    have hagain : Timely (.poll time) (w.toggled time) :=
      ⟨Nat.le_refl time, by
        rw [start_toggled]
        exact Nat.lt_of_lt_of_le htime.2 (by omega)⟩
    obtain ⟨w', hout, hcount⟩ :=
      ih (h.toggled time) (hnext ▸ hsteady.poll htime) hagain (by omega)
    exact ⟨w', .toggle htoggle (hnext ▸ hout), hcount⟩

/-! ### A run -/

def serve : Call → Watch σ → Watch σ
  | .setLink link, w => { w with indicator := w.indicator.setLink link }
  | .setWriting writing, w => { w with indicator := w.indicator.setWriting writing }
  | .handle event, w => { w with indicator := w.indicator.handle event }
  | .poll time, w => (w.poll time).2

def run (calls : List Call) (w : Watch σ) : Watch σ := calls.foldl (fun w call => w.serve call) w

/-- Do all calls of a run come in time? -/
def Paced : List Call → Watch σ → Prop
  | [], _ => True
  | call :: rest, w => Timely call w ∧ Paced rest (w.serve call)

instance decidablePaced : (calls : List Call) → (w : Watch σ) → Decidable (Paced calls w)
  | [], _ => inferInstanceAs (Decidable True)
  | call :: rest, w =>
    have := decidablePaced rest (w.serve call)
    inferInstanceAs (Decidable (_ ∧ _))

/-- **One call** keeps what holds between two calls. -/
theorem Steady.serve {call : Call} (h : w.Steady) (hcall : Timely call w) :
    (w.serve call).Steady := by
  cases call with
  | poll time => exact h.poll hcall
  | _ => exact { h with }

/-- **A run** of calls in time keeps what holds between two calls. -/
theorem Steady.run {calls : List Call} (h : w.Steady) (hcalls : Paced calls w) :
    (w.run calls).Steady := by
  induction calls generalizing w with
  | nil => exact h
  | cons call rest ih => exact ih (h.serve hcalls.1) hcalls.2

/-- **The indicator blinks without drift.** Take a new indicator over any pins, whether they obey or
not, and any calls of which the polls come in time. Then the blink starts, on a clock that does not
wrap, at the sum of the intervals in force at the toggles, which is not after the last poll; the
light is lit after an odd number of toggles; and the pins got the calls of the toggles and no
others. A poll in time toggles exactly if the interval in force has passed since then; it makes the
three calls for the new level of the light if it toggles, and no call otherwise; and if one interval
was in force throughout, polls at that time end, after as many toggles in all as intervals fit. -/
theorem blinks_without_drift (pins : σ) (calls : List Call)
    (h : Paced calls { pins := { pins } }) :
    let w := run calls { pins := { pins } }
    w.Steady ∧ ∀ time, Timely (.poll time) w →
      ((w.poll time).1 = true ↔ w.start + w.indicator.interval.toNat ≤ time) ∧
      (w.poll time).2.pins.log =
        w.pins.log ++ (if (w.poll time).1 then toggleLog (w.poll time).2.indicator.lit else []) ∧
      ∀ interval, w.Keeps interval →
        ∃ w', PolledOut time w w' ∧ w'.intervals.length = time / interval.toNat := by
  intro w
  have hsteady : w.Steady := (steady_new pins).run h
  exact ⟨hsteady, fun time htime => ⟨hsteady.poll_iff htime, w.poll_log time,
    fun interval hkeeps => hkeeps.polledOut hsteady htime⟩⟩

/-- The red pin fails. In the first run the link and the transfer set the pace, and the last poll is
past the wrap of the counter; the second run is at one pace. -/
theorem blinks_without_drift_of_failing_pin :
    let pins : PinRecorder := { failing := [.red] }
    let mixed : List Call := [.poll 100, .handle .mount, .poll 1000, .setWriting true, .poll 1000,
      .poll 1150, .setWriting false, .handle (.suspend true), .poll 4294967295]
    let w := run mixed { pins := { pins } }
    let w' := run [.poll 300, .handle .unmount, .poll 420] { pins := { pins } }
    w.intervals = [1000, 100, 2500] ∧ w.indicator.start = 3600 ∧ w.indicator.lit = true ∧
      w.pins.log = toggleLog true ++ toggleLog false ++ toggleLog true ∧
      (w.poll (UInt32.size + 1000)).1 = true ∧
      w'.intervals = [250] ∧ ∃ w'', PolledOut 1100 w' w'' ∧ w''.intervals.length = 4 := by
  intro pins mixed w w'
  have hmixed := blinks_without_drift pins mixed (by decide +kernel)
  have hsingle := blinks_without_drift pins [.poll 300, .handle .unmount, .poll 420]
    (by decide +kernel)
  have hsteady : w.Steady := hmixed.1
  obtain ⟨htoggle, -⟩ := hmixed.2 (UInt32.size + 1000) (by decide +kernel)
  have hintervals : w'.intervals = [250] := by decide +kernel
  have hkeeps : w'.Keeps 250 := ⟨by decide +kernel, by simp [hintervals]⟩
  obtain ⟨-, -, hout⟩ := hsingle.2 1100 (by decide +kernel)
  exact ⟨by decide +kernel, hsteady.start_eq.trans (by decide +kernel),
    hsteady.lit_eq.trans (by decide +kernel), hsteady.log_eq.trans (by decide +kernel),
    htoggle.mpr (by decide +kernel), hintervals, hout 250 hkeeps⟩

end Watch

end NorDisk.Indicator
