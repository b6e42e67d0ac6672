/-!
# Millisecond clocks

A clock is a 32-bit count of milliseconds that wraps. Two readings are compared by their wrapped
difference: `elapsed` is the time from one to the other, `isPast` asks whether the difference is in
the first half of the circle. `StepClock` is the clock of replays: it moves a fixed step whenever
it is read, so that bounded waits end although no time passes.
-/

namespace NorDisk

/-- Milliseconds from `start` to `now`, across a wrap of the counter. -/
def elapsed (start now : UInt32) : UInt32 := now - start

/-- Is `now` strictly later than `deadline`, by less than half the circle? -/
def isPast (now deadline : UInt32) : Bool :=
  0 < now - deadline && now - deadline < 0x80000000

/-! Of times that do not wrap, the clock shows what is left by the counter. As long as two of them
lie close enough, the wrapped difference compares them as they are. -/

theorem toNat_elapsed_ofNat {start now : Nat} (hle : start ≤ now)
    (hlt : now < start + UInt32.size) :
    (elapsed (.ofNat start) (.ofNat now)).toNat = now - start := by
  unfold UInt32.size at hlt
  simp only [elapsed, UInt32.toNat_sub, UInt32.toNat_ofNat']
  omega

theorem isPast_ofNat {now deadline : Nat} (hlow : deadline ≤ now + 0x80000000)
    (hhigh : now < deadline + 0x80000000) :
    isPast (.ofNat now) (.ofNat deadline) = decide (deadline < now) := by
  rw [isPast, ← Bool.decide_and, decide_eq_decide]
  simp only [UInt32.lt_iff_toNat_lt, UInt32.toNat_sub, UInt32.toNat_ofNat']
  have hhalf : (0x80000000 : UInt32).toNat = 0x80000000 := rfl
  have hzero : (0 : UInt32).toNat = 0 := rfl
  omega

/-- A state that tells the time; reading the clock may move it. -/
class TickSource (σ : Type) where
  now : σ → UInt32 × σ

/-- A counter that an interrupt moves. -/
structure TickCounter where
  now : UInt32 := 0
deriving DecidableEq, Repr

def TickCounter.advance (n : Nat) (t : TickCounter) : TickCounter := ⟨t.now + n.toUInt32⟩

/-- A clock that moves by a fixed step whenever it is read. -/
structure StepClock where
  now : UInt32 := 0
  step : UInt32 := 0
deriving DecidableEq, Repr

namespace StepClock

/-- Read the clock; the next reading is one step later. -/
def read (c : StepClock) : UInt32 × StepClock := (c.now, { c with now := c.now + c.step })

instance : TickSource StepClock := ⟨read⟩

end StepClock

end NorDisk
