import NorDisk.NorPart
import NorDisk.Proofs.Outcome

/-!
# Requests and runs

A client of a disk makes requests one after the other. Between two of them the world may act on the
device: a simulated part may get its busy flag held or released. `runAll` takes a list of such
events through; a refused request is an answer like any other and does not end the run, a trap does.
-/

namespace NorDisk

/-- A request to a disk. -/
inductive Request where
  /-- Copy blocks over the front of a buffer. -/
  | read (buffer : List UInt8) (lba count : UInt32)
  /-- Write blocks from the front of a source. -/
  | write (source : List UInt8) (lba count : UInt32)
  /-- Bring pending writes to the part. -/
  | flush
deriving DecidableEq, Repr

/-- What a disk answers to a request that it does not refuse. -/
inductive Answer where
  | done
  /-- The buffer after a read. -/
  | data (buffer : List UInt8)
deriving DecidableEq, Repr

/-- Something that happens: a call of the client, or an act of the world on the device. -/
inductive Event (ρ ω : Type) where
  | call (request : ρ)
  | world (act : ω)
deriving DecidableEq, Repr

variable {σ ε ε' ρ ω α : Type}

/-- Take events in order; the replies are the outcomes of the calls. -/
def runAll (serve : ρ → Action ε σ α) (act : ω → σ → σ) :
    List (Event ρ ω) → Action ε σ (List (Except ε α))
  | [] => pure []
  | .call request :: rest => do
    let reply ← (serve request).attempt
    return reply :: (← runAll serve act rest)
  | .world w :: rest => do
    .ofUpdate (act w)
    runAll serve act rest

/-- A refusal is an answer, so only a trap cuts a run off. -/
theorem runAll_no_refusal (serve : ρ → Action ε σ α) (act : ω → σ → σ)
    (events : List (Event ρ ω)) (s s' : σ) (error : ε) :
    runAll serve act events s ≠ .error (.refused error) s' := by
  induction events generalizing s with
  | nil => exact nofun
  | cons event rest ih =>
    cases event with
    | call request =>
      rw [runAll, Action.bind_apply, Action.attempt]
      -- With or without a refusal of the call, the rest of the run comes next.
      have hrest (reply : Except ε α) (s₁ : σ) :
          (do return reply :: (← runAll serve act rest) : Action ε σ _) s₁ ≠
            .error (.refused error) s' := by
        rw [Action.bind_apply]
        cases hrun : runAll serve act rest s₁ with
        | ok replies s₂ => exact nofun
        | error fault s₂ =>
          -- A fault of the rest is one of a shorter run.
          rintro ⟨⟩
          exact ih s₁ hrun
      cases serve request s with
      | ok answer s₁ => exact hrest (.ok answer) s₁
      | error fault s₁ =>
        cases fault with
        | refused e => exact hrest (.error e) s₁
        | trap cause => exact nofun
    | world w => exact ih (act w s)

/-- A run ends at a call that traps, and goes on after any other. -/
theorem state_runAll_call (serve : ρ → Action ε σ α) (act : ω → σ → σ) (request : ρ)
    (rest : List (Event ρ ω)) (s : σ) :
    Outcome.state (runAll serve act (.call request :: rest) s) =
      match serve request s with
      | .error (.trap _) s' => s'
      | .error (.refused _) s' | .ok _ s' => Outcome.state (runAll serve act rest s') := by
  have hrest (reply : Except ε α) (s₁ : σ) :
      Outcome.state ((do return reply :: (← runAll serve act rest) : Action ε σ _) s₁) =
        Outcome.state (runAll serve act rest s₁) := by
    rw [Action.bind_apply]
    cases runAll serve act rest s₁ <;> rfl
  rw [runAll, Action.bind_apply, Action.attempt]
  -- An answer, a refusal, a trap.
  rcases serve request s with ⟨answer, s₁⟩ | ⟨_ | _, s₁⟩
  · exact hrest _ s₁
  · exact hrest _ s₁
  · rfl

/-- What every call and every act of the world keeps holds wherever a run ends. -/
theorem state_runAll_of_keeps {serve : ρ → Action ε σ α} {act : ω → σ → σ} {I : σ → Prop}
    (hserve : ∀ request s, I s → I (Outcome.state (serve request s)))
    (hact : ∀ w s, I s → I (act w s)) (events : List (Event ρ ω)) {s : σ} (hs : I s) :
    I (Outcome.state (runAll serve act events s)) := by
  induction events generalizing s with
  | nil => exact hs
  | cons event rest ih =>
    cases event with
    | world w => exact ih (hact w s hs)
    | call request =>
      have hkept := hserve request s hs
      rw [state_runAll_call]
      match serve request s, hkept with
      | .ok answer s₁, hkept => exact ih hkept
      | .error (.refused error) s₁, hkept => exact ih hkept
      | .error (.trap cause) s₁, hkept => exact hkept

namespace Disk

variable [Controller σ] [TickSource σ]

/-- Serve a request. -/
def serve : Request → Action FlashError (Disk σ) Answer
  | .read buffer lba count => return .data (← readBlocks buffer lba count)
  | .write source lba count => do
    writeBlocks source lba count
    return .done
  | .flush => do
    flush
    return .done

/-- A disk that has served no request yet, with its window open. -/
def fresh (l : Layout) (hv : l.Valid) (policy : ErasePolicy) (patience : Patience) (device : σ) :
    Disk σ where
  store := { layout := l, layout_valid := hv, policy, patience }
  device := device

/-- An act of the world on the device. -/
def world (act : ω → σ → σ) (w : ω) (d : Disk σ) : Disk σ := { d with device := act w d.device }

end Disk

namespace Bench

/-- A part with a memory, idle and with its window open, next to a clock. -/
def fresh (memory : ByteArray) (busyPolls : Nat) (clock : StepClock) : Bench NorPart where
  part := { memory, busyPolls }
  clock := clock

/-- Hold the busy flag of the part, or release it. -/
def hold (on : Bool) (b : Bench NorPart) : Bench NorPart :=
  { b with part := { b.part with stalled := on } }

end Bench

end NorDisk
