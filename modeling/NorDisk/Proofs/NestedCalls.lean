import Mathlib.Logic.Function.Basic
import NorDisk.Proofs.FlashCalls

/-!
# Calls during calls

A call takes the flash state out, runs its body and puts the flash state back, each in a step of its
own. Between two steps an interrupt may come in, and the code that it runs may call again, to any
depth, or before the slot was filled for the first time. Here all calls have their steps in any
order; that contains all ways in which calls nest.

The flash state is then always in one place, and a call that finds the slot empty is refused and
leaves no trace: the steps of refused calls can be left out of a run without changing anything else.
So a call that was let in does what it does without interruption.

* **`Phase.next`** — one step of a call; **`World.step`** — of a call, of the start-up, or of the
  rest of the firmware.
* **`World.Placed`** — where the flash state is; **`run_placed`** — it is there at all times.
* **`run_without`** — leaving out refused calls.
* **`Phase.outcome`** — how a call ends that is not interrupted any more; **`run_outcome`** — no
  refused call changes that; **`finishes_iff`** — and so it ends.
* **`flash_calls_exclusive`** — all of it, for every run.
-/

namespace NorDisk.Firmware

open Outcome

/-- The body of a call, cut where interrupts come in. -/
inductive Body (α : Type) : Type 1
  | done (answer : α)
  | piece {β : Type} (act : Action Empty Held β) (rest : β → Body α)

/-- The body in one go. -/
def Body.whole {α : Type} : Body α → Action Empty Held α
  | .done answer => pure answer
  | .piece act rest => do (rest (← act)).whole

/-- How far a call is. -/
inductive Phase (ρ : Type) : Type 1
  /-- It has the flash state, and this much of its body is left. -/
  | running (s : FlashState) (rest : Body (ρ × Bool))
  /-- It found the slot empty. -/
  | refused
  /-- It has put the flash state back. -/
  | returned (answer : ρ) (completed : Bool)
  | over (answer : Except FlashError ρ)

variable {ρ : Type}

/-! ## One call -/

namespace Phase

/-- A call starts by taking the flash state. -/
def start (body : Body (ρ × Bool)) (d : Device) : Device × Phase ρ :=
  match d.checkOut with
  | none => (d, .refused)
  | some (s, d) => (d, .running s body)

/-- The next step of a call; none if the call is over or its body traps. -/
def next (d : Device) : Phase ρ → Option (Device × Phase ρ)
  | .running s (.done (answer, completed)) => some (d.checkIn s, .returned answer completed)
  | .running s (.piece act rest) =>
    match act (d.lend s) with
    | .ok b h => some (d.after h, .running h.state (rest b))
    | .error _ _ => none
  | .refused => some (d, .over (.error .busy))
  | .returned answer completed =>
    some (if completed then d.requestReset else d, .over (.ok answer))
  | .over _ => none

def isRunning : Phase ρ → Bool
  | .running .. => true
  | _ => false

/-- Did the call find the slot empty? It is then answered as busy. -/
def isRefused : Phase ρ → Bool
  | .refused | .over (.error .busy) => true
  | _ => false

/-- How the call ends if it is not interrupted any more. -/
def outcome (d : Device) : Phase ρ → Outcome Empty Device (Except FlashError ρ)
  | .running s rest => d.returned (rest.whole (d.lend s))
  | .refused => .ok (.error .busy) d
  | .returned answer completed => .ok (.ok answer) (if completed then d.requestReset else d)
  | .over answer => .ok answer d

variable {body : Body (ρ × Bool)} {d : Device} {s : FlashState} {p : Phase ρ}
  {r : Device × Phase ρ}

/-- A call that finds the flash state takes it out of the slot. -/
theorem start_of_some (hslot : d.slot = some s) (body : Body (ρ × Bool)) :
    start body d = ({ d with slot := none }, .running s body) := by
  rw [start, Device.checkOut_of_some hslot]

theorem start_of_none (hslot : d.slot = none) (body : Body (ρ × Bool)) :
    start body d = (d, .refused) := by
  rw [start, Device.checkOut_of_none hslot]

/-- At its start a call ends as the uninterrupted call does. -/
theorem start_outcome (body : Body (ρ × Bool)) (d : Device) :
    (start body d).2.outcome (start body d).1 = Device.call body.whole d := by
  cases hslot : d.slot with
  | none => rw [start_of_none hslot, Device.call, Device.checkOut_of_none hslot]; rfl
  | some s => rw [start_of_some hslot, Device.call, Device.checkOut_of_some hslot]; rfl

/-- A call is refused exactly if it finds the slot empty. -/
theorem start_isRefused (body : Body (ρ × Bool)) (d : Device) :
    (start body d).2.isRefused = d.slot.isNone := by
  cases hslot : d.slot with
  | none => rw [start_of_none hslot]; rfl
  | some s => rw [start_of_some hslot]; rfl

/-- **One step.** It leaves the slot alone and goes on running or not, or it fills the slot and runs
no more. A refused call does nothing; no step refuses a call that was let in. -/
theorem next_frame (h : p.next d = some r) :
    (r.1.slot = d.slot ∧ r.2.isRunning = p.isRunning ∨
      r.1.slot.isSome ∧ p.isRunning = true ∧ r.2.isRunning = false) ∧
    r.2.isRefused = p.isRefused ∧ (p.isRefused = true → r.1 = d) := by
  match p, h with
  -- The end of the body: the flash state goes back.
  | .running s (.done (answer, completed)), h =>
    obtain rfl := Option.some.inj h
    exact ⟨Or.inr ⟨rfl, rfl, rfl⟩, rfl, fun hrefused => nomatch hrefused⟩
  | .running s (.piece act rest), h =>
    rw [next] at h
    split at h
    · obtain rfl := Option.some.inj h
      exact ⟨Or.inl ⟨rfl, rfl⟩, rfl, fun hrefused => nomatch hrefused⟩
    · exact nomatch h
  | .refused, h =>
    obtain rfl := Option.some.inj h
    exact ⟨Or.inl ⟨rfl, rfl⟩, rfl, fun _ => rfl⟩
  | .returned answer completed, h =>
    obtain rfl := Option.some.inj h
    refine ⟨Or.inl ⟨?_, rfl⟩, rfl, fun hrefused => nomatch hrefused⟩
    cases completed <;> rfl

/-- How a call ends does not depend on what it left in the device before. -/
theorem returned_after (d : Device) (h : Held) (o : Outcome Empty Held (ρ × Bool)) :
    (d.after h).returned o = d.returned o := by
  cases o <;> rfl

/-- A step does not change how the call ends. -/
theorem next_outcome (h : p.next d = some r) : r.2.outcome r.1 = p.outcome d := by
  match p, h with
  | .running s (.done (answer, completed)), h =>
    obtain rfl := Option.some.inj h
    rfl
  | .running s (.piece act rest), h =>
    rw [next] at h
    split at h
    · rename_i b h' hact
      obtain rfl := Option.some.inj h
      -- One piece of the body has run, and the rest goes on from where it left off.
      rw [outcome, outcome, returned_after, Body.whole, Action.bind_apply, hact]
      rfl
    · exact nomatch h
  | .refused, h =>
    obtain rfl := Option.some.inj h
    rfl
  | .returned answer completed, h =>
    obtain rfl := Option.some.inj h
    rfl

end Phase

/-! ## All calls -/

/-- The device and the calls made so far. -/
structure World (ρ : Type) where
  device : Device
  calls : Nat → Option (Phase ρ) := fun _ => none
  initialized : Bool := false

/-- Who takes a step. -/
inductive Move (ρ : Type) : Type 1
  /-- A call starts. -/
  | call (i : Nat) (body : Body (ρ × Bool))
  /-- A call goes on. -/
  | advance (i : Nat)
  /-- The flash part is set up. -/
  | init
  /-- The rest of the firmware and the outside of the device, which have no flash state. -/
  | outside (f : Device → Device) (keeps : ∀ d, (f d).slot = d.slot)

/-- The call that takes the step. -/
def Move.caller? : Move ρ → Option Nat
  | .call i _ => some i
  | .advance i => some i
  | .init | .outside .. => none

/-- Does one of these calls take the step? -/
def Move.isOf (calls : Nat → Bool) (m : Move ρ) : Bool := m.caller?.any calls

theorem Move.of_isOf {calls : Nat → Bool} {m : Move ρ} (h : m.isOf calls = true) :
    ∃ i, m.caller? = some i ∧ calls i = true := by
  cases hm : m.caller? with
  | none => rw [isOf, hm] at h; exact nomatch h
  | some i => rw [isOf, hm] at h; exact ⟨i, rfl, h⟩

namespace World

/-- Before anything has run. -/
def fresh (d : Device) : World ρ := { device := { d with slot := none } }

/-- The world with a call at another phase. -/
def put (i : Nat) (r : Device × Phase ρ) (w : World ρ) : World ρ :=
  { w with device := r.1, calls := Function.update w.calls i (some r.2) }

/-- One step. A call is made once; the set-up happens once; a step of the firmware leaves the slot
alone. -/
def step (w : World ρ) : Move ρ → Option (World ρ)
  | .call i body =>
    match w.calls i with
    | some _ => none
    | none => some (w.put i (Phase.start body w.device))
  | .advance i => (w.calls i).bind fun p => (p.next w.device).map fun r => w.put i r
  | .init =>
    if w.initialized then none
    else
      match Device.initFlash w.device with
      | .ok _ d => some { w with device := d, initialized := true }
      | .error _ d => some { w with device := d }
  | .outside f _ => some { w with device := f w.device }

def run (moves : List (Move ρ)) (w : World ρ) : Option (World ρ) := moves.foldlM step w

def isRunning (w : World ρ) (i : Nat) : Bool := (w.calls i).any Phase.isRunning

def isRefused (w : World ρ) (i : Nat) : Bool := (w.calls i).any Phase.isRefused

/-- The world as if some calls had not been made. -/
def without (hidden : Nat → Bool) (w : World ρ) : World ρ :=
  { w with calls := fun i => if hidden i then none else w.calls i }

/-- The call ends so, if nothing comes in between any more. -/
def Finishes (w : World ρ) (i : Nat) (answer : Except FlashError ρ) (d : Device) : Prop :=
  ∃ n w', w.run (List.replicate n (.advance i)) = some w' ∧ w'.calls i = some (.over answer) ∧
    w'.device = d

variable {w w' w₁ : World ρ} {i j : Nat} {r : Device × Phase ρ} {p : Phase ρ} {m : Move ρ}
  {moves : List (Move ρ)} {hidden : Nat → Bool}

theorem run_cons (m : Move ρ) (moves : List (Move ρ)) (w : World ρ) :
    w.run (m :: moves) = (w.step m).bind (run moves) := rfl

theorem of_run_cons (h : w.run (m :: moves) = some w') :
    ∃ w₁, w.step m = some w₁ ∧ w₁.run moves = some w' :=
  Option.bind_eq_some_iff.mp h

theorem step_call (hnew : w.calls i = none) (body : Body (ρ × Bool)) :
    w.step (.call i body) = some (w.put i (Phase.start body w.device)) := by
  rw [step, hnew]

/-- Only a call that was not made yet can start. -/
theorem of_step_call {body : Body (ρ × Bool)} (h : w.step (.call i body) = some w') :
    w.calls i = none ∧ w' = w.put i (Phase.start body w.device) := by
  rw [step] at h
  split at h
  · exact nomatch h
  · rename_i hnew
    exact ⟨hnew, (Option.some.inj h).symm⟩

/-- Only a call that was made and is not over can go on. -/
theorem of_step_advance (h : w.step (.advance i) = some w') :
    ∃ p r, w.calls i = some p ∧ p.next w.device = some r ∧ w' = w.put i r := by
  obtain ⟨p, hp, hnext⟩ := Option.bind_eq_some_iff.mp h
  obtain ⟨r, hr, rfl⟩ := Option.map_eq_some_iff.mp hnext
  exact ⟨p, r, hp, hr, rfl⟩

theorem step_advance (hp : w.calls i = some p) (hr : p.next w.device = some r) :
    w.step (.advance i) = some (w.put i r) := by
  rw [step, hp, Option.bind_some, hr]
  rfl

/-- The set-up fills the slot. -/
theorem of_step_init (h : w.step .init = some w') :
    w.initialized = false ∧
      ∃ d, d.slot.isSome ∧ w' = { w with device := d, initialized := true } := by
  rw [step] at h
  split at h
  · exact nomatch h
  · rename_i hinit
    obtain ⟨d, hd, hslot⟩ : ∃ d, Device.initFlash w.device = .ok () d ∧ d.slot.isSome :=
      ⟨_, Device.initFlash_eq _, rfl⟩
    rw [hd] at h
    exact ⟨Bool.eq_false_of_not_eq_true hinit, d, hslot, (Option.some.inj h).symm⟩

@[simp]
theorem calls_put_self (i : Nat) (r : Device × Phase ρ) (w : World ρ) :
    (w.put i r).calls i = some r.2 :=
  Function.update_self ..

theorem calls_put_of_ne (h : j ≠ i) (r : Device × Phase ρ) (w : World ρ) :
    (w.put i r).calls j = w.calls j :=
  Function.update_of_ne h ..

/-- Setting a phase concerns one call. -/
theorem isRunning_put (i j : Nat) (r : Device × Phase ρ) (w : World ρ) :
    (w.put i r).isRunning j = if j = i then r.2.isRunning else w.isRunning j := by
  split
  · rename_i h
    rw [h, isRunning, calls_put_self]
    rfl
  · rename_i h
    rw [isRunning, calls_put_of_ne h]
    rfl

/-! ### Where the flash state is -/

/-- Nowhere before it was set up, and then in the slot while no call runs and with the one that
runs otherwise. -/
inductive Placed (w : World ρ) : Prop
  | nowhere (initialized : w.initialized = false) (slot : w.device.slot = none)
    (calls : ∀ j, w.isRunning j = false)
  | inSlot (initialized : w.initialized = true) (slot : w.device.slot.isSome)
    (calls : ∀ j, w.isRunning j = false)
  | held (i : Nat) (initialized : w.initialized = true) (slot : w.device.slot = none)
    (calls : ∀ j, w.isRunning j = decide (j = i))

/-- Where the flash state is depends on the set-up, the slot and the running calls. -/
theorem Placed.congr (h : w.Placed) (hinit : w'.initialized = w.initialized)
    (hslot : w'.device.slot = w.device.slot) (hcalls : ∀ j, w'.isRunning j = w.isRunning j) :
    w'.Placed := by
  cases h with
  | nowhere initialized slot calls =>
    exact .nowhere (hinit.trans initialized) (hslot.trans slot) fun j => (hcalls j).trans (calls j)
  | inSlot initialized slot calls =>
    exact .inSlot (hinit.trans initialized) (hslot ▸ slot) fun j => (hcalls j).trans (calls j)
  | held i initialized slot calls =>
    exact .held i (hinit.trans initialized) (hslot.trans slot) fun j => (hcalls j).trans (calls j)

/-- A step of a call keeps the place, if it keeps the slot and whether the call runs. -/
theorem Placed.put_of_eq (h : w.Placed) (hslot : r.1.slot = w.device.slot)
    (hrunning : r.2.isRunning = w.isRunning i) : (w.put i r).Placed := by
  refine h.congr rfl hslot fun j => ?_
  rw [isRunning_put]
  split
  · rename_i hj
    rw [hj, hrunning]
  · rfl

/-- A new call takes the flash state out of the slot, or is refused and takes nothing. -/
theorem Placed.call (h : w.Placed) (hnew : w.calls i = none) (body : Body (ρ × Bool)) :
    (w.put i (Phase.start body w.device)).Placed := by
  have hidle : w.isRunning i = false := by rw [isRunning, hnew]; rfl
  cases hslot : w.device.slot with
  | none =>
    rw [Phase.start_of_none hslot]
    exact h.put_of_eq rfl hidle.symm
  | some s =>
    rw [Phase.start_of_some hslot]
    -- The slot is full, so no call runs: the new one will be the only one.
    cases h with
    | nowhere initialized slot calls => exact nomatch hslot.symm.trans slot
    | inSlot initialized slot calls =>
      refine .held i initialized rfl fun j => ?_
      rw [isRunning_put, calls]
      by_cases hj : j = i <;> simp [hj, Phase.isRunning]
    | held k initialized slot calls => exact nomatch hslot.symm.trans slot

/-- A call that goes on keeps the flash state, or puts it back as the one that had it. -/
theorem Placed.advance (h : w.Placed) (hp : w.calls i = some p) (hr : p.next w.device = some r) :
    (w.put i r).Placed := by
  have hrunning : w.isRunning i = p.isRunning := by rw [isRunning, hp]; rfl
  obtain ⟨⟨hslot, hsame⟩ | ⟨hfull, hran, hstopped⟩, -⟩ := Phase.next_frame hr
  · exact h.put_of_eq hslot (hsame.trans hrunning.symm)
  · -- The call that puts the flash state back is the one that ran.
    rw [hran] at hrunning
    cases h with
    | nowhere initialized slot calls => exact nomatch (calls i).symm.trans hrunning
    | inSlot initialized slot calls => exact nomatch (calls i).symm.trans hrunning
    | held k initialized slot calls =>
      have hk : i = k := of_decide_eq_true ((calls i).symm.trans hrunning)
      refine .inSlot initialized hfull fun j => ?_
      rw [isRunning_put, calls, hstopped, ← hk]
      by_cases hj : j = i <;> simp [hj]

/-- The set-up comes once, so no flash state is there before it. -/
theorem Placed.init (h : w.Placed) (hstep : w.step .init = some w') : w'.Placed := by
  obtain ⟨hinit, d, hslot, rfl⟩ := of_step_init hstep
  cases h with
  | nowhere initialized slot calls => exact .inSlot rfl hslot calls
  | inSlot initialized slot calls => exact nomatch hinit.symm.trans initialized
  | held k initialized slot calls => exact nomatch hinit.symm.trans initialized

/-- **One step** keeps the flash state in one place. -/
theorem Placed.step (h : w.Placed) (hstep : w.step m = some w') : w'.Placed := by
  cases m with
  | call i body =>
    obtain ⟨hnew, rfl⟩ := of_step_call hstep
    exact h.call hnew body
  | advance i =>
    obtain ⟨p, r, hp, hr, rfl⟩ := of_step_advance hstep
    exact h.advance hp hr
  | init => exact h.init hstep
  | outside f keeps =>
    obtain rfl := Option.some.inj hstep
    exact h.congr rfl (keeps _) fun _ => rfl

/-- **Any run** keeps the flash state in one place. -/
theorem run_placed (h : w.Placed) (hrun : w.run moves = some w') : w'.Placed := by
  induction moves generalizing w with
  | nil => exact Option.some.inj hrun ▸ h
  | cons m moves ih =>
    obtain ⟨w₁, hstep, hrest⟩ := of_run_cons hrun
    exact ih (h.step hstep) hrest

theorem placed_fresh (d : Device) : (fresh d : World ρ).Placed := .nowhere rfl rfl fun _ => rfl

/-! ### Refused calls -/

/-- Whether a call is refused is decided when it is made. -/
theorem isRefused_of_step (hstep : w.step m = some w') (hmade : (w.calls i).isSome) :
    (w'.calls i).isSome ∧ w'.isRefused i = w.isRefused i := by
  cases m with
  | call j body =>
    obtain ⟨hnew, rfl⟩ := of_step_call hstep
    have hne : i ≠ j := by
      rintro rfl
      rw [hnew] at hmade
      exact nomatch hmade
    rw [isRefused, isRefused, calls_put_of_ne hne]
    exact ⟨hmade, rfl⟩
  | advance j =>
    obtain ⟨p, r, hp, hr, rfl⟩ := of_step_advance hstep
    by_cases hne : i = j
    · subst hne
      rw [isRefused, isRefused, calls_put_self, hp]
      exact ⟨rfl, (Phase.next_frame hr).2.1⟩
    · rw [isRefused, isRefused, calls_put_of_ne hne]
      exact ⟨hmade, rfl⟩
  | init =>
    obtain ⟨-, d, -, rfl⟩ := of_step_init hstep
    exact ⟨hmade, rfl⟩
  | outside f keeps =>
    obtain rfl := Option.some.inj hstep
    exact ⟨hmade, rfl⟩

/-- Once made, a call stays refused or not refused through a run. -/
theorem isRefused_of_run (hrun : w.run moves = some w') (hmade : (w.calls i).isSome) :
    w'.isRefused i = w.isRefused i := by
  induction moves generalizing w with
  | nil => rw [Option.some.inj hrun]
  | cons m moves ih =>
    obtain ⟨w₁, hstep, hrest⟩ := of_run_cons hrun
    obtain ⟨hmade₁, hsame⟩ := isRefused_of_step hstep hmade
    rw [ih hrest hmade₁, hsame]

/-- A step of a call that is refused in the end changes the phase of this call only. -/
theorem step_of_refused (hstep : w.step m = some w₁) (hrun : w₁.run moves = some w')
    (hm : m.caller? = some i) (hrefused : w'.isRefused i = true) :
    ∃ p, w₁ = w.put i (w.device, p) := by
  -- The call is refused at the end, so it is refused now, and a refused call leaves the device as
  -- it is.
  have hput (r : Device × Phase ρ) (hw : w₁ = w.put i r)
      (hdevice : r.2.isRefused = true → r.1 = w.device) : ∃ p, w₁ = w.put i (w.device, p) := by
    subst hw
    have hmade : ((w.put i r).calls i).isSome := by rw [calls_put_self]; rfl
    have hnow := (isRefused_of_run hrun hmade).symm.trans hrefused
    rw [isRefused, calls_put_self] at hnow
    rw [← hdevice hnow]
    exact ⟨r.2, rfl⟩
  cases m with
  | call j body =>
    obtain rfl := Option.some.inj hm
    obtain ⟨-, hw⟩ := of_step_call hstep
    refine hput _ hw fun hnow => ?_
    rw [Phase.start_isRefused, Option.isNone_iff_eq_none] at hnow
    rw [Phase.start_of_none hnow]
  | advance j =>
    obtain rfl := Option.some.inj hm
    obtain ⟨p, r, hp, hr, hw⟩ := of_step_advance hstep
    obtain ⟨-, hsame, hdevice⟩ := Phase.next_frame hr
    exact hput r hw fun hnow => hdevice (hsame ▸ hnow)
  | init => exact nomatch hm
  | outside f keeps => exact nomatch hm

/-- The phase of a call that is left out does not show. -/
theorem without_put_of_hidden (hi : hidden i = true) (p : Phase ρ) (w : World ρ) :
    (w.put i (w.device, p)).without hidden = w.without hidden := by
  have hcalls : (fun j => if hidden j then none else (w.put i (w.device, p)).calls j) =
      fun j => if hidden j then none else w.calls j := by
    funext j
    split
    · rfl
    · rename_i hj
      exact calls_put_of_ne (fun h : j = i => hj (h.symm ▸ hi)) _ _
  rw [without, hcalls]
  rfl

/-- Setting the phase of a call that is not left out commutes with leaving others out. -/
theorem without_put (hi : hidden i = false) (r : Device × Phase ρ) (w : World ρ) :
    (w.put i r).without hidden = (w.without hidden).put i r := by
  have hcalls : (fun j => if hidden j then none else (w.put i r).calls j) =
      Function.update (w.without hidden).calls i (some r.2) := by
    funext j
    by_cases hj : j = i
    · subst hj
      rw [Function.update_self, calls_put_self, if_neg (by simp [hi])]
    · rw [Function.update_of_ne hj, calls_put_of_ne hj]
      rfl
  rw [without, hcalls]
  rfl

/-- The other steps are the same as if the calls had not been made. -/
theorem step_without (hm : m.isOf hidden = false) (w : World ρ) :
    (w.without hidden).step m = (w.step m).map (without hidden) := by
  -- A call that is not left out is seen as it is.
  have hcalls (i : Nat) (hi : hidden i = false) : (w.without hidden).calls i = w.calls i :=
    if_neg (by simp [hi])
  cases m with
  | call i body =>
    rw [step, step, hcalls i hm]
    cases w.calls i with
    | none => exact congrArg some (without_put hm _ w).symm
    | some p => rfl
  | advance i =>
    rw [step, step, hcalls i hm]
    cases w.calls i with
    | none => rfl
    | some p =>
      rw [Option.bind_some, Option.bind_some, Option.map_map]
      exact congrArg (Option.map · _) (funext fun r => (without_put hm r w).symm)
  | init =>
    obtain ⟨d, calls, initialized⟩ := w
    cases initialized with
    | true => rfl
    | false =>
      simp only [step, without]
      cases Device.initFlash d <;> rfl
  | outside f keeps => rfl

/-- **Refused calls leave no trace.** The steps of calls that are refused in the end can be left out
of a run: all else is as it was. -/
theorem run_without (hrun : w.run moves = some w')
    (hrefused : ∀ i, hidden i = true → w'.isRefused i = true) :
    (w.without hidden).run (moves.filter fun m => !m.isOf hidden) = some (w'.without hidden) := by
  induction moves generalizing w with
  | nil => rw [Option.some.inj hrun]; rfl
  | cons m moves ih =>
    obtain ⟨w₁, hstep, hrest⟩ := of_run_cons hrun
    cases hm : m.isOf hidden with
    -- A step of a refused call: it goes, and the world without the call is the same.
    | true =>
      obtain ⟨i, hcaller, hi⟩ := Move.of_isOf hm
      obtain ⟨p, rfl⟩ := step_of_refused hstep hrest hcaller (hrefused i hi)
      rw [List.filter_cons_of_neg (by simp [hm]), ← ih hrest, without_put_of_hidden hi]
    | false =>
      rw [List.filter_cons_of_pos (by simp [hm]), run_cons, step_without hm, hstep, Option.map_some,
        Option.bind_some, ih hrest]

/-! ### The outcome of a call -/

/-- Its own steps and those of calls that are refused in the end do not change how a call ends. -/
theorem run_outcome (hrun : w.run moves = some w')
    (hmoves : ∀ m ∈ moves, m = .advance i ∨ m.isOf w'.isRefused = true) (hp : w.calls i = some p) :
    ∃ p', w'.calls i = some p' ∧ p'.outcome w'.device = p.outcome w.device := by
  induction moves generalizing w p with
  | nil =>
    obtain rfl := Option.some.inj hrun
    exact ⟨p, hp, rfl⟩
  | cons m moves ih =>
    obtain ⟨w₁, hstep, hrest⟩ := of_run_cons hrun
    have hlater := fun m hm => hmoves m (List.mem_cons_of_mem _ hm)
    -- A step of the call itself keeps the outcome by `next_outcome`, that of a refused one changes
    -- neither device nor phase.
    by_cases hcaller : m.caller? = some i
    · cases m with
      | call j body =>
        obtain rfl := Option.some.inj hcaller
        exact nomatch hp.symm.trans (of_step_call hstep).1
      | advance j =>
        obtain rfl := Option.some.inj hcaller
        obtain ⟨q, r, hq, hr, rfl⟩ := of_step_advance hstep
        obtain rfl := Option.some.inj (hp.symm.trans hq)
        rw [← Phase.next_outcome hr]
        exact ih hrest hlater (calls_put_self _ r w)
      | init => exact nomatch hcaller
      | outside f keeps => exact nomatch hcaller
    · have hother : m ≠ .advance i := fun h => hcaller (h ▸ rfl)
      obtain ⟨j, hj, hrefused⟩ :=
        Move.of_isOf ((hmoves m List.mem_cons_self).resolve_left hother)
      obtain ⟨q, rfl⟩ := step_of_refused hstep hrest hj hrefused
      have hne : i ≠ j := fun h => hcaller (h ▸ hj)
      obtain ⟨p', hp', hsame⟩ := ih hrest hlater ((calls_put_of_ne hne _ w).trans hp)
      exact ⟨p', hp', hsame⟩

theorem finishes_over {answer : Except FlashError ρ} (hp : w.calls i = some (.over answer)) :
    w.Finishes i answer w.device :=
  ⟨0, w, rfl, hp, rfl⟩

/-- A call ends so, if it does after its next step. -/
theorem finishes_of_next {answer : Except FlashError ρ} {d : Device} (hp : w.calls i = some p)
    (hr : p.next w.device = some r) (h : (w.put i r).Finishes i answer d) :
    w.Finishes i answer d := by
  obtain ⟨n, w', hrun, hover⟩ := h
  refine ⟨n + 1, w', ?_, hover⟩
  rw [List.replicate_succ, run_cons, step_advance hp hr, Option.bind_some, hrun]

theorem finishes_returned {answer : ρ} {completed : Bool}
    (hp : w.calls i = some (.returned answer completed)) :
    w.Finishes i (.ok answer) (if completed then w.device.requestReset else w.device) :=
  finishes_of_next hp rfl (finishes_over (calls_put_self ..))

/-- A call that runs ends as the rest of its body does. Induction on what is left of the body. -/
theorem finishes_running {s : FlashState} {rest : Body (ρ × Bool)}
    {answer : Except FlashError ρ} {d : Device} (hp : w.calls i = some (.running s rest))
    (h : w.device.returned (rest.whole (w.device.lend s)) = .ok answer d) :
    w.Finishes i answer d := by
  induction rest generalizing w s with
  | done result =>
    obtain ⟨a, completed⟩ := result
    obtain ⟨rfl, rfl⟩ := EStateM.Result.ok.inj h
    exact finishes_of_next hp rfl (finishes_returned (calls_put_self ..))
  | piece act rest ih =>
    rw [Body.whole, Action.bind_apply] at h
    cases hact : act (w.device.lend s) with
    | error fault held => rw [hact] at h; exact nomatch h
    | ok b held =>
      have hnext : (Phase.running s (.piece act rest)).next w.device =
          some (w.device.after held, .running held.state (rest b)) := by
        rw [Phase.next, hact]
      rw [hact] at h
      refine finishes_of_next hp hnext (ih b (calls_put_self ..) ?_)
      exact (Phase.returned_after w.device held _).trans h

/-- **The outcome says how the call ends**, and that it does. -/
theorem finishes_iff (hp : w.calls i = some p) (answer : Except FlashError ρ) (d : Device) :
    w.Finishes i answer d ↔ p.outcome w.device = .ok answer d := by
  constructor
  · rintro ⟨n, w', hrun, hover, rfl⟩
    obtain ⟨p', hp', hsame⟩ :=
      run_outcome hrun (fun m hm => Or.inl (List.eq_of_mem_replicate hm)) hp
    obtain rfl := Option.some.inj (hover.symm.trans hp')
    exact hsame.symm
  · intro h
    match p, hp with
    | .running s rest, hp => exact finishes_running hp h
    | .refused, hp =>
      obtain ⟨rfl, rfl⟩ := EStateM.Result.ok.inj h
      exact finishes_of_next hp rfl (finishes_over (calls_put_self ..))
    | .returned a completed, hp =>
      obtain ⟨rfl, rfl⟩ := EStateM.Result.ok.inj h
      exact finishes_returned hp
    | .over a, hp =>
      obtain ⟨rfl, rfl⟩ := EStateM.Result.ok.inj h
      exact finishes_over hp

/-! ### Every run -/

theorem Placed.unique (h : w.Placed) (hinit : w.initialized = true) :
    w.device.slot.isSome ∧ (∀ i, w.isRunning i = false) ∨
      w.device.slot = none ∧ ∃! i, w.isRunning i = true := by
  cases h with
  | nowhere initialized slot calls => exact nomatch hinit.symm.trans initialized
  | inSlot initialized slot calls => exact Or.inl ⟨slot, calls⟩
  | held i initialized slot calls =>
    refine Or.inr ⟨slot, i, (calls i).trans (decide_eq_true rfl), fun j hj => ?_⟩
    exact of_decide_eq_true ((calls j).symm.trans hj)

/-- The slot is empty before the set-up and while a call runs. -/
theorem Placed.slot_eq_none_iff (h : w.Placed) :
    w.device.slot = none ↔ w.initialized = false ∨ ∃ j, w.isRunning j = true := by
  cases h with
  | nowhere initialized slot calls => exact iff_of_true slot (Or.inl initialized)
  | inSlot initialized slot calls =>
    simp [Option.ne_none_iff_isSome.mpr slot, initialized, calls]
  | held i initialized slot calls => simp [slot, calls]

/-- A call can be made at any time; where it finds the slot empty it is refused for good. -/
theorem call_refused_iff (hnew : w.calls i = none) (body : Body (ρ × Bool)) :
    ∃ w', w.step (.call i body) = some w' ∧ (w'.isRefused i = true ↔ w.device.slot = none) ∧
      (w'.isRefused i = true →
        w'.device = w.device ∧ (∀ j, j ≠ i → w'.calls j = w.calls j) ∧
        w'.Finishes i (.error .busy) w.device ∧
        ∀ later w'', w'.run later = some w'' → w''.isRefused i = true) := by
  have hiff : (w.put i (Phase.start body w.device)).isRefused i = true ↔ w.device.slot = none := by
    rw [isRefused, calls_put_self, ← Option.isNone_iff_eq_none, ← Phase.start_isRefused body]
    rfl
  refine ⟨_, step_call hnew body, hiff, fun hrefused => ?_⟩
  have hstart := Phase.start_of_none (hiff.mp hrefused) body
  have hmade := calls_put_self i (Phase.start body w.device) w
  refine ⟨?_, fun j hj => calls_put_of_ne hj _ w, ?_, fun later w'' hlater => ?_⟩
  · rw [hstart]
    rfl
  · rw [finishes_iff hmade, hstart]
    rfl
  · rw [isRefused_of_run hlater (by rw [hmade]; rfl), hrefused]

/-- **Calls exclude each other.** Take any run from the start of the firmware, with calls that start
and go on in any order.

Once the flash state was set up, it is in the slot while no call runs, and with the only call that
runs otherwise. A call can be made at any time. Before the set-up and while another call runs it is
refused: it changes neither the device nor another call, and its answer is that the part is busy.
The steps of refused calls can be left out of the run, all else is as it was. A call ends, whatever
calls are refused meanwhile, exactly if and how it ends without interruption. The hooks are such
calls, unless they do not ask for the flash state at all; then they leave the device as it is. -/
theorem flash_calls_exclusive {d : Device} (hrun : (fresh d).run moves = some w) :
    (w.initialized = true →
      w.device.slot.isSome ∧ (∀ i, w.isRunning i = false) ∨
        w.device.slot = none ∧ ∃! i, w.isRunning i = true) ∧
    (∀ i body, w.calls i = none → ∃ w', w.step (.call i body) = some w' ∧
      (w'.isRefused i = true ↔ w.initialized = false ∨ ∃ j, w.isRunning j = true) ∧
      (w'.isRefused i = true →
        w'.device = w.device ∧ (∀ j, j ≠ i → w'.calls j = w.calls j) ∧
        w'.Finishes i (.error .busy) w.device ∧
        ∀ later w'', w'.run later = some w'' → w''.isRefused i = true)) ∧
    (∀ hidden : Nat → Bool, (∀ i, hidden i = true → w.isRefused i = true) →
      (fresh d).run (moves.filter fun m => !m.isOf hidden) = some (w.without hidden)) ∧
    (∀ i body nested w', w.run (.call i body :: nested) = some w' →
      (∀ m ∈ nested, m = .advance i ∨ m.isOf w'.isRefused = true) → ∀ answer d',
        w'.Finishes i answer d' ↔ Device.call body.whole w.device = .ok answer d') ∧
    ∀ (c : Uf2.Call) (d' : Device),
      (d'.slot.isSome ∨ c.NeedsFlash d' → Device.hook c d' =
        (do return c.report (← Device.call (Device.body c)) : Device.Hook Report) d') ∧
      (¬ c.NeedsFlash d' → ∃ report, Device.hook c d' = .ok report d') := by
  have hplaced := run_placed (placed_fresh d) hrun
  refine ⟨hplaced.unique, ?_, ?_, ?_, fun c d' =>
    ⟨Device.hook_eq_call, Device.hook_of_not_needs⟩⟩
  · intro i body hnew
    rw [← hplaced.slot_eq_none_iff]
    exact call_refused_iff hnew body
  · -- At the start no call was made, so leaving calls out changes nothing there.
    intro hidden hrefused
    have hfresh : (fresh d : World ρ).without hidden = fresh d := by
      rw [without, fresh]
      simp only [ite_self]
    rw [← run_without hrun hrefused, hfresh]
  · intro i body nested w' hcall hnested answer d'
    obtain ⟨w₁, hstep, hrest⟩ := of_run_cons hcall
    obtain ⟨-, rfl⟩ := of_step_call hstep
    obtain ⟨p', hp', hsame⟩ := run_outcome hrest hnested (calls_put_self i _ w)
    rw [finishes_iff hp', hsame, ← Phase.start_outcome]
    rfl

/-- A flush before the set-up, and two while the record that completes a transfer is taken. -/
theorem flushes_are_refused :
    let record : Uf2.Record :=
      { flags := 0x2001, target := 0x20080000, payloadSize := 256, blockNo := 0, numBlocks := 1
        family := boardFamily, data := List.replicate 256 0x5A ++ List.replicate 220 0
        length_data := by
          rw [List.length_append, List.length_replicate, List.length_replicate, Uf2.dataBytes] }
    let inOnePiece (c : Uf2.Call) : Body (Report × Bool) := .piece (Device.body c) .done
    let take := inOnePiece (.record record.encode)
    let flush := inOnePiece (.request .flush)
    let d : Device := .ofMachine { chip := { memory := Memory.blank 0x100000 } }
    let moves : List (Move Report) :=
      [.call 0 flush, .advance 0, .init, .call 1 take, .call 2 flush, .advance 1, .call 3 flush,
        .advance 3, .advance 2, .advance 1, .advance 1]
    ∃ w, (fresh d).run moves = some w ∧ (∀ i, i = 0 ∨ i = 2 ∨ i = 3 → w.isRefused i = true) ∧
      w.device.reset.isPending = true ∧ w.device.slot.isSome ∧
      (fresh d).run [.init, .call 1 take, .advance 1, .advance 1, .advance 1] =
        some (w.without fun i => i == 0 || i == 2 || i == 3) := by
  intro record inOnePiece take flush d moves
  have hany : ((fresh d).run moves).any (fun w => w.isRefused 0 && w.isRefused 2 && w.isRefused 3 &&
      w.device.reset.isPending && w.device.slot.isSome) = true := by
    decide +kernel
  obtain ⟨w, hrun, hw⟩ := (Option.any_eq_true _ _).mp hany
  simp only [Bool.and_eq_true] at hw
  obtain ⟨⟨⟨⟨h0, h2⟩, h3⟩, hreset⟩, hslot⟩ := hw
  have hrefused : ∀ i, i = 0 ∨ i = 2 ∨ i = 3 → w.isRefused i = true := by
    rintro i (rfl | rfl | rfl)
    · exact h0
    · exact h2
    · exact h3
  have hkept := (flash_calls_exclusive hrun).2.2.1 (fun i => i == 0 || i == 2 || i == 3)
    fun i hi => hrefused i (by simpa only [Bool.or_eq_true, beq_iff_eq, or_assoc] using hi)
  exact ⟨w, hrun, hrefused, hreset, hslot, hkept⟩

end World

end NorDisk.Firmware
