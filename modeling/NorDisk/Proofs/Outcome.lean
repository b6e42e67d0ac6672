import NorDisk.Disk

/-!
# What an action does from a given state

An action answers a value, a refusal or a trap, and leaves a state in all three cases. Two
predicates on that outcome carry every proof about disks:

* **`Outcome.Meets good bad`** — a value and its state satisfy `good`, a fault and its state satisfy
  `bad`.
* **`Outcome.Agree allowed bad good`** — two actions on two kinds of state end alike: with one value
  and states related by `good`, or with one fault, which is `allowed`, and states related by `bad`.

Each has one rule for sequencing (`Meets.bind`, `Agree.bind`). The steps of an action whose answer
is known are taken by rewriting with the equations of the second half.
-/

namespace NorDisk

/-- The caller is told why; nothing stopped for good. -/
def Fault.IsRefusal {ε : Type} : Fault ε → Prop
  | .refused _ => True
  | .trap _ => False

/-- What an action leaves behind. -/
abbrev Outcome (ε σ α : Type) := EStateM.Result (Fault ε) σ α

variable {ε ε' σ τ α β : Type}

namespace Outcome

/-- The state that is left, whatever the answer. -/
def state : Outcome ε σ α → σ
  | .ok _ s => s
  | .error _ s => s

/-- A value satisfies `good` and a fault `bad`, each with its state. -/
def Meets (good : α → σ → Prop) (bad : Fault ε → σ → Prop) : Outcome ε σ α → Prop
  | .ok a s => good a s
  | .error fault s => bad fault s

instance (good : α → σ → Prop) (bad : Fault ε → σ → Prop) [∀ a s, Decidable (good a s)]
    [∀ fault s, Decidable (bad fault s)] (r : Outcome ε σ α) : Decidable (r.Meets good bad) :=
  match r with
  | .ok a s => inferInstanceAs (Decidable (good a s))
  | .error fault s => inferInstanceAs (Decidable (bad fault s))

/-- One value with states related by `good`, or one allowed fault with states related by `bad`. -/
def Agree (allowed : Fault ε → Prop) (bad : σ → τ → Prop) (good : α → σ → τ → Prop) :
    Outcome ε σ α → Outcome ε τ α → Prop
  | .ok a s, .ok b t => a = b ∧ good a s t
  | .error f s, .error g t => f = g ∧ allowed f ∧ bad s t
  | _, _ => False

/-- What is said of an outcome may be weakened on both sides. -/
theorem Meets.mono {good good' : α → σ → Prop} {bad bad' : Fault ε → σ → Prop}
    {r : Outcome ε σ α} (h : r.Meets good bad) (hgood : ∀ a s, good a s → good' a s)
    (hbad : ∀ fault s, bad fault s → bad' fault s) : r.Meets good' bad' := by
  cases r with
  | ok a s => exact hgood a s h
  | error fault s => exact hbad fault s h

/-- Where no fault is possible there is a value. -/
theorem Meets.ok {good : α → σ → Prop} {bad : Fault ε → σ → Prop} {r : Outcome ε σ α}
    (h : r.Meets good bad) (hbad : ∀ fault s, ¬ bad fault s) : ∃ a s, r = .ok a s ∧ good a s := by
  cases r with
  | ok a s => exact ⟨a, s, rfl, h⟩
  | error fault s => exact absurd h (hbad fault s)

/-- Where no value is possible there is a fault. -/
theorem Meets.error {good : α → σ → Prop} {bad : Fault ε → σ → Prop} {r : Outcome ε σ α}
    (h : r.Meets good bad) (hgood : ∀ a s, ¬ good a s) :
    ∃ fault s, r = .error fault s ∧ bad fault s := by
  cases r with
  | ok a s => exact absurd h (hgood a s)
  | error fault s => exact ⟨fault, s, rfl, h⟩

theorem Meets.eq_ok {r : Outcome ε σ α} {a : α}
    (h : r.Meets (fun b _ => b = a) fun _ _ => False) : ∃ s, r = .ok a s := by
  obtain ⟨_, s, hr, rfl⟩ := h.ok fun _ _ => id
  exact ⟨s, hr⟩

theorem Meets.eq_error {r : Outcome ε σ α} {fault : Fault ε}
    (h : r.Meets (fun _ _ => False) fun f _ => f = fault) : ∃ s, r = .error fault s := by
  obtain ⟨_, s, hr, rfl⟩ := h.error fun _ _ => id
  exact ⟨s, hr⟩

/-- What holds of both answers holds of the state. -/
theorem Meets.state {P : σ → Prop} {r : Outcome ε σ α} (h : r.Meets (fun _ => P) fun _ => P) :
    P r.state := by
  cases r <;> exact h

/-- Two facts about one outcome are one fact. -/
theorem Meets.and {good good' : α → σ → Prop} {bad bad' : Fault ε → σ → Prop} {r : Outcome ε σ α}
    (h : r.Meets good bad) (h' : r.Meets good' bad') :
    r.Meets (fun a s => good a s ∧ good' a s) fun fault s => bad fault s ∧ bad' fault s := by
  cases r <;> exact ⟨h, h'⟩

/-- Both relations between the states may be weakened. -/
theorem Agree.mono {allowed : Fault ε → Prop} {bad bad' : σ → τ → Prop}
    {good good' : α → σ → τ → Prop} {r : Outcome ε σ α} {r' : Outcome ε τ α}
    (h : Agree allowed bad good r r') (hgood : ∀ a s t, good a s t → good' a s t)
    (hbad : ∀ s t, bad s t → bad' s t) : Agree allowed bad' good' r r' := by
  match r, r', h with
  | .ok a s, .ok b t, h => exact ⟨h.1, hgood a s t h.2⟩
  | .error f s, .error g t, h => exact ⟨h.1, h.2.1, hbad s t h.2.2⟩

/-- What one of two outcomes that agree meets, the other one meets through the relation. -/
theorem Agree.meets {allowed : Fault ε → Prop} {R R' : σ → τ → Prop} {r : Outcome ε σ α}
    {r' : Outcome ε τ α} {good : α → τ → Prop} {bad : Fault ε → τ → Prop}
    (h : Agree allowed R' (fun _ => R) r r') (h' : r'.Meets good bad) :
    r.Meets (fun a s => ∃ t, R s t ∧ good a t) fun fault s => ∃ t, R' s t ∧ bad fault t := by
  match r, r', h with
  | .ok a s, .ok b t, h =>
    obtain ⟨rfl, hR⟩ := h
    exact ⟨t, hR, h'⟩
  | .error f s, .error g t, h =>
    obtain ⟨rfl, -, hR⟩ := h
    exact ⟨t, hR, h'⟩

/-- An outcome that agrees with itself relates its state to itself. -/
theorem Agree.state {allowed : Fault ε → Prop} {R : σ → σ → Prop} {r : Outcome ε σ α}
    (h : Agree allowed R (fun _ => R) r r) : R r.state r.state := by
  cases r with
  | ok a s => exact h.2
  | error fault s => exact h.2.2

theorem Agree.refl {allowed : Fault ε → Prop} {R : σ → σ → Prop}
    (hallowed : ∀ fault, allowed fault) (hR : ∀ s, R s s) (r : Outcome ε σ α) :
    Agree allowed R (fun _ => R) r r := by
  cases r with
  | ok a s => exact ⟨rfl, hR s⟩
  | error fault s => exact ⟨rfl, hallowed fault, hR s⟩

/-- What meets something agrees with itself. -/
theorem Meets.agree_self {good : α → σ → Prop} {bad : Fault ε → σ → Prop} {r : Outcome ε σ α}
    (h : r.Meets good bad) : Agree (fun _ => True) Eq (fun a s t => s = t ∧ good a s) r r := by
  cases r with
  | ok a s => exact ⟨rfl, rfl, h⟩
  | error fault s => exact ⟨rfl, trivial, rfl⟩

end Outcome

namespace Action

open Outcome

/-- The second half runs from the state that the first half leaves, unless that fails. -/
theorem bind_apply (act : Action ε σ α) (k : α → Action ε σ β) (s : σ) :
    (act >>= k) s =
      match act s with
      | .ok a s => k a s
      | .error fault s => .error fault s := by
  show EStateM.bind act k s = _
  unfold EStateM.bind
  cases act s <;> rfl

/-- A sequence meets what its second half meets from wherever the first half leads. -/
theorem Meets.bind {act : Action ε σ α} {k : α → Action ε σ β} {s : σ} {mid : α → σ → Prop}
    {good : β → σ → Prop} {bad : Fault ε → σ → Prop} (hact : Meets mid bad (act s))
    (hk : ∀ a s', mid a s' → Meets good bad (k a s')) : Meets good bad ((act >>= k) s) := by
  rw [bind_apply]
  match act s, hact with
  | .ok a s', h => exact hk a s' h
  | .error fault s', h => exact h

/-- The first half may have faults of its own, if they are among those of the sequence. -/
theorem Meets.bind_of {act : Action ε σ α} {k : α → Action ε σ β} {s : σ} {mid : α → σ → Prop}
    {good : β → σ → Prop} {first bad : Fault ε → σ → Prop} (hact : Meets mid first (act s))
    (hbad : ∀ fault s', first fault s' → bad fault s')
    (hk : ∀ a s', mid a s' → Meets good bad (k a s')) : Meets good bad ((act >>= k) s) :=
  Meets.bind (hact.mono (fun _ _ h => h) hbad) hk

/-- What comes second matters only where the first half may lead. -/
theorem bind_congr_of {act : Action ε σ α} {k k' : α → Action ε σ β} {s : σ}
    {bad : Fault ε → σ → Prop} (h : Meets (fun a s' => k a s' = k' a s') bad (act s)) :
    (act >>= k) s = (act >>= k') s := by
  rw [bind_apply, bind_apply]
  match act s, h with
  | .ok _ _, h => exact h
  | .error _ _, _ => rfl

/-- Two sequences agree if their halves do. -/
theorem Agree.bind {allowed : Fault ε → Prop} {bad : σ → τ → Prop} {mid : α → σ → τ → Prop}
    {good : β → σ → τ → Prop} {act : Action ε σ α} {act' : Action ε τ α} {k : α → Action ε σ β}
    {k' : α → Action ε τ β} {s : σ} {t : τ} (hact : Agree allowed bad mid (act s) (act' t))
    (hk : ∀ a s' t', mid a s' t' → Agree allowed bad good (k a s') (k' a t')) :
    Agree allowed bad good ((act >>= k) s) ((act' >>= k') t) := by
  rw [bind_apply, bind_apply]
  match act s, act' t, hact with
  | .ok a s', .ok b t', h =>
    obtain ⟨rfl, hmid⟩ := h
    exact hk a s' t' hmid
  | .error f s', .error g t', h => exact h

/-! ## Steps whose answer is known -/

theorem ite_apply (c : Prop) [Decidable c] (act act' : Action ε σ α) (s : σ) :
    (if c then act else act') s = if c then act s else act' s := by
  split <;> rfl

theorem ofChecked_bind (a : α) (k : α → Action ε σ β) (s : σ) :
    (ofChecked (.ok a) >>= k) s = k a s := rfl

theorem ofExcept_bind (a : α) (k : α → Action ε σ β) (s : σ) :
    (ofExcept (.ok a) >>= k) s = k a s := rfl

theorem ofStep_bind (step : σ → α × σ) (k : α → Action ε σ β) (s : σ) :
    (ofStep step >>= k) s = k (step s).1 (step s).2 := rfl

theorem ofUpdate_bind (update : σ → σ) (k : Unit → Action ε σ β) (s : σ) :
    (ofUpdate update >>= k) s = k () (update s) := rfl

/-- Attempts agree if the actions do: a refusal becomes a value, a trap stays. -/
theorem Agree.attempt {allowed : Fault ε → Prop} {R : σ → τ → Prop} {act : Action ε σ α}
    {act' : Action ε τ α} {s : σ} {t : τ} (h : Agree allowed R (fun _ => R) (act s) (act' t)) :
    Agree allowed R (fun _ => R) ((act.attempt : Action ε σ (Except ε α)) s)
      ((act'.attempt : Action ε τ (Except ε α)) t) := by
  unfold Action.attempt
  match act s, act' t, h with
  | .ok a s', .ok b t', h => exact ⟨congrArg Except.ok h.1, h.2⟩
  -- A refusal is a value of the attempt.
  | .error (.refused e) s', .error f t', h =>
    obtain ⟨rfl, -, hst⟩ := h
    exact ⟨rfl, hst⟩
  | .error (.trap cause) s', .error f t', h =>
    obtain ⟨rfl, hallowed, hst⟩ := h
    exact ⟨rfl, hallowed, hst⟩

/-- Renaming refusals keeps two actions alike. -/
theorem Agree.mapError {f : ε → ε'} {bad : σ → τ → Prop} {good : α → σ → τ → Prop}
    {act : Action ε σ α} {act' : Action ε τ α} {s : σ} {t : τ}
    (h : Agree Fault.IsRefusal bad good (act s) (act' t)) :
    Agree Fault.IsRefusal bad good (act.mapError f s) (act'.mapError f t) := by
  unfold Action.mapError
  match act s, act' t, h with
  | .ok a s', .ok b t', h => exact h
  | .error (.refused e) s', .error g t', h =>
    obtain ⟨rfl, -, hbad⟩ := h
    exact ⟨rfl, trivial, hbad⟩
  -- A trap is not allowed here.
  | .error (.trap cause) s', .error g t', h => exact absurd h.2.1 id

/-- Whatever a discarded action answers, the sequence goes on. -/
theorem discard_bind (act : Action ε σ α) (k : Unit → Action ε σ β) (s : σ) :
    (discard act >>= k) s = (act >>= fun _ => k ()) s := by
  have hdiscard : discard act s =
      match act s with
      | .ok _ s => .ok () s
      | .error fault s => .error fault s := by
    show EStateM.map (Function.const α ()) act s = _
    unfold EStateM.map
    cases act s <;> rfl
  rw [bind_apply, bind_apply, hdiscard]
  cases act s <;> rfl

theorem Agree.discard {allowed : Fault ε → Prop} {R : σ → τ → Prop} {act : Action ε σ α}
    {act' : Action ε τ α} {s : σ} {t : τ} (h : Agree allowed R (fun _ => R) (act s) (act' t)) :
    Agree allowed R (fun _ => R) (discard act s) (discard act' t) :=
  Agree.bind h fun _ _ _ hst => ⟨rfl, hst⟩

end Action

namespace Disk

variable {σ : Type}

theorem ask_bind (f : Store → α) (k : α → Action FlashError (Disk σ) β) (d : Disk σ) :
    (ask f >>= k) d = k (f d.store) d := rfl

theorem update_apply (f : Store → Store) (d : Disk σ) :
    update f d = .ok () { d with store := f d.store } := rfl

theorem update_bind (f : Store → Store) (k : Unit → Action FlashError (Disk σ) β) (d : Disk σ) :
    (update f >>= k) d = k () { d with store := f d.store } := rfl

theorem onDevice_ofStep_bind (step : σ → α × σ) (k : α → Action FlashError (Disk σ) β)
    (d : Disk σ) :
    (onDevice (.ofStep step) >>= k) d = k (step d.device).1 ⟨d.store, (step d.device).2⟩ := rfl

/-- A sequence on the device is a sequence of the disk. -/
theorem onDevice_bind (act : Action FlashError σ α) (k : α → Action FlashError σ β) :
    onDevice (act >>= k) = onDevice act >>= fun a => onDevice (k a) := by
  funext ⟨store, device⟩
  rw [Action.bind_apply]
  unfold onDevice
  simp only [Action.bind_apply]
  cases act device <;> rfl

/-- What an action does to a device it does to the device of a disk, and nothing else. -/
theorem onDevice_meets {act : Action FlashError σ α} {d : Disk σ} {good : α → σ → Prop}
    {bad : Fault FlashError → σ → Prop} (h : Outcome.Meets good bad (act d.device)) :
    Outcome.Meets (fun a d' => d'.store = d.store ∧ good a d'.device)
      (fun fault d' => d'.store = d.store ∧ bad fault d'.device) (onDevice act d) := by
  obtain ⟨store, device⟩ := d
  unfold onDevice
  match hact : act device, h with
  | .ok a device', h => simpa [hact] using ⟨rfl, h⟩
  | .error fault device', h => simpa [hact] using ⟨rfl, h⟩

/-- Whatever happens to the device, the store stays. -/
theorem onDevice_store (act : Action FlashError σ α) (d : Disk σ) :
    Outcome.Meets (fun _ e => e.store = d.store) (fun _ e => e.store = d.store)
      (onDevice act d) := by
  obtain ⟨store, device⟩ := d
  unfold onDevice
  cases hact : act device <;> simp [hact, Outcome.Meets]

/-- Actions that agree on two devices agree on disks with them. -/
theorem onDevice_agree {act : Action FlashError σ α} {act' : Action FlashError τ α} {d : Disk σ}
    {d' : Disk τ} {allowed : Fault FlashError → Prop} {bad : σ → τ → Prop}
    {good : α → σ → τ → Prop} (h : Outcome.Agree allowed bad good (act d.device) (act' d'.device)) :
    Outcome.Agree allowed
      (fun e e' => e.store = d.store ∧ e'.store = d'.store ∧ bad e.device e'.device)
      (fun a e e' => e.store = d.store ∧ e'.store = d'.store ∧ good a e.device e'.device)
      (onDevice act d) (onDevice act' d') := by
  obtain ⟨store, device⟩ := d
  obtain ⟨store', device'⟩ := d'
  unfold onDevice
  match hact : act device, hact' : act' device', h with
  | .ok a s, .ok b t, h => simpa [hact, hact'] using ⟨h.1, rfl, rfl, h.2⟩
  | .error f s, .error g t, h => simpa [hact, hact'] using ⟨h.1, h.2.1, rfl, rfl, h.2.2⟩

end Disk

end NorDisk
