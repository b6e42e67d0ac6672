import Mathlib.Data.List.Induction
import NorDisk.Reset

/-!
# When a reset becomes due

Of a history of requests, cancellations and polls the last call that was not a poll decides. If it
was a request at time `t` with delay `d`, a poll at `t + e` finds the reset due exactly if `d < e`.
The clock may wrap between the two: times are compared by their wrapped difference, so they count
as they are while they lie less than half the circle apart.

* **`after_eq`** — what a history leaves; induction on its last call.
* **`due?_request`** — one request and the polls that follow it.
* **`due_after_delay`** — the two together, for all histories.
-/

namespace NorDisk.Reset

/-- The calls that a scheduler takes. -/
inductive Call where
  | request (now delay : UInt32) (image : UInt8)
  | cancel
  | poll (now : UInt32)
deriving DecidableEq, Repr

def Call.isPoll : Call → Bool
  | poll _ => true
  | _ => false

/-- Take a call; only a poll has an answer. -/
def serve : Call → Reset → Option UInt8 × Reset
  | .request now delay image, _ => (none, request now delay image)
  | .cancel, r => (none, r.cancel)
  | .poll now, r => (r.due? now, r)

/-- What some calls leave of a scheduler that holds no request. -/
def after (calls : List Call) : Reset := calls.foldl (fun r call => (serve call r).2) {}

/-- The last call that asked for a reset or cancelled one. -/
def lastOrder? (calls : List Call) : Option Call := (calls.filter (!·.isPoll)).getLast?

variable {calls : List Call} {call : Call}

/-! ### One call after others -/

theorem after_append_singleton (calls : List Call) (call : Call) :
    after (calls ++ [call]) = (serve call (after calls)).2 := by
  simp only [after, List.foldl_append, List.foldl_cons, List.foldl_nil]

/-- A poll changes nothing. -/
theorem serve_of_isPoll (h : call.isPoll = true) (r : Reset) : (serve call r).2 = r := by
  cases call with
  | poll now => rfl
  | _ => cases h

theorem lastOrder?_append_of_isPoll (h : call.isPoll = true) :
    lastOrder? (calls ++ [call]) = lastOrder? calls := by
  simp [lastOrder?, h]

theorem lastOrder?_append_of_not_isPoll (h : call.isPoll = false) :
    lastOrder? (calls ++ [call]) = some call := by
  simp [lastOrder?, h]

/-! ### A history -/

/-- What a history leaves does not depend on the polls in it. Induction on its last call. -/
theorem after_filter_not_isPoll (calls : List Call) :
    after (calls.filter (!·.isPoll)) = after calls := by
  induction calls using List.reverseRecOn with
  | nil => rfl
  | append_singleton calls call ih =>
    rw [List.filter_append, after_append_singleton]
    cases hpoll : call.isPoll with
    | true => simpa [hpoll, serve_of_isPoll hpoll] using ih
    | false => simp [hpoll, after_append_singleton, ih]

/-- A history leaves its last request, and nothing pending if that was cancelled or there was
none. -/
theorem after_eq (calls : List Call) :
    match lastOrder? calls with
    | some (.request now delay image) => after calls = request now delay image
    | _ => (after calls).deadline = none := by
  induction calls using List.reverseRecOn with
  | nil => rfl
  | append_singleton calls call ih =>
    rw [after_append_singleton]
    -- A poll leaves the order before it; each of the others is the last order itself.
    cases call with
    | poll now => rwa [lastOrder?_append_of_isPoll rfl]
    | request now delay image => rw [lastOrder?_append_of_not_isPoll rfl, serve]
    | cancel => rw [lastOrder?_append_of_not_isPoll rfl, serve, cancel]

/-! ### The deadline of one request -/

/-- The image number is cut to two bits. -/
theorem rebootValue_eq (image : UInt8) : rebootValue image = 0xAC ||| image % 4 := by
  have hmask : image &&& 3 = image % 4 := by
    apply UInt8.toNat_inj.mp
    rw [UInt8.toNat_and, UInt8.toNat_mod]
    exact Nat.and_two_pow_sub_one_eq_mod image.toNat 2
  rw [rebootValue, hmask]

/-- One request: a poll after `e` ticks finds it due exactly if `e` is over the delay. -/
theorem due?_request (t : UInt32) {d : UInt32} (image : UInt8) {e : Nat} (hd : d.toNat ≤ 0x80000000)
    (he : e < d.toNat + 0x80000000) :
    (request t d image).due? (.ofNat (t.toNat + e)) =
      if d.toNat < e then some (0xAC ||| image % 4) else none := by
  have hdeadline : t + d = .ofNat (t.toNat + d.toNat) := by
    rw [UInt32.ofNat_add, UInt32.ofNat_toNat, UInt32.ofNat_toNat]
  -- Both times lie within half the circle, so the wrapped comparison is the true one.
  have hpast : isPast (.ofNat (t.toNat + e)) (t + d) = decide (d.toNat < e) := by
    rw [hdeadline, isPast_ofNat (by omega) (by omega), decide_eq_decide]
    omega
  simp only [request, due?, hpast, decide_eq_true_eq, rebootValue_eq]

/-- **A reset is due exactly after its delay.** After any calls: a poll changes nothing, and the
same is left without the polls among them; a poll has a value only if the last order was a request;
and if that came at `t` with the delay `d`, a poll `e` later has the value exactly if `e` is over
`d`. -/
theorem due_after_delay (calls : List Call) :
    (∀ now, (serve (.poll now) (after calls)).2 = after calls) ∧
      after (calls.filter (!·.isPoll)) = after calls ∧
      (∀ now value, (serve (.poll now) (after calls)).1 = some value →
        ∃ t d image, lastOrder? calls = some (.request t d image)) ∧
      ∀ t d image, lastOrder? calls = some (.request t d image) → d.toNat ≤ 0x80000000 →
        ∀ e < d.toNat + 0x80000000,
          (serve (.poll (.ofNat (t.toNat + e))) (after calls)).1 =
            if d.toNat < e then some (0xAC ||| image % 4) else none := by
  have hafter := after_eq calls
  refine ⟨fun now => rfl, after_filter_not_isPoll calls, ?_, ?_⟩
  · intro now value hdue
    split at hafter
    · rename_i t d image hlast
      exact ⟨t, d, image, hlast⟩
    · simp [serve, due?, hafter] at hdue
  · intro t d image hlast hd e he
    rw [hlast] at hafter
    simp only [serve, hafter]
    exact due?_request t image hd he

/-- The second request replaces the first one, and its deadline lies past the wrap of the clock. -/
theorem due_after_delay_of_wrap :
    let calls : List Call :=
      [.request 0xFFFFF000 10 3, .cancel, .request 0xFFFFF800 0 1, .poll 0xFFFFF900,
        .request 0xFFFFFF00 1000 6, .poll 0xFFFFFF80, .poll 5]
    (after calls).deadline = some 744 ∧
      (serve (.poll 744) (after calls)).1 = none ∧
      (serve (.poll 745) (after calls)).1 = some 0xAE := by
  intro calls
  have hlast : lastOrder? calls = some (.request 0xFFFFFF00 1000 6) := by decide
  obtain ⟨-, -, -, hdue⟩ := due_after_delay calls
  exact ⟨by decide, hdue _ _ _ hlast (by decide) 1000 (by decide),
    hdue _ _ _ hlast (by decide) 1001 (by decide)⟩

end NorDisk.Reset
