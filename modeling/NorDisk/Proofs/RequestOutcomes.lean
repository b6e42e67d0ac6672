import NorDisk.Proofs.StagedDisk

/-!
# How a request ends

A request is refused for the blocks it names, or it does its work. It then fails only where a
command fails on the device or where an address leaves its word. In between the disk switches the
mode of its device, reads the window and executes commands one by one, so a property of the device
that these keep (`Carrier`) holds after every request that comes to its end. Nothing is asked of the
disk for that: neither that its window fits the address space nor that it was ever used properly.

* **`Store.Continues`** — what no request changes about a store.
* **`Request.refusal?`** — what a request is refused for before anything is done.
* **`Request.Fails`** — how a request may fail.
* **`serve_carried`** — the rule for any request, from one rule per operation.
-/

namespace NorDisk

open Outcome

/-- What no request changes about a store. -/
structure Store.Continues (before after : Store) : Prop where
  layout_eq : after.layout = before.layout
  policy_eq : after.policy = before.policy
  patience_eq : after.patience = before.patience
  /-- No sector is ever staged under the other policy. -/
  unstaged : before.policy = .onSectorStart → before.stage = none → after.stage = none

/-- A store goes on from itself. -/
theorem Store.Continues.refl (s : Store) : s.Continues s := ⟨rfl, rfl, rfl, fun _ h => h⟩

/-- Going on twice is going on. -/
theorem Store.Continues.trans {s t u : Store} (h : s.Continues t) (h' : t.Continues u) :
    s.Continues u where
  layout_eq := h'.layout_eq.trans h.layout_eq
  policy_eq := h'.policy_eq.trans h.policy_eq
  patience_eq := h'.patience_eq.trans h.patience_eq
  unstaged hpolicy hstage := h'.unstaged (h.policy_eq.trans hpolicy) (h.unstaged hpolicy hstage)

namespace Request

/-- Why a request is refused before anything is done. -/
def refusal? (l : Layout) : Request → Option FlashError
  | .read buffer lba count => l.refusal? lba count buffer.length
  | .write source lba count => l.refusal? lba count source.length
  | .flush => none

/-- May the request send commands to the device? -/
def SendsCommands : Request → Prop
  | .read .. => False
  | .write .. | .flush => True

/-- The answer of a request that is not refused. -/
def IsAnswer : Request → Answer → Prop
  | .read .., answer => ∃ buffer, answer = .data buffer
  | .write .., answer | .flush, answer => answer = .done

/-- How a request fails: it is refused for its blocks, one of its commands fails on the device, or
an address leaves its word. -/
inductive Fails (l : Layout) (bad : Fault FlashError → Prop) (request : Request) :
    Fault FlashError → Prop
  | refused {error} (h : request.refusal? l = some error) : Fails l bad request (.refused error)
  | command {fault} (accepted : request.refusal? l = none) (sends : request.SendsCommands)
    (h : bad fault) : Fails l bad request fault
  | trap {cause} : Fails l bad request (.trap cause)

end Request

variable {σ : Type} [Controller σ] [TickSource σ]

/-- A property of a device that all but a failing command keeps; `bad` is what such a command ends
with. -/
structure Carrier (patience : Patience) (I : σ → Prop) (bad : Fault FlashError → Prop) : Prop where
  enterMapped : ∀ s, I s → I (Controller.enterMapped s)
  enterCommand : ∀ s, I s → I (Controller.enterCommand s)
  readMapped : ∀ addr len s, I s → I (Controller.readMapped addr len s).2
  execute : ∀ command s, I s →
    Meets (fun _ => I) (fun fault _ => bad fault) (Controller.execute patience command s)

/-- Nothing has to be known about a device to run a disk on it. -/
theorem Carrier.trivial (patience : Patience) :
    Carrier patience (fun _ : σ => True) fun _ => True where
  enterMapped _ h := h
  enterCommand _ h := h
  readMapped _ _ _ h := h
  execute command s _ := by
    cases Controller.execute patience command s <;> exact True.intro

namespace Disk

/-- Since a disk `d₀` the store went on, and the device has a property. -/
structure Carried (I : σ → Prop) (d₀ d : Disk σ) : Prop where
  continues : d₀.store.Continues d.store
  device : I d.device

/-- Since a disk `d₀` the store went on up to a command that failed or an address that trapped. -/
structure Broken (bad : Fault FlashError → Prop) (d₀ : Disk σ) (fault : Fault FlashError)
    (d : Disk σ) : Prop where
  continues : d₀.store.Continues d.store
  cause : bad fault ∨ ∃ cause, fault = .trap cause

variable {I : σ → Prop} {bad : Fault FlashError → Prop} {d₀ d : Disk σ}

omit [Controller σ] [TickSource σ] in
/-- A checked address is there or traps; a trap breaks nothing off but the request. -/
theorem ofChecked_bind_meets {α β : Type} {x : Except Trap α}
    {k : α → Action FlashError (Disk σ) β} {good : β → Disk σ → Prop} (h : d₀.Carried I d)
    (hk : ∀ a, x = .ok a → Meets good (Broken bad d₀) (k a d)) :
    Meets good (Broken bad d₀) ((Action.ofChecked x >>= k) d) := by
  cases x with
  | ok a => exact hk a rfl
  | error cause => exact ⟨h.continues, Or.inr ⟨cause, rfl⟩⟩

/-- Switching to commands keeps the property of the device. -/
theorem enterCommand_carried (hc : Carrier d₀.store.patience I bad) (h : d₀.Carried I d) :
    Meets (fun _ => d₀.Carried I) (fun _ _ => False) (enterCommand d) := by
  obtain ⟨hlayout, hpolicy, hpatience, hstage⟩ := h.continues
  exact ⟨⟨hlayout, hpolicy, hpatience, hstage⟩, hc.enterCommand _ h.device⟩

/-- Switching if need be does, too. -/
theorem ensureCommand_carried (hc : Carrier d₀.store.patience I bad) (h : d₀.Carried I d) :
    Meets (fun _ => d₀.Carried I) (fun _ _ => False) (ensureCommand d) := by
  rw [ensureCommand, ask_bind]
  split
  · exact enterCommand_carried hc h
  · exact h

/-- Opening the window keeps the property of the device. -/
theorem ensureMapped_carried (hc : Carrier d₀.store.patience I bad) (h : d₀.Carried I d) :
    Meets (fun _ => d₀.Carried I) (fun _ _ => False) (ensureMapped d) := by
  obtain ⟨hlayout, hpolicy, hpatience, hstage⟩ := h.continues
  rw [ensureMapped, ask_bind]
  split
  · exact ⟨⟨hlayout, hpolicy, hpatience, hstage⟩, hc.enterMapped _ h.device⟩
  · exact h

/-- A list of commands keeps the property up to the command that fails. -/
theorem deviceExecuteAll_carried {patience : Patience} (hc : Carrier patience I bad)
    (commands : List Command) {s : σ} (hs : I s) :
    Meets (fun _ => I) (fun fault _ => bad fault) (Controller.executeAll patience commands s) := by
  induction commands generalizing s with
  | nil => exact hs
  | cons command rest ih => exact Action.Meets.bind (hc.execute command s hs) fun _ s' hs' => ih hs'

/-- Executing commands touches the device only. -/
theorem executeAll_carried (hc : Carrier d₀.store.patience I bad) (h : d₀.Carried I d)
    (commands : List Command) :
    Meets (fun _ => d₀.Carried I) (Broken bad d₀) (executeAll commands d) := by
  rw [executeAll, ask_bind, h.continues.patience_eq]
  refine (onDevice_meets (deviceExecuteAll_carried hc commands h.device)).mono ?_ ?_
  · intro _ d' h'
    exact ⟨h'.1 ▸ h.continues, h'.2⟩
  · intro fault d' h'
    exact ⟨h'.1 ▸ h.continues, Or.inl h'.2⟩

/-- Reading the window keeps the property of the device. -/
theorem Carried.readWindow (h : d₀.Carried I d) (hc : Carrier d₀.store.patience I bad)
    (addr : UInt32) (len : Nat) :
    d₀.Carried I ⟨d.store, (Controller.readMapped addr len d.device).2⟩ :=
  ⟨h.continues, hc.readMapped addr len _ h.device⟩

/-- A flush goes on with the store, or breaks off at a command. -/
theorem flush_carried (hc : Carrier d₀.store.patience I bad) (h : d₀.Carried I d) :
    Meets (fun _ => d₀.Carried I) (Broken bad d₀) (flush d) := by
  rw [flush, ask_bind]
  cases hpending : d.store.pending? with
  | none => exact h
  | some sector =>
    have hstaged : d.store.stage = some sector := stage_of_pending hpending
    apply Action.Meets.bind_of (ensureCommand_carried hc h) (fun _ _ => False.elim)
    intro _ d₁ h₁
    apply ofChecked_bind_meets h₁
    intro commands _
    apply Action.Meets.bind (executeAll_carried hc h₁ commands)
    intro _ d₂ h₂
    obtain ⟨hlayout, hpolicy, hpatience, -⟩ := h₂.continues
    refine ⟨⟨hlayout, hpolicy, hpatience, fun hdirect hnone => ?_⟩, h₂.device⟩
    -- A sector was pending, so the disk stages sectors.
    rw [h.continues.unstaged hdirect hnone] at hstaged
    cases hstaged

omit [Controller σ] [TickSource σ] in
/-- Under the policy that stages sectors the stage is free. -/
theorem Carried.restage (h : d₀.Carried I d) (hpolicy : d₀.store.policy = .staged)
    (stage : Option StagedSector) :
    d₀.Carried I { d with store := { d.store with stage } } := by
  obtain ⟨hlayout, hpolicy', hpatience, -⟩ := h.continues
  exact ⟨⟨hlayout, hpolicy', hpatience, fun hdirect => by simp [hpolicy] at hdirect⟩, h.device⟩

/-- Staging a sector goes on with the store. -/
theorem loadSector_carried (hc : Carrier d₀.store.patience I bad)
    (hpolicy : d₀.store.policy = .staged) (h : d₀.Carried I d) (base : UInt32) :
    Meets (fun _ => d₀.Carried I) (Broken bad d₀) (loadSector base d) := by
  rw [loadSector, ask_bind]
  split
  · -- The sector that is staged now has to be written back first.
    apply Action.Meets.bind (flush_carried hc h)
    intro _ d₁ h₁
    apply Action.Meets.bind_of (ensureMapped_carried hc h₁) (fun _ _ => False.elim)
    intro _ d₂ h₂
    apply ofChecked_bind_meets h₂
    intro addr _
    rw [onDevice_ofStep_bind, update_apply]
    exact (h₂.readWindow hc addr sectorBytes.toNat).restage hpolicy _
  · exact h

/-- Staging blocks goes on with the store, block by block. -/
theorem stageEach_carried (hc : Carrier d₀.store.patience I bad)
    (hpolicy : d₀.store.policy = .staged) (h : d₀.Carried I d) (blocks : List (List UInt8))
    (lba : UInt32) :
    Meets (fun _ => d₀.Carried I) (Broken bad d₀) (stageEach lba blocks d) := by
  induction blocks generalizing lba d with
  | nil => exact h
  | cons block rest ih =>
    rw [stageEach, ask_bind]
    apply Action.Meets.bind (loadSector_carried hc hpolicy h _)
    intro _ d₁ h₁
    rw [update_bind]
    exact ih (h₁.restage hpolicy _) (lba + 1)

/-- Writing blocks at once goes on with the store. -/
theorem writeEach_carried (hc : Carrier d₀.store.patience I bad) (h : d₀.Carried I d)
    (lba : UInt32) (blocks : List (List UInt8)) :
    Meets (fun _ => d₀.Carried I) (Broken bad d₀) (writeEach lba blocks d) := by
  unfold writeEach
  apply Action.Meets.bind_of (enterCommand_carried hc h) (fun _ _ => False.elim)
  intro _ d₁ h₁
  rw [ask_bind]
  exact executeAll_carried hc h₁ _

/-! ## Requests -/

omit [Controller σ] [TickSource σ] in
/-- A request for some blocks is refused, or its work is done. -/
theorem checkRequest_bind_meets {α : Type} {count : UInt32} (hcount : count ≠ 0) {lba : UInt32}
    {room : Nat} {k : Unit → Action FlashError (Disk σ) α} {good : α → Disk σ → Prop}
    {fails : Fault FlashError → Disk σ → Prop}
    (hrefused : ∀ error, d.store.layout.refusal? lba count room = some error →
      fails (.refused error) d)
    (hk : d.store.layout.refusal? lba count room = none → Meets good fails (k () d)) :
    Meets good fails ((checkRequest lba count room >>= k) d) := by
  rw [Action.bind_apply, checkRequest_eq_refusal rfl hcount]
  cases hrefusal : d.store.layout.refusal? lba count room with
  | none => exact hk hrefusal
  | some error => exact hrefused error hrefusal

/-- A read is refused, answered or cut off by a trap; no command is sent for it. -/
theorem readBlocks_carried (hc : Carrier d.store.patience I bad) (h : I d.device)
    (buffer : List UInt8) (lba count : UInt32) :
    Meets (fun _ d' => d.store.layout.refusal? lba count buffer.length = none ∧ d.Carried I d')
      (fun fault d' => d.store.Continues d'.store ∧
        (Request.read buffer lba count).Fails d.store.layout bad fault)
      (readBlocks buffer lba count d) := by
  have hd : d.Carried I d := ⟨.refl _, h⟩
  rw [readBlocks]
  by_cases hcount : count = 0
  · rw [if_pos hcount]
    exact ⟨if_pos hcount, hd⟩
  · rw [if_neg hcount]
    apply checkRequest_bind_meets hcount
    · intro error hrefusal
      exact ⟨.refl _, .refused hrefusal⟩
    · intro hrefusal
      -- From here on only an address can fail.
      suffices hwork : Meets (fun _ => d.Carried I) (Broken (fun _ => False) d) _ from
        hwork.mono (fun _ _ h' => ⟨hrefusal, h'⟩) fun fault d' h' =>
          ⟨h'.continues, by obtain ⟨⟨⟩⟩ | ⟨cause, rfl⟩ := h'.cause; exact .trap⟩
      apply Action.Meets.bind_of (ensureMapped_carried hc hd) (fun _ _ => False.elim)
      intro _ d₁ h₁
      rw [ask_bind]
      apply ofChecked_bind_meets h₁
      intro addr _
      apply ofChecked_bind_meets h₁
      intro front _
      have hread := h₁.readWindow hc addr front.length
      rw [onDevice_ofStep_bind]
      apply ofChecked_bind_meets hread
      intro offset _
      rw [ask_bind]
      -- With a pending sector its bytes lie over those of the window.
      cases d₁.store.pending? with
      | none => exact hread
      | some sector =>
        apply ofChecked_bind_meets hread
        intro shown _
        exact hread

/-- A write is refused for its blocks, answered, or fails with one of its commands or by a trap. -/
theorem writeBlocks_carried (hc : Carrier d.store.patience I bad) (h : I d.device)
    (source : List UInt8) (lba count : UInt32) :
    Meets (fun _ d' => d.store.layout.refusal? lba count source.length = none ∧ d.Carried I d')
      (fun fault d' => d.store.Continues d'.store ∧
        (Request.write source lba count).Fails d.store.layout bad fault)
      (writeBlocks source lba count d) := by
  have hd : d.Carried I d := ⟨.refl _, h⟩
  by_cases hcount : count = 0
  · rw [writeBlocks, if_pos hcount]
    exact ⟨if_pos hcount, hd⟩
  cases hrefusal : d.store.layout.refusal? lba count source.length with
  | some error =>
    rw [writeBlocks_of_refusal hrefusal]
    exact ⟨.refl _, .refused hrefusal⟩
  | none =>
    -- The blocks are those of the region, so that whatever fails does so later.
    suffices hwork : Meets (fun _ => d.Carried I) (Broken bad d)
        (writeBlocks source lba count d) from
      hwork.mono (fun _ _ h' => ⟨rfl, h'⟩) fun fault d' h' => ⟨h'.continues, by
        obtain hbad | ⟨cause, rfl⟩ := h'.cause
        · exact .command hrefusal True.intro hbad
        · exact .trap⟩
    rw [writeBlocks_of_accepted hcount hrefusal]
    cases hpolicy : d.store.policy with
    | onSectorStart => exact writeEach_carried hc hd lba _
    | staged => exact stageEach_carried hc hpolicy hd _ lba

/-- **Any request.** It is answered as its kind has it and has kept the property of the device, or
it fails in one of three ways. -/
theorem serve_carried (hc : Carrier d.store.patience I bad) (h : I d.device) (request : Request) :
    Meets
      (fun answer d' => request.refusal? d.store.layout = none ∧ request.IsAnswer answer ∧
        d.Carried I d')
      (fun fault d' => d.store.Continues d'.store ∧ request.Fails d.store.layout bad fault)
      (serve request d) := by
  cases request with
  | read buffer lba count =>
    apply Action.Meets.bind (readBlocks_carried hc h buffer lba count)
    intro bytes d' h'
    exact ⟨h'.1, ⟨bytes, rfl⟩, h'.2⟩
  | write source lba count =>
    apply Action.Meets.bind (writeBlocks_carried hc h source lba count)
    intro _ d' h'
    exact ⟨h'.1, rfl, h'.2⟩
  | flush =>
    -- A flush is never refused for its blocks.
    apply Action.Meets.bind_of (flush_carried hc ⟨.refl _, h⟩)
    · intro fault d' h'
      refine ⟨h'.continues, ?_⟩
      obtain hbad | ⟨cause, rfl⟩ := h'.cause
      · exact .command rfl True.intro hbad
      · exact .trap
    · intro _ d' h'
      exact ⟨rfl, rfl, h'⟩

end Disk

end NorDisk
