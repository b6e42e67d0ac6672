import NorDisk.Proofs.BenchWaits
import NorDisk.Proofs.Discipline

/-!
# Requests that succeed

A write inside the region and a flush fail for one reason only: a wait on the device is given up. So
on a device on which that never happens they are answered. Nothing has to be known about the device
for that but a property that the operations of a disk keep, and under which every command is seen
through.

* **`NeverStalls`** — a device with such a property; a device that answers like it has one too.
* **`Disk.StageFits`** — the staged sector is one of the region, as it is wherever a run ends
  (`Disk.runAll_stageFits`).
* **`Disk.writeBlocks_answered`**, **`Disk.flush_answered`** — the two requests.
-/

namespace NorDisk

open Outcome

/-- What agrees with itself and is not refused gives a value. -/
theorem Outcome.ok_of_agree {ε σ α : Type} {R : σ → σ → Prop} {r : Outcome ε σ α}
    (h : Agree Fault.IsRefusal R (fun _ => R) r r) (hr : ∀ e s, r ≠ .error (.refused e) s) :
    ∃ a s, r = .ok a s ∧ R s s := by
  match r, h with
  | .ok a s, h => exact ⟨a, s, rfl, h.2⟩
  | .error (.refused e) s, _ => exact absurd rfl (hr e s)
  | .error (.trap _) _, h => exact absurd h.2.1 id

variable {σ τ : Type} [Controller σ] [TickSource σ] [Controller τ] [TickSource τ]
  {patience : Patience}

/-- Where no command fails, the device is in lockstep with itself. -/
theorem Carrier.lockstep {I : σ → Prop} (h : Carrier patience I fun _ => False) (l : Layout) :
    Lockstep l patience Fault.IsRefusal fun _ s t => s = t ∧ I s where
  refusal _ := True.intro
  enterMapped hst := ⟨congrArg _ hst.1, h.enterMapped _ hst.2⟩
  enterCommand hst := ⟨congrArg _ hst.1, h.enterCommand _ hst.2⟩
  readMapped _ _ _ hst := ⟨by rw [hst.1], by rw [hst.1], h.readMapped _ _ _ hst.2⟩
  execute := by
    intro command s _ _ hst
    obtain ⟨rfl, hI⟩ := hst
    obtain ⟨_, s', hexecute, hI'⟩ := (h.execute command s hI).ok fun _ _ => id
    rw [hexecute]
    exact ⟨rfl, rfl, hI'⟩

/-- No wait on the device is ever given up: what a disk does to it keeps some property under which
every command is seen through. -/
def NeverStalls (patience : Patience) (s : σ) : Prop :=
  ∃ I : σ → Prop, Carrier patience I (fun _ => False) ∧ I s

namespace NeverStalls

/-- A device that cannot be told from one that never stalls never stalls. -/
theorem of_bisimulation {R : σ → τ → Prop} (h : Bisimulation R) {s : σ} {t : τ} (hst : R s t)
    (ht : NeverStalls patience t) : NeverStalls patience s := by
  obtain ⟨I, hc, hI⟩ := ht
  -- The property of the one device is that some related state of the other one has its.
  refine ⟨fun s => ∃ t, R s t ∧ I t, ⟨?_, ?_, ?_, ?_⟩, t, hst, hI⟩
  · rintro s ⟨t, hst, hI⟩
    exact ⟨_, h.enterMapped hst, hc.enterMapped t hI⟩
  · rintro s ⟨t, hst, hI⟩
    exact ⟨_, h.enterCommand hst, hc.enterCommand t hI⟩
  · rintro addr len s ⟨t, hst, hI⟩
    exact ⟨_, (h.readMapped addr len hst).2, hc.readMapped addr len t hI⟩
  · rintro command s ⟨t, hst, hI⟩
    exact ((h.execute_agree patience command hst).meets (hc.execute command t hI)).mono
      (fun _ _ h' => h') fun _ _ h' => h'.choose_spec.2

/-- A device whose calls are counted never stalls if it does not without. -/
theorem traced {s : Traced σ} (h : NeverStalls patience s.inner) : NeverStalls patience s :=
  .of_bisimulation Traced.transparent rfl h

end NeverStalls

/-- The bench of a part whose clock is the one of a bench. -/
def Timed.bench (s : Timed StepClock) : Bench NorPart := ⟨s.part, s.ticks⟩

/-- A part next to a clock answers as the bench with the two does. -/
theorem Timed.bench_bisimulation :
    Bisimulation fun (s : Timed StepClock) (b : Bench NorPart) => s.bench = b where
  enterMapped h := congrArg Controller.enterMapped h
  enterCommand h := congrArg Controller.enterCommand h
  issue := by
    rintro command s _ rfl
    cases command <;> rfl
  isBusy := by
    rintro s _ rfl
    exact ⟨rfl, rfl⟩
  now := by
    rintro s _ rfl
    exact ⟨rfl, rfl⟩
  readMapped := by
    rintro addr len s _ rfl
    exact ⟨rfl, rfl⟩

/-- A healthy part never stalls. -/
theorem Bench.Healthy.neverStalls {polls : Nat} {s : Timed StepClock}
    (h : s.bench.Healthy patience polls) : NeverStalls patience s :=
  .of_bisimulation Timed.bench_bisimulation rfl ⟨_, Bench.healthy_carrier patience polls, h⟩

namespace Disk

variable {I : σ → Prop} {d : Disk σ} {lba count : UInt32}

/-- The staged sector is one of the region. -/
def StageFits (d : Disk σ) : Prop := ∀ s, d.store.stage = some s → s.Fits d.store.layout

omit [Controller σ] [TickSource σ] in
/-- A fresh disk stages nothing. -/
theorem fresh_stageFits {l : Layout} (hv : l.Valid) (policy : ErasePolicy) (patience : Patience)
    (device : σ) : (fresh l hv policy patience device).StageFits := nofun

/-- The stage fits wherever a run of a fresh disk ends. -/
theorem runAll_stageFits {ω : Type} {l : Layout} (hv : l.Valid) (hw : l.WindowFits)
    (policy : ErasePolicy) (patience : Patience) (act : ω → σ → σ) (device : σ)
    (events : List (Event Request ω)) :
    (state (runAll serve (world act) events (fresh l hv policy patience device))).StageFits := by
  have hlock : Lockstep l patience (fun _ => True) fun _ (s t : σ) => s = t ∧ True :=
    .ofInvariant (fun h => h) (fun h => h) (fun _ h => h) fun h => h
  have hpaired := runAll_paired hv hw policy hlock act (fun _ _ _ h => h) device True.intro events
  intro s hs
  rw [hpaired.layout_eq]
  exact hpaired.stage_fits s hs

omit [Controller σ] [TickSource σ] in
/-- An action that can only fail on the device, and is in lockstep with itself, succeeds. -/
theorem answered_of {act : Action FlashError (Disk σ) Unit}
    (hagree : Agree Fault.IsRefusal
      (Paired d.store.layout d.store.patience fun _ s t => s = t ∧ I s)
      (fun _ => Paired d.store.layout d.store.patience fun _ s t => s = t ∧ I s) (act d) (act d))
    (hcarried : Meets (fun _ => d.Carried I) (Broken (fun _ => False) d) (act d)) :
    ∃ d', act d = .ok () d' ∧ d.Carried I d' ∧ d'.StageFits := by
  -- A refusal would be one of a command, of which there is none; a trap is excluded by the
  -- agreement.
  obtain ⟨_, d', hact, hpaired⟩ := ok_of_agree hagree fun e s hact => by
    rw [hact] at hcarried
    obtain hbad | ⟨cause, hcause⟩ := hcarried.cause
    · exact hbad
    · exact nomatch hcause
  rw [hact] at hcarried
  refine ⟨d', hact, hcarried, fun s hs => ?_⟩
  rw [hpaired.layout_eq]
  exact hpaired.stage_fits s hs

/-- **A flush succeeds** where no command fails. -/
theorem flush_answered (hc : Carrier d.store.patience I fun _ => False) (hI : I d.device)
    (hfits : d.StageFits) : ∃ d', flush d = .ok () d' ∧ d.Carried I d' ∧ d'.StageFits :=
  answered_of (flush_agree (hc.lockstep _) ⟨rfl, rfl, rfl, hfits, rfl, hI⟩)
    (flush_carried hc ⟨.refl _, hI⟩)

/-- Writing blocks at once succeeds where no command fails, and needs no stage. -/
theorem writeEach_answered (hc : Carrier d.store.patience I fun _ => False) (hI : I d.device)
    (lba : UInt32) (blocks : List (List UInt8)) :
    ∃ d', writeEach lba blocks d = .ok () d' ∧
      d'.store = { d.store with mode := .command } ∧ I d'.device := by
  obtain ⟨_, d', hwrite, h'⟩ := (onDevice_meets (d := ⟨{ d.store with mode := .command },
    Controller.enterCommand d.device⟩) (deviceExecuteAll_carried hc
      (d.store.layout.writes lba blocks) (hc.enterCommand _ hI))).ok fun _ _ h' => h'.2
  rw [writeEach_eq]
  exact ⟨d', hwrite, h'⟩

/-- **A write that is not refused succeeds.** Only a staged one depends on the stage, and on a
window that fits the address space. -/
theorem writeBlocks_answered (hc : Carrier d.store.patience I fun _ => False) (hI : I d.device)
    {source : List UInt8} (haccepted : d.store.layout.refusal? lba count source.length = none)
    (hstaged : d.store.policy = .staged → d.store.layout.WindowFits ∧ d.StageFits) :
    ∃ d', writeBlocks source lba count d = .ok () d' ∧ d.Carried I d' ∧
      (d.StageFits → d'.StageFits) := by
  by_cases hcount : count = 0
  · subst hcount
    exact ⟨d, rfl, ⟨.refl _, hI⟩, id⟩
  obtain ⟨-, hrange, hroom⟩ := Layout.of_refusal?_eq_none hcount haccepted
  have hblocks : lba.toNat + (Bytes.pieces 256 count.toNat source).length ≤
      d.store.layout.blocks := by
    rwa [Bytes.length_pieces]
  rw [writeBlocks_of_accepted hcount haccepted]
  cases hpolicy : d.store.policy with
  | onSectorStart =>
    obtain ⟨d', hwrite, hstore, hI'⟩ := writeEach_answered hc hI lba _
    refine ⟨d', hwrite, ⟨?_, hI'⟩, ?_⟩
    · rw [hstore]
      exact ⟨rfl, rfl, rfl, fun _ h => h⟩
    · intro hfits
      rw [StageFits, hstore]
      exact hfits
  | staged =>
    -- Staged blocks go through the window and the stage.
    obtain ⟨hw, hfits⟩ := hstaged hpolicy
    obtain ⟨d', hwrite, hcarried, hfits'⟩ := answered_of
      (stageEach_agree (hc.lockstep _) hw ⟨rfl, rfl, rfl, hfits, rfl, hI⟩ hblocks)
      (stageEach_carried hc hpolicy ⟨.refl _, hI⟩ _ lba)
    exact ⟨d', hwrite, hcarried, fun _ => hfits'⟩

end Disk

end NorDisk
