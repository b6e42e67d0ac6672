import NorDisk.Proofs.SectorRuns

/-!
# Two disks in lockstep

Of its device a disk asks four things only: to serve the window, to serve commands, to execute a
command, and to answer a read of the window. It executes commands only while commands are served,
reads only while the window is, and does both only inside its region. So a relation between two
devices that is kept by these four (`Lockstep`) is kept by every request, and the two disks give the
same replies (`serve_agree`).

A relation that holds of a device and itself is an invariant: `Lockstep.ofInvariant` turns one into
a lockstep, and `serve_agree` then says that every request keeps it. A relation that every single
primitive keeps is a `Bisimulation`, and a lockstep as well.
-/

namespace NorDisk

open Outcome

variable {σ τ : Type} [Controller σ] [TickSource σ] [Controller τ] [TickSource τ]

/-- A relation between devices, indexed by the mode that is served, which the four operations of a
disk keep; `allowed` are the faults that they may end with. -/
structure Lockstep (l : Layout) (patience : Patience) (allowed : Fault FlashError → Prop)
    (R : Mode → σ → τ → Prop) : Prop where
  refusal : ∀ error, allowed (.refused error)
  enterMapped : ∀ {mode s t}, R mode s t →
    R .mapped (Controller.enterMapped s) (Controller.enterMapped t)
  enterCommand : ∀ {mode s t}, R mode s t →
    R .command (Controller.enterCommand s) (Controller.enterCommand t)
  execute : ∀ {command : Command} {s t}, command.Within l → R .command s t →
    Agree allowed (R .command) (fun _ => R .command) (Controller.execute patience command s)
      (Controller.execute patience command t)
  readMapped : ∀ {addr : UInt32} {start len : Nat} {s t},
    addr.toNat = windowBase.toNat + start → l.regionBase.toNat ≤ start →
    start + len ≤ l.flashBytes.toNat → R .mapped s t →
    (Controller.readMapped addr len s).1 = (Controller.readMapped addr len t).1 ∧
      R .mapped (Controller.readMapped addr len s).2 (Controller.readMapped addr len t).2

/-- An invariant of one device is a lockstep of the device with itself. -/
theorem Lockstep.ofInvariant {l : Layout} {patience : Patience} {I : Mode → σ → Prop}
    (hmapped : ∀ {mode s}, I mode s → I .mapped (Controller.enterMapped s))
    (hcommand : ∀ {mode s}, I mode s → I .command (Controller.enterCommand s))
    (hexecute : ∀ {command : Command} {s}, command.Within l → I .command s →
      I .command (state (Controller.execute patience command s)))
    (hread : ∀ {addr len s}, I .mapped s → I .mapped (Controller.readMapped addr len s).2) :
    Lockstep l patience (fun _ => True) fun mode s t => s = t ∧ I mode s where
  refusal _ := trivial
  enterMapped := by rintro mode s _ ⟨rfl, h⟩; exact ⟨rfl, hmapped h⟩
  enterCommand := by rintro mode s _ ⟨rfl, h⟩; exact ⟨rfl, hcommand h⟩
  execute := by
    rintro command s _ hwithin ⟨rfl, h⟩
    -- Both sides are the same run, so only what it leaves is at stake.
    have hkept := hexecute hwithin h
    match Controller.execute patience command s, hkept with
    | .ok a s', hkept => exact ⟨rfl, rfl, hkept⟩
    | .error fault s', hkept => exact ⟨rfl, trivial, rfl, hkept⟩
  readMapped := by rintro addr start len s _ - - - ⟨rfl, h⟩; exact ⟨rfl, rfl, hread h⟩

/-- A relation between devices that every primitive keeps, while all that a disk sees of the devices
is the same. -/
structure Bisimulation (R : σ → τ → Prop) : Prop where
  enterMapped : ∀ {s t}, R s t → R (Controller.enterMapped s) (Controller.enterMapped t)
  enterCommand : ∀ {s t}, R s t → R (Controller.enterCommand s) (Controller.enterCommand t)
  issue : ∀ command {s t}, R s t → R (Controller.issue command s) (Controller.issue command t)
  isBusy : ∀ {s t}, R s t → (Controller.isBusy s).1 = (Controller.isBusy t).1 ∧
    R (Controller.isBusy s).2 (Controller.isBusy t).2
  now : ∀ {s t}, R s t → (TickSource.now s).1 = (TickSource.now t).1 ∧
    R (TickSource.now s).2 (TickSource.now t).2
  readMapped : ∀ addr len {s t}, R s t →
    (Controller.readMapped addr len s).1 = (Controller.readMapped addr len t).1 ∧
      R (Controller.readMapped addr len s).2 (Controller.readMapped addr len t).2

namespace Bisimulation

variable {R : σ → τ → Prop} {s : σ} {t : τ}

/-- Bisimilar devices are polled alike. -/
theorem pollIdle_agree (h : Bisimulation R) (timeout offset start : UInt32) (polls : Nat)
    (hst : R s t) :
    Agree (fun _ => True) R (fun _ => R) (Controller.pollIdle timeout offset start polls s)
      (Controller.pollIdle timeout offset start polls t) := by
  induction polls generalizing s t with
  | zero => exact ⟨rfl, trivial, hst⟩
  | succ polls ih =>
    obtain ⟨hanswer, hpolled⟩ := h.isBusy hst
    obtain ⟨hnow, hread⟩ := h.now hpolled
    rw [Controller.pollIdle, Controller.pollIdle, Action.ofStep_bind, Action.ofStep_bind, ← hanswer]
    cases (Controller.isBusy s).1 with
    | false => exact ⟨rfl, hpolled⟩
    | true =>
      rw [if_pos rfl, if_pos rfl, Action.ofStep_bind, Action.ofStep_bind, Action.ite_apply,
        Action.ite_apply, ← hnow]
      -- Both answer busy at one time, so both are given up or neither is.
      split
      · exact ⟨rfl, trivial, hread⟩
      · exact ih hread

/-- Bisimilar devices wait alike. -/
theorem waitIdle_agree (h : Bisimulation R) (patience : Patience) (offset : UInt32) (hst : R s t) :
    Agree (fun _ => True) R (fun _ => R) (Controller.waitIdle patience offset s)
      (Controller.waitIdle patience offset t) := by
  obtain ⟨hnow, hread⟩ := h.now hst
  rw [Controller.waitIdle, Controller.waitIdle, Action.ofStep_bind, Action.ofStep_bind, ← hnow]
  exact h.pollIdle_agree _ _ _ _ hread

/-- A command goes through on both, or fails on both in the same wait. -/
theorem execute_agree (h : Bisimulation R) (patience : Patience) (command : Command)
    (hst : R s t) :
    Agree (fun _ => True) R (fun _ => R) (Controller.execute patience command s)
      (Controller.execute patience command t) := by
  apply Action.Agree.bind (h.waitIdle_agree patience command.offset hst)
  intro _ s₁ t₁ hst₁
  rw [Action.ofUpdate_bind, Action.ofUpdate_bind]
  exact h.waitIdle_agree patience command.offset (h.issue command hst₁)

/-- Bisimilar devices execute a list of commands alike. -/
theorem executeAll_agree (h : Bisimulation R) (patience : Patience) (commands : List Command)
    (hst : R s t) :
    Agree (fun _ => True) R (fun _ => R) (Controller.executeAll patience commands s)
      (Controller.executeAll patience commands t) := by
  induction commands generalizing s t with
  | nil => exact ⟨rfl, hst⟩
  | cons command rest ih =>
    exact Action.Agree.bind (h.execute_agree patience command hst) fun _ _ _ hst' => ih hst'

/-- Bisimilar devices are in lockstep, in any mode and inside any region. -/
theorem lockstep (h : Bisimulation R) (l : Layout) (patience : Patience) :
    Lockstep l patience (fun _ => True) fun _ => R where
  refusal _ := trivial
  enterMapped := h.enterMapped
  enterCommand := h.enterCommand
  execute _ := h.execute_agree patience _
  readMapped _ _ _ := h.readMapped _ _

end Bisimulation

namespace StagedSector

variable {l : Layout} {s : StagedSector}

/-- Whether a sector fits depends on its place only. -/
theorem Fits.of_base_eq {t : StagedSector} (h : s.Fits l) (hbase : t.base = s.base) : t.Fits l := by
  obtain ⟨hmod, hlow, hhigh⟩ := h
  rw [← hbase] at hmod hlow hhigh
  exact ⟨hmod, hlow, hhigh⟩

/-- New blocks do not move a sector. -/
theorem Fits.put (h : s.Fits l) (i : Fin 16) (block : List UInt8) : (s.put i block).Fits l :=
  h.of_base_eq (base_put i block s)

/-- Sectors staged from the same bytes are the same. -/
theorem ofBytes_congr {base : UInt32} {bytes bytes' : List UInt8} (h : bytes = bytes')
    (hlength : bytes.length = 4096) (hlength' : bytes'.length = 4096) :
    ofBytes base bytes hlength = ofBytes base bytes' hlength' := by
  subst h
  rfl

/-- A sector that fits a layout ends inside the address space, as the part does. -/
theorem Fits.base_lt (h : s.Fits l) : s.base.toNat + 4096 < 0x100000000 := by
  have hend := h.base_add_le
  have hflash := l.flashBytes.toNat_lt
  omega

end StagedSector

namespace Disk

variable {l : Layout} {patience : Patience} {allowed : Fault FlashError → Prop}
  {R : Mode → σ → τ → Prop}

/-- Two disks with one store and related devices. -/
structure Paired (l : Layout) (patience : Patience) (R : Mode → σ → τ → Prop) (d : Disk σ)
    (e : Disk τ) : Prop where
  store_eq : d.store = e.store
  layout_eq : d.store.layout = l
  patience_eq : d.store.patience = patience
  stage_fits : ∀ s, d.store.stage = some s → s.Fits l
  device : R d.store.mode d.device e.device

variable {d : Disk σ} {e : Disk τ}

omit [Controller σ] [TickSource σ] [Controller τ] [TickSource τ] in
/-- The layout of paired disks is a valid one. -/
theorem Paired.valid (h : Paired l patience R d e) : l.Valid := h.layout_eq ▸ d.store.layout_valid

omit [Controller σ] [TickSource σ] [Controller τ] [TickSource τ] in
/-- Disks that stage the same sector stay paired. -/
theorem Paired.restage (h : Paired l patience R d e) {stage stage' : Option StagedSector}
    (heq : stage = stage') (hfits : ∀ s, stage = some s → s.Fits l) :
    Paired l patience R { d with store := { d.store with stage } }
      { e with store := { e.store with stage := stage' } } := by
  subst heq
  exact ⟨by rw [h.store_eq], h.layout_eq, h.patience_eq, hfits, h.device⟩

/-- Switching to commands keeps disks paired. -/
theorem enterCommand_agree (h : Lockstep l patience allowed R) (hd : Paired l patience R d e) :
    Agree allowed (Paired l patience R)
      (fun _ d' e' => Paired l patience R d' e' ∧ d'.store.mode = .command)
      (enterCommand d) (enterCommand e) :=
  ⟨rfl, ⟨by rw [hd.store_eq], hd.layout_eq, hd.patience_eq, hd.stage_fits,
    h.enterCommand hd.device⟩, rfl⟩

/-- Both disks switch, or neither has to. -/
theorem ensureCommand_agree (h : Lockstep l patience allowed R) (hd : Paired l patience R d e) :
    Agree allowed (Paired l patience R)
      (fun _ d' e' => Paired l patience R d' e' ∧ d'.store.mode = .command)
      (ensureCommand d) (ensureCommand e) := by
  rw [ensureCommand, ensureCommand, ask_bind, ask_bind, ← hd.store_eq]
  by_cases hmode : d.store.mode = .command
  · rw [if_neg (not_not_intro hmode), if_neg (not_not_intro hmode)]
    exact ⟨rfl, hd, hmode⟩
  · rw [if_pos hmode, if_pos hmode]
    exact enterCommand_agree h hd

/-- Both disks open their windows, or neither has to. -/
theorem ensureMapped_agree (h : Lockstep l patience allowed R) (hd : Paired l patience R d e) :
    Agree allowed (Paired l patience R)
      (fun _ d' e' => Paired l patience R d' e' ∧ d'.store.mode = .mapped)
      (ensureMapped d) (ensureMapped e) := by
  rw [ensureMapped, ensureMapped, ask_bind, ask_bind, ← hd.store_eq]
  by_cases hmode : d.store.mode = .mapped
  · rw [if_neg (not_not_intro hmode), if_neg (not_not_intro hmode)]
    exact ⟨rfl, hd, hmode⟩
  · rw [if_pos hmode, if_pos hmode]
    exact ⟨rfl, ⟨by rw [hd.store_eq], hd.layout_eq, hd.patience_eq, hd.stage_fits,
      h.enterMapped hd.device⟩, rfl⟩

/-- Devices agree on a list of commands within the region. -/
theorem deviceExecuteAll_agree (h : Lockstep l patience allowed R) {commands : List Command}
    (hwithin : ∀ command ∈ commands, command.Within l) {s : σ} {t : τ} (hst : R .command s t) :
    Agree allowed (R .command) (fun _ => R .command) (Controller.executeAll patience commands s)
      (Controller.executeAll patience commands t) := by
  induction commands generalizing s t with
  | nil => exact ⟨rfl, hst⟩
  | cons command rest ih =>
    refine Action.Agree.bind (h.execute (hwithin command List.mem_cons_self) hst) ?_
    intro _ s' t' hst'
    exact ih (fun c hc => hwithin c (List.mem_cons_of_mem _ hc)) hst'

/-- Paired disks execute commands within the region alike. -/
theorem executeAll_agree (h : Lockstep l patience allowed R) (hd : Paired l patience R d e)
    (hmode : d.store.mode = .command) {commands : List Command}
    (hwithin : ∀ command ∈ commands, command.Within l) :
    Agree allowed (Paired l patience R) (fun _ => Paired l patience R)
      (executeAll commands d) (executeAll commands e) := by
  rw [executeAll, executeAll, ask_bind, ask_bind, ← hd.store_eq, hd.patience_eq]
  have hdevice : R .command d.device e.device := hmode ▸ hd.device
  -- Whatever the devices do, the stores stay as they were.
  have paired (d' : Disk σ) (e' : Disk τ) (hd' : d'.store = d.store) (he' : e'.store = e.store)
      (hR : R .command d'.device e'.device) : Paired l patience R d' e' := by
    refine ⟨hd'.trans (hd.store_eq.trans he'.symm), hd' ▸ hd.layout_eq, hd' ▸ hd.patience_eq,
      hd' ▸ hd.stage_fits, ?_⟩
    rw [hd', hmode]
    exact hR
  exact (onDevice_agree (deviceExecuteAll_agree h hwithin hdevice)).mono
    (fun _ d' e' h' => paired d' e' h'.1 h'.2.1 h'.2.2)
    (fun d' e' h' => paired d' e' h'.1 h'.2.1 h'.2.2)

/-- A sector with pending writes is the staged one. -/
theorem stage_of_pending {store : Store} {s : StagedSector} (h : store.pending? = some s) :
    store.stage = some s :=
  (Option.filter_eq_some_iff.mp h).1

/-- Paired disks write back alike. -/
theorem flush_agree (h : Lockstep l patience allowed R) (hd : Paired l patience R d e) :
    Agree allowed (Paired l patience R) (fun _ => Paired l patience R) (flush d) (flush e) := by
  rw [flush, flush, ask_bind, ask_bind, ← hd.store_eq]
  cases hpending : d.store.pending? with
  | none => exact ⟨rfl, hd⟩
  | some s =>
    have hfits := hd.stage_fits s (stage_of_pending hpending)
    refine Action.Agree.bind (ensureCommand_agree h hd) ?_
    rintro - d₁ e₁ ⟨hd₁, hmode₁⟩
    -- The staged sector is one of the region, so listing its commands does not trap.
    rw [StagedSector.commands_eq hfits, Action.ofChecked_bind, Action.ofChecked_bind]
    refine Action.Agree.bind (executeAll_agree h hd₁ hmode₁
      fun command hmem => (StagedSector.of_mem_writeBack hfits hmem).1) ?_
    intro _ d₂ e₂ hd₂
    rw [update_apply, update_apply]
    refine ⟨rfl, hd₂.restage rfl ?_⟩
    -- The sector that was written back stays staged, without pending writes.
    rintro _ ⟨⟩
    exact hfits.of_base_eq rfl

/-- Offset of a sector of the region. -/
def IsSector (l : Layout) (base : UInt32) : Prop :=
  base.toNat % 4096 = 0 ∧ l.regionBase.toNat ≤ base.toNat ∧
    base.toNat + 4096 ≤ l.flashBytes.toNat

/-- The sector of a block of the region is a sector of the region. -/
theorem isSector_sectorBase (hv : l.Valid) {lba : UInt32} (hlba : lba.toNat < l.blocks) :
    IsSector l (sectorBase (l.offset lba)) := by
  have hmod := hv.regionBase_mod
  have hstart := Layout.toNat_sectorBase_offset hv hlba
  unfold Layout.blockOffset at hstart
  exact ⟨by omega, by omega, Layout.sectorBase_offset_le hv hlba⟩

/-- An offset in the part has an address in the window. -/
theorem windowAddr_eq (hw : l.WindowFits) (offset : UInt32)
    (h : offset.toNat < l.flashBytes.toNat) :
    Checked.add windowBase offset = .ok (windowBase + offset) ∧
      (windowBase + offset).toNat = windowBase.toNat + offset.toNat := by
  unfold Layout.WindowFits at hw
  refine ⟨Checked.add_eq_ok (by omega), ?_⟩
  rw [UInt32.toNat_add]
  omega

/-- A read of the window inside the region gives both disks the same bytes. -/
theorem readWindow_agree (h : Lockstep l patience allowed R) (hd : Paired l patience R d e)
    (hmode : d.store.mode = .mapped) {addr : UInt32} {start len : Nat}
    (haddr : addr.toNat = windowBase.toNat + start) (hlow : l.regionBase.toNat ≤ start)
    (hhigh : start + len ≤ l.flashBytes.toNat) :
    (Controller.readMapped addr len d.device).1 = (Controller.readMapped addr len e.device).1 ∧
      Paired l patience R ⟨d.store, (Controller.readMapped addr len d.device).2⟩
        ⟨e.store, (Controller.readMapped addr len e.device).2⟩ := by
  obtain ⟨hbytes, hread⟩ := h.readMapped haddr hlow hhigh (hmode ▸ hd.device)
  refine ⟨hbytes, hd.store_eq, hd.layout_eq, hd.patience_eq, hd.stage_fits, ?_⟩
  show R d.store.mode _ _
  rw [hmode]
  exact hread

/-- Paired disks stage the same sector. -/
theorem loadSector_agree (h : Lockstep l patience allowed R) (hw : l.WindowFits)
    (hd : Paired l patience R d e) {base : UInt32} (hbase : IsSector l base) :
    Agree allowed (Paired l patience R) (fun _ => Paired l patience R)
      (loadSector base d) (loadSector base e) := by
  obtain ⟨hmod, hlow, hhigh⟩ := hbase
  rw [loadSector, loadSector, ask_bind, ask_bind, ← hd.store_eq]
  by_cases hstaged : d.store.stage.map (·.base) = some base
  · rw [if_neg (not_not_intro hstaged), if_neg (not_not_intro hstaged)]
    exact ⟨rfl, hd⟩
  · rw [if_pos hstaged, if_pos hstaged]
    -- Another sector has to make way: it is written back before the new one is read.
    refine Action.Agree.bind (flush_agree h hd) ?_
    intro _ d₁ e₁ hd₁
    refine Action.Agree.bind (ensureMapped_agree h hd₁) ?_
    rintro - d₂ e₂ ⟨hd₂, hmode₂⟩
    obtain ⟨hadd, haddr⟩ := windowAddr_eq hw base (by omega)
    obtain ⟨hbytes, hd₃⟩ := readWindow_agree h hd₂ hmode₂ haddr hlow hhigh
    rw [hadd, Action.ofChecked_bind, Action.ofChecked_bind, onDevice_ofStep_bind,
      onDevice_ofStep_bind, update_apply, update_apply]
    -- Both disks stage the same bytes.
    refine ⟨rfl, hd₃.restage ?_ ?_⟩
    · exact congrArg some (StagedSector.ofBytes_congr hbytes _ _)
    · rintro _ ⟨⟩
      exact ⟨hmod, hlow, hhigh⟩

/-- Paired disks stage blocks of the region alike. -/
theorem stageEach_agree (h : Lockstep l patience allowed R) (hw : l.WindowFits)
    (hd : Paired l patience R d e) {blocks : List (List UInt8)} {lba : UInt32}
    (hrange : lba.toNat + blocks.length ≤ l.blocks) :
    Agree allowed (Paired l patience R) (fun _ => Paired l patience R)
      (stageEach lba blocks d) (stageEach lba blocks e) := by
  induction blocks generalizing lba d e with
  | nil => exact ⟨rfl, hd⟩
  | cons block rest ih =>
    rw [List.length_cons] at hrange
    have hlba : lba.toNat < l.blocks := by omega
    obtain ⟨-, hnext⟩ := Layout.add_one_eq hlba
    have hrest : (lba + 1).toNat + rest.length ≤ l.blocks := by omega
    rw [stageEach, stageEach, ask_bind, ask_bind, ← hd.store_eq, hd.layout_eq]
    refine Action.Agree.bind (loadSector_agree h hw hd (isSector_sectorBase hd.valid hlba)) ?_
    intro _ d₁ e₁ hd₁
    rw [update_bind, update_bind]
    -- The block goes into the staged sector; that keeps it a sector of the region.
    refine ih (hd₁.restage (by rw [hd₁.store_eq]) ?_) hrest
    intro s hs
    obtain ⟨s₁, hs₁, rfl⟩ := Option.map_eq_some_iff.mp hs
    exact (hd₁.stage_fits s₁ hs₁).put _ block

/-- Paired disks write blocks of the region at once alike. -/
theorem writeEach_agree (h : Lockstep l patience allowed R) (hd : Paired l patience R d e)
    {blocks : List (List UInt8)} {lba : UInt32} (hrange : lba.toNat + blocks.length ≤ l.blocks)
    (hlength : ∀ block ∈ blocks, block.length = 256) :
    Agree allowed (Paired l patience R) (fun _ => Paired l patience R)
      (writeEach lba blocks d) (writeEach lba blocks e) := by
  unfold writeEach
  refine Action.Agree.bind (enterCommand_agree h hd) ?_
  rintro - d₁ e₁ ⟨hd₁, hmode₁⟩
  rw [ask_bind, ask_bind, ← hd₁.store_eq, hd₁.layout_eq]
  exact executeAll_agree h hd₁ hmode₁
    fun command hmem => Layout.within_of_mem_writes hd.valid hrange hlength hmem

/-- Paired disks serve a write alike, under either policy. -/
theorem writeBlocks_agree (h : Lockstep l patience allowed R) (hw : l.WindowFits)
    (hd : Paired l patience R d e) (source : List UInt8) (lba count : UInt32) :
    Agree allowed (Paired l patience R) (fun _ => Paired l patience R)
      (writeBlocks source lba count d) (writeBlocks source lba count e) := by
  by_cases hcount : count = 0
  · rw [writeBlocks, writeBlocks, if_pos hcount, if_pos hcount]
    exact ⟨rfl, hd⟩
  cases hrefusal : l.refusal? lba count source.length with
  | some error =>
    rw [writeBlocks_of_refusal (hd.layout_eq ▸ hrefusal),
      writeBlocks_of_refusal (hd.store_eq ▸ hd.layout_eq ▸ hrefusal)]
    exact ⟨rfl, h.refusal _, hd⟩
  | none =>
    obtain ⟨-, hrange, hroom⟩ := Layout.of_refusal?_eq_none hcount hrefusal
    have hlength := Bytes.length_pieces 256 count.toNat source
    rw [writeBlocks_of_accepted hcount (hd.layout_eq ▸ hrefusal),
      writeBlocks_of_accepted hcount (hd.store_eq ▸ hd.layout_eq ▸ hrefusal), ← hd.store_eq]
    cases d.store.policy with
    | onSectorStart =>
      exact writeEach_agree h hd (by rwa [hlength])
        fun _ => Bytes.length_of_mem_pieces hroom
    | staged => exact stageEach_agree h hw hd (by rwa [hlength])

omit [Controller σ] [TickSource σ] [Controller τ] [TickSource τ] in
/-- No staged sector of paired disks reaches past the address space. -/
theorem Paired.stageWhole (h : Paired l patience R d e) : d.StageWhole ∧ e.StageWhole := by
  have hwhole : d.StageWhole := fun s hs => (h.stage_fits s hs).base_lt
  refine ⟨hwhole, fun s hs => hwhole s ?_⟩
  rw [h.store_eq]
  exact hs

/-- Paired disks serve a read alike. -/
theorem readBlocks_agree (h : Lockstep l patience allowed R) (hw : l.WindowFits)
    (hd : Paired l patience R d e) (buffer : List UInt8) (lba count : UInt32) :
    Agree allowed (Paired l patience R) (fun _ => Paired l patience R)
      (readBlocks buffer lba count d) (readBlocks buffer lba count e) := by
  have hl := hd.layout_eq
  have hl' : e.store.layout = l := hd.store_eq ▸ hl
  by_cases hcount : count = 0
  · rw [readBlocks, readBlocks, if_pos hcount, if_pos hcount]
    exact ⟨rfl, hd⟩
  cases hrefusal : l.refusal? lba count buffer.length with
  | some error =>
    rw [readBlocks_of_refusal (hl ▸ hrefusal), readBlocks_of_refusal (hl' ▸ hrefusal)]
    exact ⟨rfl, h.refusal _, hd⟩
  | none =>
    obtain ⟨hpos, hrange, -⟩ := Layout.of_refusal?_eq_none hcount hrefusal
    have hlba : lba.toNat < l.blocks := by omega
    have hoffset := Layout.toNat_offset hd.valid hlba
    have hend := hd.valid.blockOffset_blocks
    unfold Layout.blockOffset at hoffset hend
    obtain ⟨-, haddr⟩ := windowAddr_eq hw (l.offset lba) (by omega)
    -- Both disks open their windows and read the same stretch.
    have hmapped := ensureMapped_agree h hd
    rw [ensureMapped_eq, ensureMapped_eq] at hmapped
    obtain ⟨-, hd₁, -⟩ := hmapped
    obtain ⟨hbytes, hd₂⟩ := readWindow_agree h hd₁ rfl haddr (by omega)
      (show _ + 256 * count.toNat ≤ _ by omega)
    rw [readBlocks_of_accepted (hl ▸ hw) hd.stageWhole.1 hcount (hl ▸ hrefusal),
      readBlocks_of_accepted (hl' ▸ hw) hd.stageWhole.2 hcount (hl' ▸ hrefusal), hl, hl',
      ← hd.store_eq]
    exact ⟨by rw [hbytes], hd.store_eq ▸ hd₂⟩

/-- **Lockstep.** Two disks with one store and devices in lockstep serve every request alike, and
stay so. -/
theorem serve_agree (h : Lockstep l patience allowed R) (hw : l.WindowFits)
    (hd : Paired l patience R d e) (request : Request) :
    Agree allowed (Paired l patience R) (fun _ => Paired l patience R)
      (serve request d) (serve request e) := by
  cases request with
  | read buffer lba count =>
    refine Action.Agree.bind (readBlocks_agree h hw hd buffer lba count) ?_
    intro bytes d' e' hd'
    exact ⟨rfl, hd'⟩
  | write source lba count =>
    refine Action.Agree.bind (writeBlocks_agree h hw hd source lba count) ?_
    intro _ d' e' hd'
    exact ⟨rfl, hd'⟩
  | flush =>
    refine Action.Agree.bind (flush_agree h hd) ?_
    intro _ d' e' hd'
    exact ⟨rfl, hd'⟩

end Disk

/-- **Lockstep over a run.** States that every call and every act of the world keeps related give
the same replies along any run. -/
theorem runAll_agree {σ τ ε α ρ ω : Type} {allowed : Fault ε → Prop} {R : σ → τ → Prop}
    {serve : ρ → Action ε σ α} {serve' : ρ → Action ε τ α} {act : ω → σ → σ} {act' : ω → τ → τ}
    (hserve : ∀ request s t, R s t →
      Agree allowed R (fun _ => R) (serve request s) (serve' request t))
    (hact : ∀ w s t, R s t → R (act w s) (act' w t)) (events : List (Event ρ ω)) :
    ∀ s t, R s t →
      Agree allowed R (fun _ => R) (runAll serve act events s) (runAll serve' act' events t) := by
  induction events with
  | nil => exact fun s t hst => ⟨rfl, hst⟩
  | cons event rest ih =>
    intro s t hst
    cases event with
    | call request =>
      -- A refusal is a reply, and the run goes on from related states.
      refine Action.Agree.bind (Action.Agree.attempt (hserve request s t hst)) ?_
      intro reply s' t' hst'
      refine Action.Agree.bind (ih s' t' hst') ?_
      intro replies s₂ t₂ hst₂
      exact ⟨rfl, hst₂⟩
    | world w => exact ih _ _ (hact w s t hst)

/-- Where no call traps, both runs reach their end. -/
theorem runAll_total {σ τ ε α ρ ω : Type} {R : σ → τ → Prop} {serve : ρ → Action ε σ α}
    {serve' : ρ → Action ε τ α} {act : ω → σ → σ} {act' : ω → τ → τ}
    (hserve : ∀ request s t, R s t →
      Agree Fault.IsRefusal R (fun _ => R) (serve request s) (serve' request t))
    (hact : ∀ w s t, R s t → R (act w s) (act' w t)) (events : List (Event ρ ω)) {s : σ} {t : τ}
    (hst : R s t) :
    ∃ replies s' t', runAll serve act events s = .ok replies s' ∧
      runAll serve' act' events t = .ok replies t' ∧ R s' t' := by
  have hagree := runAll_agree hserve hact events s t hst
  match hrun : runAll serve act events s, hrun' : runAll serve' act' events t, hagree with
  | .ok replies s', .ok replies' t', hagree =>
    obtain ⟨rfl, hR⟩ := hagree
    exact ⟨replies, s', t', rfl, rfl, hR⟩
  -- A run ends early on a trap only, and no call traps.
  | .error (.refused e) s', .error g t', hagree =>
    exact absurd hrun (runAll_no_refusal serve act events s s' e)
  | .error (.trap cause) s', .error g t', hagree => exact absurd hagree.2.1 id

/-- Wherever a run of a fresh disk ends, be it cut off by a trap or not, the disk is paired with
itself under every invariant that its operations and the acts of the world keep. -/
theorem Disk.runAll_paired {ω : Type} {l : Layout} (hv : l.Valid) (hw : l.WindowFits)
    (policy : ErasePolicy) {patience : Patience} {I : Mode → σ → Prop}
    (h : Lockstep l patience (fun _ => True) fun mode s t => s = t ∧ I mode s)
    (act : ω → σ → σ) (hact : ∀ w mode s, I mode s → I mode (act w s))
    (device : σ) (hdevice : I .mapped device) (events : List (Event Request ω)) :
    let d := state (runAll serve (world act) events (fresh l hv policy patience device))
    Paired l patience (fun mode s t => s = t ∧ I mode s) d d := by
  -- An act of the world reaches the device only.
  have hworld : ∀ w (d e : Disk σ),
      Paired l patience (fun mode s t => s = t ∧ I mode s) d e →
        Paired l patience (fun mode s t => s = t ∧ I mode s) (world act w d) (world act w e) := by
    intro w d e hd
    obtain ⟨heq, hI⟩ := hd.device
    exact ⟨hd.store_eq, hd.layout_eq, hd.patience_eq, hd.stage_fits,
      congrArg (act w) heq, hact w _ _ hI⟩
  have hfresh : Paired l patience (fun mode s t => s = t ∧ I mode s)
      (fresh l hv policy patience device) (fresh l hv policy patience device) :=
    ⟨rfl, rfl, rfl, nofun, rfl, hdevice⟩
  -- The run is in lockstep with itself.
  have hrun := runAll_agree (fun request d e hd => serve_agree h hw hd request) hworld events _ _
    hfresh
  exact hrun.state

/-- An invariant that the operations of a fresh disk and the acts of the world keep holds wherever a
run ends, be it cut off by a trap or not. -/
theorem Disk.runAll_keeps {ω : Type} {l : Layout} (hv : l.Valid) (hw : l.WindowFits)
    (policy : ErasePolicy) {patience : Patience} {I : Mode → σ → Prop}
    (h : Lockstep l patience (fun _ => True) fun mode s t => s = t ∧ I mode s)
    (act : ω → σ → σ) (hact : ∀ w mode s, I mode s → I mode (act w s))
    (device : σ) (hdevice : I .mapped device) (events : List (Event Request ω)) :
    let d := state (runAll serve (world act) events (fresh l hv policy patience device))
    I d.store.mode d.device :=
  (runAll_paired hv hw policy h act hact device hdevice events).device.2

end NorDisk
