import NorDisk.Proofs.BlockArray
import NorDisk.Proofs.Lockstep

/-!
# What a staged disk asks of its device

A disk that stages sectors does few things to its device: it switches the mode, it reads a stretch
of the window, it fills the stage from the window when nothing is pending, and it writes a staged
sector back as a whole. In between it puts blocks into the stage, which the device does not see. A
relation between the stage, an array of blocks and a device that survives these (`Keeper`) survives
every request, and the array follows the writes.

The relation is left open: it may say what the device holds, or which commands it received. One
specification per operation is proved here for all of them.

* **`Keeper`** — the relation survives what a staged disk does.
* **`Disk.Kept`** — a disk with a stage that fits its layout, in that relation to its device.
* **`flush_kept`**, **`loadSector_kept`**, **`stageEach_kept`**, **`writeBlocks_kept`**,
  **`readBlocks_kept`** — the operations; **`runAll_kept`** for a whole run.
-/

namespace NorDisk

open Outcome

variable {σ : Type} [Controller σ] [TickSource σ]

/-- A relation between a stage, an array and a device in a mode that survives what a staged disk
does; `bad` are the faults that writing back may end with. -/
structure Keeper (l : Layout) (patience : Patience) (bad : Fault FlashError → Prop)
    (R : Mode → Option StagedSector → BlockArray → σ → Prop) : Prop where
  enterMapped : ∀ {mode stage A s}, R mode stage A s →
    R .mapped stage A (Controller.enterMapped s)
  enterCommand : ∀ {mode stage A s}, R mode stage A s →
    R .command stage A (Controller.enterCommand s)
  readMapped : ∀ {stage A s} {addr : UInt32} {start len : Nat},
    addr.toNat = windowBase.toNat + start → l.regionBase.toNat ≤ start →
    start + len ≤ l.flashBytes.toNat → R .mapped stage A s →
    R .mapped stage A (Controller.readMapped addr len s).2
  /-- A sector of the region may be staged when nothing is pending. -/
  load : ∀ {stage A s} {addr base : UInt32}, addr.toNat = windowBase.toNat + base.toNat →
    Disk.IsSector l base → stage.filter (·.dirty) = none → R .mapped stage A s →
    R .mapped (some (.ofBytes base (Controller.readMapped addr sectorBytes.toNat s).1
        (Controller.length_readMapped _ _ _))) A
      (Controller.readMapped addr sectorBytes.toNat s).2
  /-- Pending writes are written back, or are still pending. -/
  writeBack : ∀ {t : StagedSector} {A s}, t.Fits l → t.dirty = true → R .command (some t) A s →
    Meets (fun _ s' => R .command (some { t with dirty := false }) A s')
      (fun fault s' => bad fault ∧ R .command (some t) A s')
      (Controller.executeAll patience t.writeBack s)
  put : ∀ {mode} {t : StagedSector} {A s} {lba : UInt32} {block : List UInt8},
    lba.toNat < l.blocks → t.base = sectorBase (l.offset lba) → block.length = 256 →
    R mode (some t) A s →
    R mode (some (t.put (pageInSector (l.offset lba)) block)) (A.store lba.toNat [block]) s

namespace Disk

variable {l : Layout} {policy : ErasePolicy} {patience : Patience} {bad : Fault FlashError → Prop}
  {R : Mode → Option StagedSector → BlockArray → σ → Prop} {A : BlockArray} {d : Disk σ}

/-- A disk whose stage, with an array, is in a relation to its device. -/
structure Kept (l : Layout) (policy : ErasePolicy) (patience : Patience)
    (R : Mode → Option StagedSector → BlockArray → σ → Prop) (A : BlockArray) (d : Disk σ) :
    Prop where
  layout_eq : d.store.layout = l
  policy_eq : d.store.policy = policy
  patience_eq : d.store.patience = patience
  fits : ∀ s, d.store.stage = some s → s.Fits l
  device : R d.store.mode d.store.stage A d.device

omit [Controller σ] [TickSource σ] in
/-- The layout of a disk is a valid one. -/
theorem Kept.valid (h : Kept l policy patience R A d) : l.Valid :=
  h.layout_eq ▸ d.store.layout_valid

omit [Controller σ] [TickSource σ] in
/-- Only the device and the array changed. -/
theorem Kept.of_store_eq {R' : Mode → Option StagedSector → BlockArray → σ → Prop}
    {A' : BlockArray} {d' : Disk σ} (h : Kept l policy patience R A d)
    (hstore : d'.store = d.store) (hdevice : R' d.store.mode d.store.stage A' d'.device) :
    Kept l policy patience R' A' d' := by
  obtain ⟨store, device⟩ := d'
  subst hstore
  exact ⟨h.layout_eq, h.policy_eq, h.patience_eq, h.fits, hdevice⟩

/-- Switching to commands keeps the relation and the stage. -/
theorem ensureCommand_kept (hk : Keeper l patience bad R) (h : Kept l policy patience R A d) :
    Meets (fun _ d' => Kept l policy patience R A d' ∧ d'.store.mode = .command ∧
        d'.store.stage = d.store.stage)
      (fun _ _ => False) (ensureCommand d) := by
  rw [ensureCommand, ask_bind]
  by_cases hmode : d.store.mode = .command
  · rw [if_neg (not_not_intro hmode)]
    exact ⟨h, hmode, rfl⟩
  · rw [if_pos hmode]
    exact ⟨⟨h.layout_eq, h.policy_eq, h.patience_eq, h.fits, hk.enterCommand h.device⟩, rfl, rfl⟩

/-- Opening the window keeps the relation and the stage. -/
theorem ensureMapped_kept (hk : Keeper l patience bad R) (h : Kept l policy patience R A d) :
    Meets (fun _ d' => Kept l policy patience R A d' ∧ d'.store.mode = .mapped ∧
        d'.store.stage = d.store.stage)
      (fun _ _ => False) (ensureMapped d) := by
  rw [ensureMapped, ask_bind]
  by_cases hmode : d.store.mode = .mapped
  · rw [if_neg (not_not_intro hmode)]
    exact ⟨h, hmode, rfl⟩
  · rw [if_pos hmode]
    exact ⟨⟨h.layout_eq, h.policy_eq, h.patience_eq, h.fits, hk.enterMapped h.device⟩, rfl, rfl⟩

/-- Without pending writes a flush does nothing. -/
theorem flush_of_clean (h : d.store.pending? = none) : flush d = .ok () d := by
  rw [flush, ask_bind, h]
  rfl

/-- **Writing back.** Nothing is pending afterwards, or the device failed; the array is the same. -/
theorem flush_kept (hk : Keeper l patience bad R) (h : Kept l policy patience R A d) :
    Meets (fun _ d' => Kept l policy patience R A d' ∧ d'.store.pending? = none)
      (fun fault d' => bad fault ∧ Kept l policy patience R A d') (flush d) := by
  cases hpending : d.store.pending? with
  | none =>
    rw [flush_of_clean hpending]
    exact ⟨h, hpending⟩
  | some s =>
    rw [flush, ask_bind, hpending]
    obtain ⟨hstaged, hdirty⟩ := Option.filter_eq_some_iff.mp hpending
    have hfits := h.fits s hstaged
    apply Action.Meets.bind_of (ensureCommand_kept hk h)
    · intro _ _ hfalse
      exact hfalse.elim
    · intro _ d₁ h₁
      obtain ⟨h₁, hmode, hstage⟩ := h₁
      have hstage := hstage.trans hstaged
      have hdevice : R .command (some s) A d₁.device := by
        rw [← hmode, ← hstage]
        exact h₁.device
      rw [StagedSector.commands_eq hfits, Action.ofChecked_bind]
      -- The commands leave the store alone, whether they come to their end or not.
      have hexecuted : Meets
          (fun _ d' => d'.store = d₁.store ∧
            R .command (some { s with dirty := false }) A d'.device)
          (fun fault d' => d'.store = d₁.store ∧ bad fault ∧ R .command (some s) A d'.device)
          (executeAll s.writeBack d₁) := by
        rw [executeAll, ask_bind, h₁.patience_eq]
        exact onDevice_meets (hk.writeBack hfits hdirty hdevice)
      apply Action.Meets.bind_of hexecuted
      · intro fault d₂ h₂
        obtain ⟨hstore, hbad, hdevice⟩ := h₂
        refine ⟨hbad, h₁.of_store_eq hstore ?_⟩
        rw [hmode, hstage]
        exact hdevice
      · intro _ d₂ h₂
        obtain ⟨hstore, hdevice⟩ := h₂
        rw [update_apply]
        refine ⟨⟨?_, ?_, ?_, ?_, ?_⟩, rfl⟩
        · rw [← h₁.layout_eq, ← hstore]
        · rw [← h₁.policy_eq, ← hstore]
        · rw [← h₁.patience_eq, ← hstore]
        · rintro _ ⟨⟩
          exact hfits.of_base_eq rfl
        · show R d₂.store.mode _ A d₂.device
          rw [hstore, hmode]
          exact hdevice

/-- **Staging a sector.** It is staged, or the sector before it could not be written back. -/
theorem loadSector_kept (hk : Keeper l patience bad R) (hw : l.WindowFits)
    (h : Kept l policy patience R A d) {base : UInt32} (hbase : IsSector l base) :
    Meets (fun _ d' => Kept l policy patience R A d' ∧
        ∃ s, d'.store.stage = some s ∧ s.base = base)
      (fun fault d' => bad fault ∧ Kept l policy patience R A d' ∧
        d.store.stage.map (·.base) ≠ some base)
      (loadSector base d) := by
  rw [loadSector, ask_bind]
  by_cases hstaged : d.store.stage.map (·.base) = some base
  · rw [if_neg (not_not_intro hstaged)]
    exact ⟨h, by simpa using hstaged⟩
  · rw [if_pos hstaged]
    -- Another sector is staged, or none: it is written back before the new one is read.
    apply Action.Meets.bind_of (flush_kept hk h)
    · intro fault d' hd
      exact ⟨hd.1, hd.2, hstaged⟩
    · intro _ d₁ h₁
      obtain ⟨h₁, hpending⟩ := h₁
      apply Action.Meets.bind_of (ensureMapped_kept hk h₁)
      · intro _ _ hfalse
        exact hfalse.elim
      · intro _ d₂ h₂
        obtain ⟨h₂, hmode, hstage⟩ := h₂
        -- Nothing is lost when another sector takes the place of this one.
        have hpending₂ : d₂.store.stage.filter (·.dirty) = none := by
          rw [hstage]
          exact hpending
        obtain ⟨hadd, haddr⟩ := windowAddr_eq hw base (by have := hbase.2.2; omega)
        have hloaded := hk.load haddr hbase hpending₂ (hmode ▸ h₂.device)
        rw [hadd, Action.ofChecked_bind, onDevice_ofStep_bind, update_apply]
        refine ⟨⟨h₂.layout_eq, h₂.policy_eq, h₂.patience_eq, ?_, ?_⟩, _, rfl, rfl⟩
        · rintro _ ⟨⟩
          exact ⟨hbase.1, hbase.2.1, hbase.2.2⟩
        · show R d₂.store.mode _ A _
          rw [hmode]
          exact hloaded

/-- **Writing.** All blocks are stored, or those before a sector that could not be staged. The
induction is on the blocks: after the first one its sector is staged, so a later failure comes at
the start of another sector. -/
theorem stageEach_kept (hk : Keeper l patience bad R) (hw : l.WindowFits)
    {blocks : List (List UInt8)} {lba : UInt32} (hrange : lba.toNat + blocks.length ≤ l.blocks)
    (hlength : ∀ block ∈ blocks, block.length = 256) (h : Kept l policy patience R A d) :
    Meets (fun _ d' => Kept l policy patience R (A.store lba.toNat blocks) d')
      (fun fault d' => bad fault ∧ ∃ m < blocks.length,
        (m = 0 ∧ d.store.stage.map (·.base) ≠ some (sectorBase (l.offset lba)) ∨
          (lba.toNat + m) % 16 = 0) ∧
        Kept l policy patience R (A.store lba.toNat (blocks.take m)) d')
      (stageEach lba blocks d) := by
  induction blocks generalizing lba A d with
  | nil =>
    rw [BlockArray.store_nil]
    exact h
  | cons block rest ih =>
    rw [List.length_cons] at hrange
    have hv := h.valid
    have hlba : lba.toNat < l.blocks := by omega
    have hblock := hlength block List.mem_cons_self
    obtain ⟨-, hnext⟩ := Layout.add_one_eq hlba
    rw [stageEach, ask_bind, h.layout_eq]
    apply Action.Meets.bind_of (loadSector_kept hk hw h (isSector_sectorBase hv hlba))
    -- The sector of the first block could not be staged, so no block was stored.
    · intro fault d' hd
      obtain ⟨hbad, h', hbase⟩ := hd
      refine ⟨hbad, 0, Nat.succ_pos _, Or.inl ⟨rfl, hbase⟩, ?_⟩
      rw [List.take_zero, BlockArray.store_nil]
      exact h'
    · intro _ d₁ h₁
      obtain ⟨h₁, s, hstage, hbase⟩ := h₁
      have hdevice := h₁.device
      rw [hstage] at hdevice
      -- The sector of the block is staged, and the block is put into it.
      have hput : Kept l policy patience R (A.store lba.toNat [block])
          { d₁ with store := { d₁.store with
            stage := some (s.put (pageInSector (l.offset lba)) block) } } := by
        refine ⟨h₁.layout_eq, h₁.policy_eq, h₁.patience_eq, ?_, hk.put hlba hbase hblock hdevice⟩
        rintro _ ⟨⟩
        exact (h₁.fits s hstage).put _ block
      rw [update_bind, hstage, BlockArray.store_cons, ← hnext]
      apply (ih (by omega) (fun b hb => hlength b (List.mem_cons_of_mem _ hb)) hput).mono
      · intro _ d' h'
        exact h'
      · intro fault d' hd
        obtain ⟨hbad, m, hm, hboundary, h'⟩ := hd
        refine ⟨hbad, m + 1, Nat.succ_lt_succ hm, Or.inr ?_, ?_⟩
        -- The sector of this block is staged, so if the next block failed it starts another one.
        · rcases hboundary with ⟨rfl, hother⟩ | hboundary
          · have hsector : sectorBase (l.offset lba) ≠ sectorBase (l.offset (lba + 1)) := by
              rw [← hbase]
              exact fun heq => hother (congrArg some ((StagedSector.base_put _ _ s).trans heq))
            rw [Ne, Layout.sectorBase_offset_eq_iff hv hlba (by omega)] at hsector
            omega
          · omega
        · rw [List.take_succ_cons, BlockArray.store_cons, ← hnext]
          exact h'

/-- **Writing blocks.** They are stored, up to a sector that could not be staged if the device
fails. -/
theorem writeBlocks_kept (hk : Keeper l patience bad R) (hw : l.WindowFits)
    (h : Kept l .staged patience R A d) (source : List UInt8) (lba count : UInt32) :
    Meets (fun _ d' => l.refusal? lba count source.length = none ∧
        Kept l .staged patience R (A.store lba.toNat (Bytes.pieces 256 count.toNat source)) d')
      (fun fault d' =>
        (∃ error, fault = .refused error ∧ l.refusal? lba count source.length = some error ∧
          Kept l .staged patience R A d') ∨
        (l.refusal? lba count source.length = none ∧ bad fault ∧
          ∃ m < count.toNat, (m = 0 ∨ (lba.toNat + m) % 16 = 0) ∧
            Kept l .staged patience R (A.store lba.toNat (Bytes.pieces 256 m source)) d'))
      (writeBlocks source lba count d) := by
  by_cases hcount : count = 0
  · subst hcount
    refine ⟨rfl, ?_⟩
    show Kept l .staged patience R (A.store lba.toNat []) d
    rw [BlockArray.store_nil]
    exact h
  cases hrefusal : l.refusal? lba count source.length with
  | some error =>
    rw [writeBlocks_of_refusal (h.layout_eq ▸ hrefusal)]
    exact Or.inl ⟨error, rfl, rfl, h⟩
  | none =>
    -- The request is accepted: its blocks are whole, and staged one by one.
    obtain ⟨-, hrange, hroom⟩ := Layout.of_refusal?_eq_none hcount hrefusal
    have hlength := Bytes.length_pieces 256 count.toNat source
    rw [writeBlocks_of_accepted hcount (h.layout_eq ▸ hrefusal), h.policy_eq]
    apply (stageEach_kept hk hw (by rwa [hlength])
      (fun block hmem => Bytes.length_of_mem_pieces hroom hmem) h).mono
    · intro _ d' h'
      exact ⟨rfl, h'⟩
    · intro fault d' hd
      obtain ⟨hbad, m, hm, hboundary, h'⟩ := hd
      rw [hlength] at hm
      rw [Bytes.take_pieces 256 (Nat.le_of_lt hm)] at h'
      exact Or.inr ⟨rfl, hbad, m, hm, hboundary.imp_left And.left, h'⟩

/-- **Reading.** The front of the buffer is replaced by what the window shows, with the blocks that
are pending in their places. -/
theorem readBlocks_kept (hk : Keeper l patience bad R) (hw : l.WindowFits)
    (h : Kept l policy patience R A d) (buffer : List UInt8) (lba count : UInt32) :
    Meets (fun bytes d' => l.refusal? lba count buffer.length = none ∧
        Kept l policy patience R A d' ∧ d'.store.stage = d.store.stage ∧
        (count = 0 ∧ bytes = buffer ∨ count ≠ 0 ∧ ∃ (addr : UInt32) (s : σ),
          addr.toNat = windowBase.toNat + l.blockOffset lba.toNat ∧
          R .mapped d.store.stage A s ∧
          bytes = Bytes.overwrite buffer (l.shown d.store.stage lba
            (Controller.readMapped addr (256 * count.toNat) s).1)))
      (fun fault d' => ∃ error, fault = .refused error ∧
        l.refusal? lba count buffer.length = some error ∧ d' = d)
      (readBlocks buffer lba count d) := by
  by_cases hcount : count = 0
  · subst hcount
    exact ⟨rfl, h, rfl, Or.inl ⟨rfl, rfl⟩⟩
  cases hrefusal : l.refusal? lba count buffer.length with
  | some error =>
    rw [readBlocks_of_refusal (h.layout_eq ▸ hrefusal)]
    exact ⟨error, rfl, rfl, rfl⟩
  | none =>
    have hv := h.valid
    obtain ⟨hpos, hrange, -⟩ := Layout.of_refusal?_eq_none hcount hrefusal
    have hlba : lba.toNat < l.blocks := by omega
    have hoffset := Layout.toNat_offset hv hlba
    have hend := hv.blockOffset_blocks
    obtain ⟨-, haddr⟩ := windowAddr_eq hw (l.offset lba) (by
      rw [hoffset]
      unfold Layout.blockOffset at hend ⊢
      omega)
    rw [hoffset] at haddr
    have hwhole : d.StageWhole := fun s hs => (h.fits s hs).base_lt
    rw [readBlocks_of_accepted (h.layout_eq ▸ hw) hwhole hcount (h.layout_eq ▸ hrefusal),
      h.layout_eq]
    -- The window is open, and the stage is what it was.
    have hmapped := ensureMapped_kept hk h
    rw [ensureMapped_eq] at hmapped
    obtain ⟨h₁, -, -⟩ := hmapped
    have hstretch : l.blockOffset lba.toNat + 256 * count.toNat ≤ l.flashBytes.toNat := by
      unfold Layout.blockOffset at hend ⊢
      omega
    have hread := hk.readMapped haddr (by unfold Layout.blockOffset; omega) hstretch h₁.device
    exact ⟨rfl, h₁.of_store_eq rfl hread, rfl, Or.inr ⟨hcount, _, _, haddr, h₁.device, rfl⟩⟩

/-- **One request.** Whatever is requested and whatever the answer, the relation holds for some
array. -/
theorem serve_kept (hk : Keeper l patience bad R) (hw : l.WindowFits)
    (h : Kept l .staged patience R A d) (request : Request) :
    ∃ A', Kept l .staged patience R A' (state (serve request d)) := by
  apply Meets.state (P := fun d' => ∃ A', Kept l .staged patience R A' d')
  cases request with
  | read buffer lba count =>
    apply Action.Meets.bind_of (readBlocks_kept hk hw h buffer lba count)
    · intro fault d' hd
      obtain ⟨error, -, -, rfl⟩ := hd
      exact ⟨A, h⟩
    · intro bytes d' hd
      exact ⟨A, hd.2.1⟩
  | write source lba count =>
    apply Action.Meets.bind_of (writeBlocks_kept hk hw h source lba count)
    · intro fault d' hd
      -- A refused write stores nothing, a failed one the blocks before the failure.
      rcases hd with ⟨error, -, -, h'⟩ | ⟨-, -, m, -, -, h'⟩
      · exact ⟨_, h'⟩
      · exact ⟨_, h'⟩
    · intro _ d' hd
      exact ⟨_, hd.2⟩
  | flush =>
    apply Action.Meets.bind_of (flush_kept hk h)
    · intro fault d' hd
      exact ⟨A, hd.2⟩
    · intro _ d' hd
      exact ⟨A, hd.1⟩

/-- **A run.** If the world keeps the relation too, it holds wherever a run of a fresh disk ends. -/
theorem runAll_kept {ω : Type} (hk : Keeper l patience bad R) (hv : l.Valid) (hw : l.WindowFits)
    (act : ω → σ → σ) (hact : ∀ {w mode stage A s}, R mode stage A s → R mode stage A (act w s))
    (device : σ) (hdevice : R .mapped none A device) (events : List (Event Request ω)) :
    ∃ A', Kept l .staged patience R A'
      (state (runAll serve (world act) events (fresh l hv .staged patience device))) := by
  apply state_runAll_of_keeps (I := fun d => ∃ A', Kept l .staged patience R A' d)
  · intro request d h
    obtain ⟨A', h⟩ := h
    exact serve_kept hk hw h request
  · intro w d h
    obtain ⟨A', h⟩ := h
    exact ⟨A', h.of_store_eq rfl (hact h.device)⟩
  · exact ⟨A, rfl, rfl, rfl, nofun, hdevice⟩

end Disk

end NorDisk
