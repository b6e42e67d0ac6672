import NorDisk.Proofs.Execution
import NorDisk.Proofs.HeldBlocks

/-!
# A staged disk is an array of blocks

`Backs l patience c A d` says that the disk `d` holds the array `A`: the blocks of the staged sector
in its copy, all others in the memory, and that a copy without pending writes is a true copy. On a
bench commands are executed on the memory, or the part stalls at one of them (`Bench.laws`), so this
is what a staged disk keeps on any device with a memory.

* **`flush_meets`**, **`writeBlocks_meets`**, **`readBlocks_meets`** — one specification for each
  request; a stall needs a part that is not brisk.
* **`requests_refine_array`** — whatever is requested of a fresh disk, with the busy flag held or
  released in between, it answers as the array does, and a flush that is not refused leaves the
  array in the data region.
-/

namespace NorDisk

open Outcome Memory

/-- A disk that stages sectors, on a bench with a setting, holds an array of blocks. -/
structure Backs (l : Layout) (patience : Patience) (c : Bench.Setting) (A : BlockArray)
    (d : Disk (Bench NorPart)) : Prop where
  layout_eq : d.store.layout = l
  policy_eq : d.store.policy = .staged
  patience_eq : d.store.patience = patience
  steady : d.device.Steady c d.store.mode
  fits : ∀ s, d.store.stage = some s → s.Fits l
  copies : ∀ s, d.store.stage = some s → s.dirty = false → s.Copies d.device.part.memory
  block_eq : ∀ k < l.blocks, A k = l.heldBlocks d.store.stage d.device.part.memory k

/-- A command was given up, on a part that may take longer than the timeout. -/
def Stalled (c : Bench.Setting) (patience : Patience) (fault : Fault FlashError) : Prop :=
  (∃ offset, fault = .refused (.stalled offset)) ∧ ¬ c.Brisk patience.timeout

/-! ## The operations -/

section Operations

variable {l : Layout} {patience : Patience} {c : Bench.Setting} {A : BlockArray}
  {d d' : Disk (Bench NorPart)}

/-- Commands are executed on the memory of a bench, unless the part stalls. -/
theorem Bench.laws (l : Layout) (hp : patience.Ample c.step) (hsize : l.flashBytes.toNat ≤ c.size) :
    NorLaws l patience (fun b : Bench NorPart => b.part.memory) (Bench.Steady c)
      (Stalled c patience) where
  size_le h := by
    rw [h.size_eq]
    exact hsize
  enterMapped h := h.enterMapped
  enterCommand h := h.enterCommand
  readMapped len haddr h := h.readMapped haddr len
  execute _ h := by
    apply (Bench.execute_meets hp h _).mono
    · intro _ b' h'
      exact h'
    · -- A wait that is given up may come before or after the command was taken.
      intro fault b' h'
      obtain ⟨hfault, hbrisk, hsteady, hmemory⟩ := h'
      exact ⟨⟨⟨_, hfault⟩, hbrisk⟩, hsteady, hmemory⟩

/-- To hold an array on a bench is to keep stage and memory in the relation to it. -/
theorem backs_iff_kept : Backs l patience c A d ↔
    Disk.Kept l .staged patience
      (NorLaws.Holding l (fun b : Bench NorPart => b.part.memory) (Bench.Steady c)) A d := by
  constructor
  · intro h
    exact ⟨h.layout_eq, h.policy_eq, h.patience_eq, h.fits, h.steady, h.copies, h.block_eq⟩
  · intro h
    obtain ⟨hsteady, hcopies, hblocks⟩ := h.device
    exact ⟨h.layout_eq, h.policy_eq, h.patience_eq, hsteady, h.fits, hcopies, hblocks⟩

/-- Without pending writes the array is in the memory. -/
theorem Backs.regionBlocks_eq (h : Backs l patience c A d) (hpending : d.store.pending? = none)
    {k : Nat} (hk : k < l.blocks) : A k = l.regionBlocks d.device.part.memory k :=
  Layout.Represents.regionBlocks_eq ⟨h.copies, h.block_eq⟩ hpending hk

namespace Disk

/-- **Writing back.** Nothing is pending afterwards, or the part stalled; the array is the same. -/
theorem flush_meets (hp : patience.Ample c.step) (hsize : l.flashBytes.toNat ≤ c.size)
    (h : Backs l patience c A d) :
    Meets (fun _ d' => Backs l patience c A d' ∧ d'.store.pending? = none)
      (fun fault d' => Stalled c patience fault ∧ Backs l patience c A d') (flush d) := by
  simp only [backs_iff_kept] at h ⊢
  exact flush_kept ((Bench.laws l hp hsize).keeper h.valid) h

/-- **Writing.** All blocks are stored, or those before a sector that could not be staged. -/
theorem writeBlocks_meets (hp : patience.Ample c.step) (hsize : l.flashBytes.toNat ≤ c.size)
    (hw : l.WindowFits) (h : Backs l patience c A d) (source : List UInt8) (lba count : UInt32) :
    Meets (fun _ d' => l.refusal? lba count source.length = none ∧
        Backs l patience c (A.store lba.toNat (Bytes.pieces 256 count.toNat source)) d')
      (fun fault d' =>
        (∃ error, fault = .refused error ∧ l.refusal? lba count source.length = some error ∧
          Backs l patience c A d') ∨
        (l.refusal? lba count source.length = none ∧ Stalled c patience fault ∧
          ∃ m < count.toNat, (m = 0 ∨ (lba.toNat + m) % 16 = 0) ∧
            Backs l patience c (A.store lba.toNat (Bytes.pieces 256 m source)) d'))
      (writeBlocks source lba count d) := by
  simp only [backs_iff_kept] at h ⊢
  exact writeBlocks_kept ((Bench.laws l hp hsize).keeper h.valid) hw h source lba count

/-- **Reading.** The front of the buffer is replaced by the blocks of the array. -/
theorem readBlocks_meets (hp : patience.Ample c.step) (hsize : l.flashBytes.toNat ≤ c.size)
    (hw : l.WindowFits) (h : Backs l patience c A d) (buffer : List UInt8) (lba count : UInt32) :
    Meets (fun bytes d' => l.refusal? lba count buffer.length = none ∧
        bytes = Bytes.overwrite buffer (A.bytes lba.toNat count.toNat) ∧ Backs l patience c A d')
      (fun fault d' => ∃ error, fault = .refused error ∧
        l.refusal? lba count buffer.length = some error ∧ Backs l patience c A d')
      (readBlocks buffer lba count d) := by
  simp only [backs_iff_kept] at h ⊢
  apply (readBlocks_held (Bench.laws l hp hsize) hw h buffer lba count).mono
  · intro bytes d' h'
    obtain ⟨haccepted, hbytes, hkept, -⟩ := h'
    exact ⟨haccepted, hbytes, hkept⟩
  · intro fault d' h'
    obtain ⟨error, hfault, hrefused, rfl⟩ := h'
    exact ⟨error, hfault, hrefused, h⟩

/-- **One request.** The reply and the array after it are those of the disk in mind, and after a
flush nothing is pending. -/
theorem serve_meets (hp : patience.Ample c.step) (hsize : l.flashBytes.toNat ≤ c.size)
    (hw : l.WindowFits) (h : Backs l patience c A d) (request : Request) :
    Meets
      (fun answer d' => ∃ A', A.Answers l request (.ok answer) A' ∧ Backs l patience c A' d' ∧
        (request = .flush → d'.store.pending? = none))
      (fun fault d' => ∃ error A', fault = .refused error ∧ A.Answers l request (.error error) A' ∧
        Backs l patience c A' d')
      (serve request d) := by
  cases request with
  | read buffer lba count =>
    refine Action.Meets.bind_of (readBlocks_meets hp hsize hw h buffer lba count) ?_ ?_
    · rintro fault d' ⟨error, hfault, hrefused, h'⟩
      exact ⟨error, A, hfault, .refusedRead hrefused, h'⟩
    · rintro _ d' ⟨haccepted, rfl, h'⟩
      exact ⟨A, .read haccepted, h', nofun⟩
  | write source lba count =>
    refine Action.Meets.bind_of (writeBlocks_meets hp hsize hw h source lba count) ?_ ?_
    · rintro fault d' (⟨error, hfault, hrefused, h'⟩ |
        ⟨haccepted, ⟨⟨offset, hfault⟩, -⟩, m, hm, hboundary, h'⟩)
      · exact ⟨error, A, hfault, .refusedWrite hrefused, h'⟩
      · -- A stall: the blocks before some sector boundary are stored.
        exact ⟨_, _, hfault, .stalledWrite haccepted m hm hboundary, h'⟩
    · rintro _ d' ⟨haccepted, h'⟩
      exact ⟨_, .write haccepted, h', nofun⟩
  | flush =>
    refine Action.Meets.bind_of (flush_meets hp hsize h) ?_ ?_
    · rintro fault d' ⟨⟨⟨offset, hfault⟩, -⟩, h'⟩
      exact ⟨_, A, hfault, .stalledFlush, h'⟩
    · rintro _ d' ⟨h', hpending⟩
      exact ⟨A, .flush, h', fun _ => hpending⟩

end Disk

/-- A fresh disk holds what is in the region. -/
theorem Backs.fresh (hv : l.Valid) (patience : Patience) (memory : ByteArray) (busyPolls : Nat)
    (clock : StepClock) :
    Backs l patience (Bench.fresh memory busyPolls clock).setting (l.regionBlocks memory)
      (.fresh l hv .staged patience (Bench.fresh memory busyPolls clock)) :=
  ⟨rfl, rfl, rfl, ⟨rfl, rfl, Nat.zero_le _⟩, nofun, nofun, fun _ _ => rfl⟩

/-- Holding the part does not change the array. -/
theorem Backs.hold (h : Backs l patience c A d) (on : Bool) :
    Backs l patience { c with stalled := on } A (d.world Bench.hold on) where
  layout_eq := h.layout_eq
  policy_eq := h.policy_eq
  patience_eq := h.patience_eq
  steady := h.steady.hold on
  fits := h.fits
  copies := h.copies
  block_eq := h.block_eq

end Operations

/-! ## Runs -/

/-- Along the events the disk answers as the array does, and a flush that is not refused leaves the
array in the data region. No request traps. -/
def Disk.Follows (l : Layout) :
    BlockArray → Disk (Bench NorPart) → List (Event Request Bool) → Prop
  | _, _, [] => True
  | A, d, .world on :: rest => Disk.Follows l A (d.world Bench.hold on) rest
  | A, d, .call request :: rest =>
    Meets
      (fun answer d' => ∃ A', A.Answers l request (.ok answer) A' ∧
        (request = .flush → ∀ k < l.blocks, l.regionBlocks d'.device.part.memory k = A' k) ∧
        Disk.Follows l A' d' rest)
      (fun fault d' => ∃ error A', fault = .refused error ∧
        A.Answers l request (.error error) A' ∧ Disk.Follows l A' d' rest)
      (serve request d)

/-- A disk that holds an array follows it. Induction on the events, for all settings of the flag. -/
theorem Backs.follows {l : Layout} {patience : Patience} (hw : l.WindowFits)
    (events : List (Event Request Bool)) :
    ∀ {c : Bench.Setting} {A : BlockArray} {d : Disk (Bench NorPart)}, patience.Ample c.step →
      l.flashBytes.toNat ≤ c.size → Backs l patience c A d → d.Follows l A events := by
  induction events with
  | nil => exact fun _ _ _ => trivial
  | cons event rest ih =>
    intro c A d hp hsize h
    cases event with
    | world on => exact ih (c := { c with stalled := on }) hp hsize (h.hold on)
    | call request =>
      refine (Disk.serve_meets hp hsize hw h request).mono ?_ ?_
      · -- After a flush nothing is pending, so that the array is in the memory.
        rintro answer d' ⟨A', hanswers, h', hflushed⟩
        refine ⟨A', hanswers, fun hflush k hk => ?_, ih hp hsize h'⟩
        exact (h'.regionBlocks_eq (hflushed hflush) hk).symm
      · rintro fault d' ⟨error, A', hfault, hanswers, h'⟩
        exact ⟨error, A', hfault, hanswers, ih hp hsize h'⟩

/-- **Refinement.** On a part that is large enough, with any contents and any speed, a staged disk
follows the array that is in the data region at first, whatever is requested of it and whenever the
busy flag is held. -/
theorem requests_refine_array {l : Layout} (hv : l.Valid) (hw : l.WindowFits) {timeout : UInt32}
    {clock : StepClock} (hstep : 1 ≤ clock.step.toNat)
    (hsum : timeout.toNat + clock.step.toNat < 0x100000000) (busyPolls : Nat) {memory : ByteArray}
    (hsize : l.flashBytes.toNat ≤ memory.size) (events : List (Event Request Bool)) :
    Disk.Follows l (l.regionBlocks memory)
      (.fresh l hv .staged { timeout } (Bench.fresh memory busyPolls clock)) events := by
  exact (Backs.fresh hv { timeout } memory busyPolls clock).follows hw events
    (.ofTimeout hstep hsum) hsize

/-- A write across a sector boundary on a part that stalls at times. -/
theorem requests_refine_array_across_stall :
    let blank := Memory.blank Board.orangeCrabR01.layout.flashBytes.toNat
    (1 ≤ (1 : UInt32).toNat ∧ (1000 : UInt32).toNat + (1 : UInt32).toNat < 0x100000000) ∧
      Board.orangeCrabR01.layout.flashBytes.toNat ≤ blank.size ∧
      Disk.Follows Board.orangeCrabR01.layout (Board.orangeCrabR01.layout.regionBlocks blank)
        (.fresh Board.orangeCrabR01.layout Board.orangeCrabR01.layout_valid .staged
          { timeout := 1000 } (Bench.fresh blank 2 ⟨0, 1⟩))
        [.call (.write (List.replicate 1024 0x5A) 14 4), .world true, .call .flush,
          .call (.read (List.replicate 512 0) 15 2), .world false, .call .flush] := by
  intro blank
  have hsize : Board.orangeCrabR01.layout.flashBytes.toNat ≤ blank.size :=
    Nat.le_of_eq (size_blank _).symm
  refine ⟨by decide, hsize, ?_⟩
  exact requests_refine_array Board.orangeCrabR01.layout_valid Board.orangeCrabR01.windowFits
    (by decide) (by decide) 2 hsize
    [.call (.write (List.replicate 1024 0x5A) 14 4), .world true, .call .flush,
      .call (.read (List.replicate 512 0) 15 2), .world false, .call .flush]

end NorDisk
