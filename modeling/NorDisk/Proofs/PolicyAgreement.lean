import NorDisk.Proofs.DirectWrite
import NorDisk.Proofs.Isolation
import NorDisk.Proofs.Retry

/-!
# Where the policies agree

One policy erases and programs at once, the other stages sectors and writes them back. Their parts
differ on the way: a sector that one has programmed the other may still hold in memory, or has
erased for the second time. On traffic that is `Orderly` both disks hold one array: what was written
in the places where it was written, blank blocks everywhere else. So all reads agree, and when
nothing is pending any more the memories do.

* **`Timed.laws`** — a simulated part next to any clock is a device with a memory.
* **`Disk.Written`** — how a disk got where it is: by writes that succeeded, with reads, flushes and
  acts of the world in between.
* **`policies_agree`** — two disks after the same writes.
-/

namespace NorDisk

open Outcome Memory

/-! ## Orderly writes -/

/-- A request to write. -/
structure Write where
  source : List UInt8
  lba : UInt32
  count : UInt32

namespace Write

/-- The numbers of the blocks that are written, in order. -/
def places (w : Write) : List Nat := (List.range w.count.toNat).map (w.lba.toNat + ·)

/-- The blocks after some writes, in an array that was blank before. -/
def stored (writes : List Write) : BlockArray :=
  writes.foldl (fun A w => A.store w.lba.toNat (Bytes.pieces 256 w.count.toNat w.source))
    fun _ => blankBlock

/-- No block is written twice, and none of its sector before the first block of a sector. -/
def Orderly (writes : List Write) : Prop :=
  (writes.flatMap places).Pairwise fun earlier later =>
    earlier ≠ later ∧ (later % 16 = 0 → earlier / 16 ≠ later / 16)

instance (writes : List Write) : Decidable (Orderly writes) :=
  inferInstanceAs (Decidable (List.Pairwise _ _))

variable {l : Layout} {writes : List Write} {w : Write} {k : Nat}

/-- One write more is stored last. -/
theorem stored_concat (writes : List Write) (w : Write) :
    stored (writes ++ [w]) =
      (stored writes).store w.lba.toNat (Bytes.pieces 256 w.count.toNat w.source) :=
  List.foldl_append

/-- A block that is not written is blank. -/
theorem stored_of_not_mem (h : k ∉ writes.flatMap places) : stored writes k = blankBlock := by
  -- The fold starts anywhere, so the induction runs over the writes.
  suffices hfold : ∀ A : BlockArray, writes.foldl
      (fun A w => A.store w.lba.toNat (Bytes.pieces 256 w.count.toNat w.source)) A k = A k from
    hfold _
  induction writes with
  | nil => exact fun _ => rfl
  | cons w rest ih =>
    rw [List.flatMap_cons, List.mem_append, not_or] at h
    intro A
    rw [List.foldl_cons, ih h.2, BlockArray.store, if_neg]
    rw [Bytes.length_pieces]
    intro hk
    apply h.1
    exact List.mem_map.mpr ⟨k - w.lba.toNat, List.mem_range.mpr (by omega), by omega⟩

/-- The next of orderly writes finds its blocks writable. -/
theorem Orderly.writable (h : Orderly (writes ++ [w])) {i : Nat} (hi : i < w.count.toNat) :
    (stored writes).Writable l (w.lba.toNat + i) := by
  have hplace : w.lba.toNat + i ∈ w.places := List.mem_map.mpr ⟨i, List.mem_range.mpr hi, rfl⟩
  rw [Orderly, List.flatMap_append, List.flatMap_singleton, List.pairwise_append] at h
  have hearlier := fun k hk => h.2.2 k hk _ hplace
  refine ⟨stored_of_not_mem fun hmem => (hearlier _ hmem).1 rfl, fun hfirst j _ hsector => ?_⟩
  exact stored_of_not_mem fun hmem => (hearlier j hmem).2 hfirst hsector

/-- The front of orderly writes is orderly. -/
theorem Orderly.of_append (h : Orderly (writes ++ [w])) : Orderly writes := by
  rw [Orderly, List.flatMap_append, List.pairwise_append] at h
  exact h.1

end Write

/-! ## A simulated part -/

/-- Commands are executed on the memory of a simulated part, or the wait for it is given up. -/
theorem Timed.laws {τ : Type} [TickSource τ] (l : Layout) (patience : Patience)
    {earlier : ByteArray} (hsize : l.flashBytes.toNat ≤ earlier.size) :
    NorLaws l patience (fun s : Timed τ => s.part.memory)
      (fun mode s => s.part.mode = mode ∧ Untouched l earlier s.part.memory) fun _ => True where
  size_le h := by
    rw [h.2.size_eq]
    exact hsize
  enterMapped {mode s} h := by
    have hmemory : (Controller.enterMapped s).part.memory = s.part.memory :=
      NorPart.memory_record .enterMapped s.part
    exact ⟨⟨rfl, hmemory ▸ h.2⟩, hmemory⟩
  enterCommand {mode s} h := by
    have hmemory : (Controller.enterCommand s).part.memory = s.part.memory :=
      NorPart.memory_record .enterCommand s.part
    exact ⟨⟨rfl, hmemory ▸ h.2⟩, hmemory⟩
  readMapped {s addr start} len haddr h := by
    have hread := NorPart.readMapped_of_mapped h.1 haddr len
    have hmemory : (Controller.readMapped addr len s).2.part.memory = s.part.memory :=
      (congrArg (·.2.memory) hread).trans (NorPart.memory_record _ _)
    have hmode : (Controller.readMapped addr len s).2.part.mode = .mapped :=
      (congrArg (·.2.mode) hread).trans ((NorPart.mode_record _ _).trans h.1)
    exact ⟨congrArg Prod.fst hread, ⟨hmode, hmemory ▸ h.2⟩, hmemory⟩
  execute {command s} hwithin h := by
    have hserves : s.Serves s.part.memory := ⟨h.1, rfl⟩
    apply (Timed.execute_serves hserves patience command).mono
    · intro _ s' h'
      obtain ⟨hmode, hmemory⟩ := h'
      exact ⟨⟨hmode, hmemory ▸ h.2.apply hwithin⟩, hmemory⟩
    · intro _ s' h'
      rcases h' with ⟨hmode, hmemory⟩ | ⟨hmode, hmemory⟩
      · exact ⟨trivial, ⟨hmode, hmemory ▸ h.2⟩, Or.inl hmemory⟩
      · exact ⟨trivial, ⟨hmode, hmemory ▸ h.2.apply hwithin⟩, Or.inr hmemory⟩

/-! ## Disks after writes -/

namespace Disk

variable {τ : Type} [TickSource τ] {l : Layout} {policy : ErasePolicy} {patience : Patience}
  {memory : ByteArray} {A : BlockArray} {writes : List Write} {d d' : Disk (Timed τ)}

/-- The disk got from one state to another by writes that succeeded. Reads and flushes may come in
between, with any outcome, and the world may change the device, but neither memory nor mode. -/
inductive Written (d : Disk (Timed τ)) : List Write → Disk (Timed τ) → Prop
  | start : Written d [] d
  | write {writes : List Write} {d₁ d₂ : Disk (Timed τ)} (before : Written d writes d₁) (w : Write)
    (write_eq : writeBlocks w.source w.lba w.count d₁ = .ok () d₂) : Written d (writes ++ [w]) d₂
  | read {writes : List Write} {d₁ : Disk (Timed τ)} (before : Written d writes d₁)
    (buffer : List UInt8) (lba count : UInt32) :
    Written d writes (state (readBlocks buffer lba count d₁))
  | flush {writes : List Write} {d₁ : Disk (Timed τ)} (before : Written d writes d₁) :
    Written d writes (state (flush d₁))
  | world {writes : List Write} {d₁ : Disk (Timed τ)} (before : Written d writes d₁)
    (device : Timed τ) (memory_eq : device.part.memory = d₁.device.part.memory)
    (mode_eq : device.part.mode = d₁.device.part.mode) : Written d writes { d₁ with device }

/-- The disk holds an array on a part that is untouched outside the region. -/
abbrev OnPart (l : Layout) (policy : ErasePolicy) (patience : Patience) (memory : ByteArray)
    (A : BlockArray) (d : Disk (Timed τ)) : Prop :=
  Kept l policy patience (NorLaws.Holding l (fun s : Timed τ => s.part.memory)
    fun mode s => s.part.mode = mode ∧ Untouched l memory s.part.memory) A d

omit [TickSource τ] in
/-- The world may do what leaves memory and mode alone. -/
theorem OnPart.world (h : OnPart l policy patience memory A d) (device : Timed τ)
    (memory_eq : device.part.memory = d.device.part.memory)
    (mode_eq : device.part.mode = d.device.part.mode) :
    OnPart l policy patience memory A { d with device } := by
  obtain ⟨⟨hmode, huntouched⟩, hheld⟩ := h.device
  refine h.of_store_eq rfl ⟨⟨mode_eq.trans hmode, ?_⟩, ?_⟩
  · rw [memory_eq]
    exact huntouched
  · show l.Represents d.store.stage A device.part.memory
    rw [memory_eq]
    exact hheld

omit [TickSource τ] in
/-- A fresh disk on a blank region holds blank blocks. -/
theorem OnPart.fresh (hv : l.Valid) (policy : ErasePolicy) (patience : Patience)
    (hblank : ∀ j, l.regionBase.toNat ≤ j → j < l.flashBytes.toNat → byteAt memory j = erasedByte)
    (busyPolls : Nat) (ticks : τ) :
    OnPart l policy patience memory (Write.stored [])
      (.fresh l hv policy patience { part := { memory, busyPolls }, ticks }) := by
  refine ⟨rfl, rfl, rfl, nofun, ⟨rfl, .refl l memory⟩, ?_⟩
  refine Layout.represents_none_iff.mpr fun k hk => ?_
  have hend := hv.blockOffset_le hk
  unfold Layout.blockOffset at hend
  refine (read_eq_erased fun i hi => hblank _ ?_ ?_).symm
  · unfold Layout.blockOffset
    omega
  · unfold Layout.blockOffset
    omega

/-- A read changes nothing that is held. -/
theorem OnPart.read (h : OnPart l policy patience memory A d)
    (hsize : l.flashBytes.toNat ≤ memory.size) (hw : l.WindowFits) (buffer : List UInt8)
    (lba count : UInt32) :
    OnPart l policy patience memory A (state (readBlocks buffer lba count d)) ∧
      (state (readBlocks buffer lba count d)).store.stage = d.store.stage := by
  apply Meets.state (P := fun d' => OnPart l policy patience memory A d' ∧
    d'.store.stage = d.store.stage)
  apply (readBlocks_held (Timed.laws l patience hsize) hw h buffer lba count).mono
  · intro _ d' h'
    exact h'.2.2
  · intro _ d' h'
    obtain ⟨-, -, -, rfl⟩ := h'
    exact ⟨h, rfl⟩

/-- A disk that stages sectors holds what was written, in whatever order. -/
theorem Written.staged (h : Written d writes d') (hsize : l.flashBytes.toNat ≤ memory.size)
    (hw : l.WindowFits) (hd : OnPart l .staged patience memory (Write.stored []) d) :
    OnPart l .staged patience memory (Write.stored writes) d' := by
  have hkeeper := (Timed.laws (τ := τ) l patience hsize).keeper hd.valid
  induction h with
  | start => exact hd
  -- Staging asks nothing of the order of writes.
  | write before w write_eq ih =>
    have hwritten := writeBlocks_kept hkeeper hw ih w.source w.lba w.count
    rw [write_eq] at hwritten
    rw [Write.stored_concat]
    exact hwritten.2
  | read before buffer lba count ih => exact (ih.read hsize hw buffer lba count).1
  | flush before ih =>
    apply Meets.state (P := OnPart l .staged patience memory _)
    exact (flush_kept hkeeper ih).mono (fun _ _ h' => h'.1) fun _ _ h' => h'.2
  | world before device memory_eq mode_eq ih => exact ih.world device memory_eq mode_eq

/-- A disk that writes at once holds what was written, if the writes are orderly. -/
theorem Written.atOnce (h : Written d writes d') (horder : Write.Orderly writes)
    (hsize : l.flashBytes.toNat ≤ memory.size) (hw : l.WindowFits)
    (hd : OnPart l .onSectorStart patience memory (Write.stored []) d)
    (hstage : d.store.stage = none) :
    OnPart l .onSectorStart patience memory (Write.stored writes) d' ∧ d'.store.stage = none := by
  have hlaws := Timed.laws (τ := τ) l patience hsize
  induction h with
  | start => exact ⟨hd, hstage⟩
  -- Erasing for the first block of a sector is harmless as no block of it was written.
  | write before w write_eq ih =>
    obtain ⟨h₁, hstage₁⟩ := ih horder.of_append
    have hwritten := writeBlocks_held hlaws h₁ hstage₁ w.source w.lba w.count
      fun i hi => horder.writable hi
    rw [write_eq] at hwritten
    rw [Write.stored_concat]
    exact hwritten
  | read before buffer lba count ih =>
    obtain ⟨h₁, hstage₁⟩ := ih horder
    obtain ⟨h₂, hstage₂⟩ := h₁.read hsize hw buffer lba count
    exact ⟨h₂, hstage₂.trans hstage₁⟩
  | flush before ih =>
    obtain ⟨h₁, hstage₁⟩ := ih horder
    -- Nothing is ever pending.
    rw [flush_of_clean (by rw [Store.pending?, hstage₁]; rfl)]
    exact ⟨h₁, hstage₁⟩
  | world before device memory_eq mode_eq ih =>
    obtain ⟨h₁, hstage₁⟩ := ih horder
    exact ⟨h₁.world device memory_eq mode_eq, hstage₁⟩

/-- A read is decided by the layout and answered from the array. -/
theorem OnPart.readBlocks_eq (h : OnPart l policy patience memory A d)
    (hsize : l.flashBytes.toNat ≤ memory.size) (hw : l.WindowFits) (buffer : List UInt8)
    (lba count : UInt32) :
    match l.refusal? lba count buffer.length with
    | none => ∃ d', readBlocks buffer lba count d =
        .ok (Bytes.overwrite buffer (A.bytes lba.toNat count.toNat)) d'
    | some error => readBlocks buffer lba count d = .error (.refused error) d := by
  have hread := readBlocks_held (Timed.laws l patience hsize) hw h buffer lba count
  cases houtcome : readBlocks buffer lba count d with
  | ok bytes d' =>
    rw [houtcome] at hread
    obtain ⟨haccepted, rfl, -⟩ := hread
    rw [haccepted]
    exact ⟨d', rfl⟩
  | error fault d' =>
    rw [houtcome] at hread
    obtain ⟨error, rfl, hrefused, rfl⟩ := hread
    rw [hrefused]

omit [TickSource τ] in
/-- When nothing is pending the array and the bytes around the region make up the memory. -/
theorem OnPart.memory_unique {τ' : Type} {policy' : ErasePolicy} {patience' : Patience}
    {e : Disk (Timed τ')} (hv : l.Valid) (h : OnPart l policy patience memory A d)
    (h' : OnPart l policy' patience' memory A e) (hpending : d.store.pending? = none)
    (hpending' : e.store.pending? = none) :
    d.device.part.memory = e.device.part.memory := by
  obtain ⟨⟨-, huntouched⟩, hheld⟩ := h.device
  obtain ⟨⟨-, huntouched'⟩, hheld'⟩ := h'.device
  have hend := hv.blockOffset_blocks
  unfold Layout.blockOffset at hend
  apply ext_byteAt (huntouched.size_eq.trans huntouched'.size_eq.symm)
  intro j
  by_cases hregion : l.regionBase.toNat ≤ j ∧ j < l.flashBytes.toNat
  -- Byte `i` of block `k`.
  · obtain ⟨i, hi, k, hk, rfl⟩ : ∃ i < 256, ∃ k < l.blocks, j = l.blockOffset k + i := by
      refine ⟨(j - l.regionBase.toNat) % 256, Nat.mod_lt _ (by decide),
        (j - l.regionBase.toNat) / 256, by omega, ?_⟩
      unfold Layout.blockOffset
      omega
    have hblock : l.regionBlocks d.device.part.memory k = l.regionBlocks e.device.part.memory k :=
      (hheld.regionBlocks_eq hpending hk).symm.trans (hheld'.regionBlocks_eq hpending' hk)
    exact byteAt_of_read_eq hblock hi
  · rw [huntouched.byteAt_eq j (by omega), huntouched'.byteAt_eq j (by omega)]

end Disk

/-- **The policies agree.** Two simulated parts start with one memory, in which the data region is
erased, and each is written to under a policy of its own. After the same orderly writes, with
anything else in between, every read is answered alike, and flushes that succeed leave one
memory. -/
theorem policies_agree {τ τ' : Type} [TickSource τ] [TickSource τ'] {l : Layout} (hv : l.Valid)
    (hw : l.WindowFits) {memory : ByteArray} (hsize : l.flashBytes.toNat ≤ memory.size)
    (hblank : ∀ j, l.regionBase.toNat ≤ j → j < l.flashBytes.toNat → byteAt memory j = erasedByte)
    {patience patience' : Patience} {busyPolls busyPolls' : Nat} {ticks : τ} {ticks' : τ'}
    {writes : List Write} (horder : Write.Orderly writes) {d : Disk (Timed τ)}
    {e : Disk (Timed τ')}
    (hd : Disk.Written (.fresh l hv .onSectorStart patience
      { part := { memory, busyPolls }, ticks }) writes d)
    (he : Disk.Written (.fresh l hv .staged patience'
      { part := { memory, busyPolls := busyPolls' }, ticks := ticks' }) writes e) :
    (∀ (buffer : List UInt8) (lba count : UInt32),
      match l.refusal? lba count buffer.length with
      | none => ∃ bytes d' e', Disk.readBlocks buffer lba count d = .ok bytes d' ∧
          Disk.readBlocks buffer lba count e = .ok bytes e'
      | some error => Disk.readBlocks buffer lba count d = .error (.refused error) d ∧
          Disk.readBlocks buffer lba count e = .error (.refused error) e) ∧
    ∀ d' e', Disk.flush d = .ok () d' → Disk.flush e = .ok () e' →
      d'.device.part.memory = e'.device.part.memory := by
  obtain ⟨hkept, hstage⟩ := hd.atOnce horder hsize hw
    (.fresh hv .onSectorStart patience hblank busyPolls ticks) rfl
  have hkept' := he.staged hsize hw (.fresh hv .staged patience' hblank busyPolls' ticks')
  refine ⟨fun buffer lba count => ?_, fun d' e' hflush hflush' => ?_⟩
  · have hread := hkept.readBlocks_eq hsize hw buffer lba count
    have hread' := hkept'.readBlocks_eq hsize hw buffer lba count
    cases hrefusal : l.refusal? lba count buffer.length with
    | none =>
      rw [hrefusal] at hread hread'
      obtain ⟨d', hread⟩ := hread
      obtain ⟨e', hread'⟩ := hread'
      exact ⟨_, d', e', hread, hread'⟩
    | some error =>
      rw [hrefusal] at hread hread'
      exact ⟨hread, hread'⟩
  · have hflushed := Disk.flush_kept ((Timed.laws l patience hsize).keeper hv) hkept
    have hflushed' := Disk.flush_kept ((Timed.laws l patience' hsize).keeper hv) hkept'
    rw [hflush] at hflushed
    rw [hflush'] at hflushed'
    exact Disk.OnPart.memory_unique hv hflushed.1 hflushed'.1 hflushed.2 hflushed'.2

/-- A sector and one block more at once, so that one disk has to write the sector back for the
block, and then another block of the second sector. -/
theorem policies_agree_across_sectors :
    let layout := Board.orangeCrabR01.layout
    let blank := Memory.blank layout.flashBytes.toNat
    let disk (policy : ErasePolicy) (busyPolls : Nat) : Disk (Timed StepClock) :=
      .fresh layout Board.orangeCrabR01.layout_valid policy { timeout := 8, polls := 16 }
        { part := { memory := blank, busyPolls }, ticks := ⟨0, 1⟩ }
    let writes : List Write :=
      [⟨List.replicate 4352 0x5A, 0, 17⟩, ⟨List.replicate 256 0x11, 20, 1⟩]
    ∃ d e, layout.flashBytes.toNat ≤ blank.size ∧ Write.Orderly writes ∧
      Disk.Written (disk .onSectorStart 2) writes d ∧ Disk.Written (disk .staged 5) writes e ∧
      (∃ bytes d' e', Disk.readBlocks (List.replicate 512 0) 3 2 d = .ok bytes d' ∧
        Disk.readBlocks (List.replicate 512 0) 3 2 e = .ok bytes e') ∧
      ∀ d' e', Disk.flush d = .ok () d' → Disk.flush e = .ok () e' →
        d'.device.part.memory = e'.device.part.memory := by
  intro layout blank disk writes
  have hwritten (start : Disk (Timed StepClock))
      (hfirst : Meets (fun _ _ => True) (fun _ _ => False)
        (Disk.writeBlocks (List.replicate 4352 0x5A) 0 17 start))
      (hsecond : Meets (fun _ _ => True) (fun _ _ => False)
        (Disk.writeBlocks (List.replicate 256 0x11) 20 1 (state
          (Disk.writeBlocks (List.replicate 4352 0x5A) 0 17 start)))) :
      ∃ d, Disk.Written start writes d := by
    obtain ⟨_, d₁, hd₁, -⟩ := hfirst.ok fun _ _ => id
    rw [hd₁] at hsecond
    obtain ⟨_, d₂, hd₂, -⟩ := hsecond.ok fun _ _ => id
    exact ⟨d₂, (Disk.Written.start.write ⟨_, _, _⟩ hd₁).write ⟨_, _, _⟩ hd₂⟩
  obtain ⟨d, hd⟩ := hwritten (disk .onSectorStart 2) (by decide +kernel) (by decide +kernel)
  obtain ⟨e, he⟩ := hwritten (disk .staged 5) (by decide +kernel) (by decide +kernel)
  have hsize : layout.flashBytes.toNat ≤ blank.size := Nat.le_of_eq (size_blank _).symm
  have horder : Write.Orderly writes := by decide +kernel
  have hagree := policies_agree Board.orangeCrabR01.layout_valid Board.orangeCrabR01.windowFits
    hsize (fun j _ _ => byteAt_blank _ j) horder hd he
  have hreads (buffer : List UInt8) (haccepted : layout.refusal? 3 2 buffer.length = none) :
      ∃ bytes d' e', Disk.readBlocks buffer 3 2 d = .ok bytes d' ∧
        Disk.readBlocks buffer 3 2 e = .ok bytes e' := by
    have hread := hagree.1 buffer 3 2
    rw [haccepted] at hread
    exact hread
  exact ⟨d, e, hsize, horder, hd, he, hreads (List.replicate 512 0) (by decide +kernel), hagree.2⟩

end NorDisk
