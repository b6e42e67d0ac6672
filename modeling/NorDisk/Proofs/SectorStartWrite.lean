import NorDisk.Proofs.AnsweredRequests
import NorDisk.Proofs.CommandTraces
import NorDisk.Proofs.DirectWrite

/-!
# What a write at once leaves

A write at once goes through its blocks in order. A block that starts a sector has the whole sector
erased before it is programmed; any other block is programmed over what the part holds. So every
block after the first sector start of the request is stored, the blocks before it are masked, and
the rest of the last sector is left blank, if its first block was written.

* **`BlockArray.programBlocks`** — the array that these three cases describe; one more block is one
  more `programBlock` (`programBlock_programBlocks`).
* **`Layout.regionBlocks_requestCommands`** — the commands of a request make it.
* **`write_at_once_exact`** — a write at once on a part that never stalls: its commands, and the
  memory after it, block by block inside the region and byte by byte around it.
-/

namespace NorDisk

open Outcome Memory

/-- Is block `k` one of `n` blocks from `lba` on? -/
abbrev Requested (lba n k : Nat) : Prop := lba ≤ k ∧ k < lba + n

namespace BlockArray

variable {A : BlockArray} {block : Nat → List UInt8} {lba n : Nat}

/-- The array after `n` blocks from `lba` on were written at once. A block is stored, or all of its
sector is blank, if the first block of its sector was among them. -/
def programBlocks (A : BlockArray) (lba n : Nat) (block : Nat → List UInt8) : BlockArray := fun k =>
  if Requested lba n k then
    if Requested lba n (16 * (k / 16)) then block (k - lba)
    else List.zipWith (· &&& ·) (A k) (block (k - lba))
  else if Requested lba n (16 * (k / 16)) then blankBlock
  else A k

/-- Writing no blocks changes nothing. -/
theorem programBlocks_zero : A.programBlocks lba 0 block = A := by
  funext k
  rw [programBlocks, if_neg (by omega), if_neg (by omega)]

/-- One block more. -/
theorem programBlock_programBlocks (hlength : (block n).length = 256) (k : Nat) :
    (A.programBlocks lba n block).programBlock (lba + n) (block n) k =
      A.programBlocks lba (n + 1) block k := by
  by_cases hself : k = lba + n
  · subst hself
    have hnot : ¬ Requested lba n (lba + n) := by omega
    have hnow : Requested lba (n + 1) (lba + n) := by omega
    rw [programBlock, programBlocks, programBlocks, if_pos rfl, if_neg hnot, if_pos hnow,
      Nat.add_sub_cancel_left]
    by_cases hfirst : (lba + n) % 16 = 0
    · rw [if_pos hfirst, if_pos (by omega)]
    · rw [if_neg hfirst]
      -- The sector was erased for an earlier block, or not at all.
      by_cases hsector : Requested lba n (16 * ((lba + n) / 16))
      · rw [if_pos hsector, if_pos (by omega), blankBlock, zipWith_erased hlength]
      · rw [if_neg hsector, if_neg (by omega)]
  · rw [programBlock, if_neg hself]
    -- Another block is changed only if the new one starts its sector.
    by_cases hsector : (lba + n) % 16 = 0 ∧ k / 16 = (lba + n) / 16
    · rw [if_pos hsector, programBlocks, if_neg (by omega), if_pos (by omega)]
    · have hblock : Requested lba (n + 1) k ↔ Requested lba n k := by omega
      have hstart : Requested lba (n + 1) (16 * (k / 16)) ↔ Requested lba n (16 * (k / 16)) := by
        omega
      rw [if_neg hsector]
      simp only [programBlocks, hblock, hstart]

end BlockArray

namespace Layout

variable {l : Layout} {memory : ByteArray} {source : List UInt8} {lba n : Nat}

/-- The commands of one block more come last. -/
theorem requestCommands_succ (l : Layout) (source : List UInt8) (lba n : Nat) :
    l.requestCommands source lba (n + 1) =
      l.requestCommands source lba n ++ l.blockCommands (lba + n) (Bytes.blockAt source n) := by
  simp [requestCommands, List.range_succ]

/-- The commands of a request make of the blocks what `programBlocks` says. Induction on the blocks,
the last one apart. -/
theorem regionBlocks_requestCommands (hv : l.Valid) (hrange : lba + n ≤ l.blocks)
    (hsize : l.flashBytes.toNat ≤ memory.size) (hsource : 256 * n ≤ source.length) (k : Nat) :
    l.regionBlocks (Command.applyAll (l.requestCommands source lba n) memory) k =
      (l.regionBlocks memory).programBlocks lba n (Bytes.blockAt source) k := by
  induction n generalizing k with
  | zero =>
    rw [BlockArray.programBlocks_zero]
    rfl
  | succ n ih =>
    have hblocks := blocks_lt l
    -- The number of the last block as a word, since its commands are given for one.
    obtain ⟨word, hword⟩ : ∃ word : UInt32, word.toNat = lba + n :=
      ⟨UInt32.ofNat (lba + n), UInt32.toNat_ofNat_of_lt' (by unfold UInt32.size; omega)⟩
    have hlength := Bytes.length_blockAt (Nat.lt_succ_self n) hsource
    have harray : l.regionBlocks (Command.applyAll (l.requestCommands source lba n) memory) =
        (l.regionBlocks memory).programBlocks lba n (Bytes.blockAt source) :=
      funext fun k => ih (by omega) (by omega) k
    rw [requestCommands_succ, Command.applyAll_append, ← hword, ← blockWrite_eq hv (by omega),
      regionBlocks_applyAll_blockWrite hv (by omega) (by rwa [Command.size_applyAll]) hlength,
      harray, hword, BlockArray.programBlock_programBlocks hlength]

/-- The commands of a request reach no byte outside of the region. -/
theorem byteAt_requestCommands (hv : l.Valid) {lba : UInt32} (hrange : lba.toNat + n ≤ l.blocks)
    (hsource : 256 * n ≤ source.length) {j : Nat}
    (hj : j < l.regionBase.toNat ∨ l.flashBytes.toNat ≤ j) :
    byteAt (Command.applyAll (l.requestCommands source lba.toNat n) memory) j =
      byteAt memory j := by
  apply Command.byteAt_applyAll_of_not_touches
  intro command hmem htouches
  rw [← writes_pieces hv hrange] at hmem
  have hwithin := within_of_mem_writes hv (by rwa [Bytes.length_pieces])
    (fun block hblock => Bytes.length_of_mem_pieces hsource hblock) hmem
  have := hwithin.of_touches htouches
  omega

end Layout

namespace Disk

variable {τ : Type} {source : List UInt8} {lba count : UInt32}

/-- A write at once took the disk from one state to another: it sent the commands of its blocks, in
their order, and left in the memory what they make of the blocks there. The bytes around the region
stay. -/
structure WrittenAtOnce (source : List UInt8) (lba count : UInt32)
    (d d' : Disk (Traced (Timed τ))) : Prop where
  commands_eq : d'.device.commands = d.device.commands ++
    d.store.layout.requestCommands source lba.toNat count.toNat
  size_eq : d'.memory.size = d.memory.size
  block_eq : ∀ k, d.store.layout.regionBlocks d'.memory k =
    (d.store.layout.regionBlocks d.memory).programBlocks lba.toNat count.toNat
      (Bytes.blockAt source) k
  elsewhere : ∀ j, j < d.store.layout.regionBase.toNat ∨ d.store.layout.flashBytes.toNat ≤ j →
    byteAt d'.memory j = byteAt d.memory j

end Disk

/-- **A write at once is exact.** On a part that never stalls every write of blocks in the region is
done, and does what it should to the part. -/
theorem write_at_once_exact {τ : Type} [TickSource τ] {d : Disk (Traced (Timed τ))}
    {source : List UInt8} {lba count : UInt32} (hpolicy : d.store.policy = .onSectorStart)
    (hsize : d.store.layout.flashBytes.toNat ≤ d.memory.size)
    (hstalls : NeverStalls d.store.patience d.device.inner)
    (hrange : lba.toNat + count.toNat ≤ d.store.layout.blocks)
    (hsource : 256 * count.toNat ≤ source.length) :
    ∃ d', Disk.writeBlocks source lba count d = .ok () d' ∧
      Disk.WrittenAtOnce source lba count d d' := by
  have hv := d.store.layout_valid
  by_cases hcount : count = 0
  · subst hcount
    refine ⟨d, rfl, (List.append_nil _).symm, rfl, fun k => ?_, fun _ _ => rfl⟩
    rw [show (0 : UInt32).toNat = 0 from rfl, BlockArray.programBlocks_zero]
  · obtain ⟨I, hc, hI⟩ := hstalls.traced
    obtain ⟨d', hwrite, -⟩ := Disk.writeBlocks_answered hc hI
      (Layout.refusal?_eq_none hrange hsource)
      fun hstaged => absurd (hpolicy.symm.trans hstaged) (by decide)
    -- The write is done; its trace and its memory are those of its commands.
    have hserved := Disk.writeBlocks_served hpolicy source lba hcount
    rw [hwrite] at hserved
    have hcommands := hserved.commands_eq
    have hmemory : d'.memory = Command.applyAll
        (d.store.layout.requestCommands source lba.toNat count.toNat) d.memory := hserved.serves.2
    refine ⟨d', hwrite, ?_, ?_, fun k => ?_, fun j hj => ?_⟩
    · rw [hcommands, Disk.filterMap_commandStart]
    · rw [hmemory, Command.size_applyAll]
    · rw [hmemory, Layout.regionBlocks_requestCommands hv hrange hsize hsource]
    · rw [hmemory, Layout.byteAt_requestCommands hv hrange hsource hj]

/-- Three blocks across the start of a sector, on a part with bits cleared, as the clock wraps. -/
theorem write_at_once_exact_across_sectors :
    let disk (memory : ByteArray) : Disk (Traced (Timed StepClock)) :=
      .fresh Board.orangeCrabR01.layout Board.orangeCrabR01.layout_valid .onSectorStart
        { timeout := 8, polls := 16 } { inner := ⟨{ memory, busyPolls := 2 }, ⟨0xFFFFFFFF, 1⟩⟩ }
    let d := disk (Memory.patch 0x80F00 (List.replicate 256 0x0F)
      (Memory.blank Board.orangeCrabR01.layout.flashBytes.toNat))
    let source : List UInt8 := List.replicate 768 0x5A
    d.store.layout.flashBytes.toNat ≤ d.memory.size ∧
      NeverStalls d.store.patience d.device.inner ∧
      (15 : UInt32).toNat + (3 : UInt32).toNat ≤ d.store.layout.blocks ∧
      256 * (3 : UInt32).toNat ≤ source.length ∧
      ∃ d', Disk.writeBlocks source 15 3 d = .ok () d' ∧ Disk.WrittenAtOnce source 15 3 d d' := by
  intro disk d source
  have hsize (memory : ByteArray) (h : memory.size = Board.orangeCrabR01.layout.flashBytes.toNat) :
      (disk memory).store.layout.flashBytes.toNat ≤ (disk memory).memory.size := Nat.le_of_eq h.symm
  have hmemory := hsize (Memory.patch 0x80F00 (List.replicate 256 0x0F)
    (Memory.blank Board.orangeCrabR01.layout.flashBytes.toNat)) (by rw [size_patch, size_blank])
  have hhealthy : d.device.inner.bench.Healthy d.store.patience 2 :=
    ⟨⟨rfl, by decide, by decide⟩, ⟨by decide, by decide, by decide⟩, by decide⟩
  have hrange : (15 : UInt32).toNat + (3 : UInt32).toNat ≤ d.store.layout.blocks := by decide
  have hsource : 256 * (3 : UInt32).toNat ≤ source.length := by
    rw [List.length_replicate]
    decide
  exact ⟨hmemory, hhealthy.neverStalls, hrange, hsource,
    write_at_once_exact rfl hmemory hhealthy.neverStalls hrange hsource⟩

end NorDisk
