import NorDisk.Proofs.DirectWrite
import NorDisk.Proofs.Intake
import NorDisk.Proofs.UpdateFile

/-!
# Replaying an update file

The records of data are taken in order by an intake on a blank part that never stalls. What it keeps
is the same for both policies: after `i` records the disk holds the array that is blank but for the
first `i` blocks of the data (`receive_meets` is one record). For the policy that writes at once it
matters that the blocks after them are still blank, so that erasing for the first block of a sector
loses nothing.
-/

namespace NorDisk

open Outcome Memory

namespace Outcome

/-- Refusals are renamed; a trap would pass through. -/
theorem Meets.mapError_of {ε ε' σ α : Type} {f : ε → ε'} {act : Action ε σ α} {s : σ}
    {good : α → σ → Prop} {bad : Fault ε → σ → Prop} {bad' : Fault ε' → σ → Prop}
    (h : Meets good bad (act s))
    (hbad : ∀ fault s', bad fault s' →
      ∃ error, fault = .refused error ∧ bad' (.refused (f error)) s') :
    Meets good bad' (act.mapError f s) := by
  unfold Action.mapError
  match act s, h with
  | .ok a s', h => exact h
  | .error fault s', h =>
    obtain ⟨error, rfl, h'⟩ := hbad fault s' h
    exact h'

/-- What does not fail does not fail under another name. -/
theorem Meets.mapError {ε ε' σ α : Type} {f : ε → ε'} {act : Action ε σ α} {s : σ}
    {good : α → σ → Prop} (h : Meets good (fun _ _ => False) (act s)) :
    Meets good (fun _ _ => False) (act.mapError f s) :=
  Meets.mapError_of h fun _ _ => False.elim

/-- A fold over numbers keeps what each of its steps advances by one. -/
theorem Meets.foldlM_range {ε σ α : Type} {f : α → Nat → Action ε σ α} {I : Nat → σ → Prop}
    {bad : Fault ε → σ → Prop} (n : Nat)
    (hstep : ∀ i < n, ∀ a s, I i s → Meets (fun _ => I (i + 1)) bad (f a i s)) (a : α) {s : σ}
    (hs : I 0 s) : Meets (fun _ => I n) bad ((List.range n).foldlM f a s) := by
  induction n with
  | zero => exact hs
  | succ n ih =>
    -- From the back, so that the last number comes after all others.
    rw [List.range_succ, List.foldlM_append]
    refine Action.Meets.bind (ih fun i hi => hstep i (Nat.lt_succ_of_lt hi)) ?_
    intro a' s' hs'
    rw [List.foldlM_cons]
    refine Action.Meets.bind (hstep n (Nat.lt_succ_self n) a' s' hs') ?_
    intro a₂ s₂ hs₂
    exact hs₂

end Outcome

/-- Data of one block is one piece. -/
theorem Bytes.pieces_one {size : Nat} {block : List UInt8} (h : block.length = size) :
    pieces size 1 block = [block] := by
  rw [pieces, pieces, List.take_of_length_le (Nat.le_of_eq h)]

/-- A write of one block of the region is not refused. -/
theorem Layout.refusal?_block {l : Layout} {lba : UInt32} (hlba : lba.toNat < l.blocks)
    {block : List UInt8} (hlength : block.length = 256) :
    l.refusal? lba 1 block.length = none :=
  refusal?_eq_none hlba (Nat.le_of_eq hlength.symm)

/-- The disk holds an array, in the way of its policy. -/
def Holds (l : Layout) (patience : Patience) (c : Bench.Setting) (A : BlockArray)
    (d : Disk (Bench NorPart)) : ErasePolicy → Prop
  | .onSectorStart => Direct l patience c A d
  | .staged => Backs l patience c A d

section Holds

variable {l : Layout} {patience : Patience} {c : Bench.Setting} {A : BlockArray}
  {d : Disk (Bench NorPart)} {policy : ErasePolicy}

/-- A fresh disk holds what its part does. -/
theorem Holds.fresh (hv : l.Valid) (policy : ErasePolicy) (patience : Patience)
    (memory : ByteArray) (busyPolls : Nat) (clock : StepClock) :
    Holds l patience (Bench.fresh memory busyPolls clock).setting (l.regionBlocks memory)
      (.fresh l hv policy patience (Bench.fresh memory busyPolls clock)) policy := by
  cases policy with
  | onSectorStart => exact ⟨rfl, rfl, rfl, rfl, ⟨rfl, rfl, Nat.zero_le _⟩, fun _ _ => rfl⟩
  | staged => exact Backs.fresh hv patience memory busyPolls clock

theorem Holds.steady (h : Holds l patience c A d policy) : d.device.Steady c d.store.mode := by
  cases policy with
  | onSectorStart => exact Direct.steady h
  | staged => exact Backs.steady h

theorem Holds.layout_eq (h : Holds l patience c A d policy) : d.store.layout = l := by
  cases policy with
  | onSectorStart => exact Direct.layout_eq h
  | staged => exact Backs.layout_eq h

namespace Disk

/-- No command stalls on a brisk part. -/
theorem not_stalled {fault : Fault FlashError} (hbrisk : c.Brisk patience.timeout) :
    ¬ Stalled c patience fault :=
  fun h => h.2 hbrisk

/-- On a brisk part a disk that stages sectors stores a block. -/
theorem writeBlock_staged_meets (hp : patience.Ample c.step) (hsize : l.flashBytes.toNat ≤ c.size)
    (hw : l.WindowFits) (hbrisk : c.Brisk patience.timeout) (h : Backs l patience c A d)
    {lba : UInt32} (hlba : lba.toNat < l.blocks) {block : List UInt8}
    (hlength : block.length = 256) :
    Meets (fun _ d' => Backs l patience c (A.store lba.toNat [block]) d') (fun _ _ => False)
      (writeBlocks block lba 1 d) := by
  refine (writeBlocks_meets hp hsize hw h block lba 1).mono ?_ ?_
  · rintro _ d' ⟨-, h'⟩
    rwa [show (1 : UInt32).toNat = 1 from rfl, Bytes.pieces_one hlength] at h'
  · rintro fault d' (⟨error, -, hrefused, -⟩ | ⟨-, hstalled, -⟩)
    · exact absurd ((Layout.refusal?_block hlba hlength).symm.trans hrefused) (by simp)
    · exact not_stalled hbrisk hstalled

/-- On a brisk part either disk stores a block, if the blocks from there on are blank. -/
theorem writeBlock_meets (hp : patience.Ample c.step) (hsize : l.flashBytes.toNat ≤ c.size)
    (hw : l.WindowFits) (hbrisk : c.Brisk patience.timeout) (h : Holds l patience c A d policy)
    {lba : UInt32} (hlba : lba.toNat < l.blocks) {block : List UInt8} (hlength : block.length = 256)
    (hblank : ∀ k, lba.toNat ≤ k → k < l.blocks → A k = blankBlock) :
    Meets (fun _ d' => Holds l patience c (A.store lba.toNat [block]) d' policy)
      (fun _ _ => False) (writeBlocks block lba 1 d) := by
  cases policy with
  | staged => exact writeBlock_staged_meets hp hsize hw hbrisk h hlba hlength
  | onSectorStart =>
    obtain ⟨hkept, hstage⟩ := direct_iff_kept.mp h
    have hone : (1 : UInt32).toNat = 1 := rfl
    refine (writeBlocks_held (Bench.laws l hp hsize) hkept hstage block lba 1 fun i hi => ?_).mono
      ?_ ?_
    · obtain rfl : i = 0 := by omega
      exact .of_blank hblank hlba
    · intro _ d' h'
      rw [hone, Bytes.pieces_one hlength] at h'
      exact direct_iff_kept.mpr h'
    · rintro fault d' (⟨error, -, hrefused⟩ | hstalled)
      · exact absurd ((Layout.refusal?_block hlba hlength).symm.trans hrefused) (by simp)
      · exact not_stalled hbrisk hstalled

/-- On a brisk part a flush leaves the array in the memory. -/
theorem flush_holds (hp : patience.Ample c.step) (hsize : l.flashBytes.toNat ≤ c.size)
    (hbrisk : c.Brisk patience.timeout) (h : Holds l patience c A d policy) :
    Meets (fun _ d' => Holds l patience c A d' policy ∧
        ∀ k < l.blocks, A k = l.regionBlocks d'.device.part.memory k)
      (fun _ _ => False) (flush d) := by
  cases policy with
  | staged =>
    refine (flush_meets hp hsize h).mono ?_ fun fault _ hd => not_stalled hbrisk hd.1
    rintro _ d' ⟨h', hpending⟩
    exact ⟨h', fun k hk => h'.regionBlocks_eq hpending hk⟩
  | onSectorStart =>
    have hdirect : Direct l patience c A d := h
    have hpending : d.store.pending? = none := by
      rw [Store.pending?, hdirect.stage_eq]
      rfl
    rw [flush, ask_bind, hpending]
    exact ⟨h, hdirect.block_eq⟩

end Disk

end Holds

namespace Uf2

namespace Intake

variable {l : Layout} {patience : Patience} {c : Bench.Setting} {A : BlockArray}
  {policy : ErasePolicy} {i : Intake (Bench NorPart)} {ε α : Type}

/-- What is done with the disk leaves the transfer alone. -/
theorem withDisk_meets {act : Action ε (Disk (Bench NorPart)) α}
    {good : α → Disk (Bench NorPart) → Prop}
    (h : Meets good (fun _ _ => False) (act i.disk)) :
    Meets (fun a i' => i'.transfer = i.transfer ∧ good a i'.disk) (fun _ _ => False)
      (withDisk act i) := by
  obtain ⟨transfer, disk⟩ := i
  change Meets good (fun _ _ => False) (act disk) at h
  unfold withDisk
  cases hact : act disk with
  | ok a disk' =>
    rw [hact] at h
    simpa only [hact] using ⟨rfl, h⟩
  | error fault disk' =>
    rw [hact] at h
    exact h.elim

/-- Counting a record keeps the array, also when the transfer is complete and flushed. -/
theorem track_meets (hp : patience.Ample c.step) (hsize : l.flashBytes.toNat ≤ c.size)
    (hbrisk : c.Brisk patience.timeout) (h : Holds l patience c A i.disk policy) (r : Record) :
    Meets (fun _ i' => Holds l patience c A i'.disk policy ∧
        i'.transfer.family = i.transfer.family)
      (fun _ _ => False) (track r i) := by
  have hfamily := Transfer.family_track r i.transfer
  rw [track, Action.ofStep_bind]
  cases (i.transfer.track r).1 with
  | false => exact ⟨h, hfamily⟩
  -- The transfer is complete, so the disk is flushed, and a flush keeps the array.
  | true =>
    have hflushed := Meets.mapError (f := Error.flash) (withDisk_meets
      (i := { i with transfer := (i.transfer.track r).2 }) (Disk.flush_holds hp hsize hbrisk h))
    refine Action.Meets.bind hflushed ?_
    rintro _ i' ⟨htransfer, h', -⟩
    exact ⟨h', (congrArg Transfer.family htransfer).trans hfamily⟩

/-- Whatever the answer to a record is once it is counted. -/
theorem track_answer_meets (hp : patience.Ample c.step) (hsize : l.flashBytes.toNat ≤ c.size)
    (hbrisk : c.Brisk patience.timeout) (h : Holds l patience c A i.disk policy) (r : Record)
    (last other : Status) :
    Meets (fun _ i' => Holds l patience c A i'.disk policy ∧
        i'.transfer.family = i.transfer.family)
      (fun _ _ => False) ((do if ← track r then return last else return other) i) := by
  refine Action.Meets.bind (track_meets hp hsize hbrisk h r) ?_
  intro complete i' h'
  cases complete <;> exact h'

/-- A record whose block is stored keeps the array with the block in it. -/
theorem store_answer_meets {A' : BlockArray} {r : Record} {lba : UInt32}
    (hp : patience.Ample c.step) (hsize : l.flashBytes.toNat ≤ c.size)
    (hbrisk : c.Brisk patience.timeout)
    (h : Meets (fun _ d' => Holds l patience c A' d' policy) (fun _ _ => False)
      (Disk.writeBlocks r.payload lba 1 i.disk)) (last other : Status) :
    Meets (fun _ i' => Holds l patience c A' i'.disk policy ∧
        i'.transfer.family = i.transfer.family)
      (fun _ _ => False) ((do
        onDisk (Disk.writeBlocks r.payload lba 1)
        if ← track r then return last else return other) i) := by
  refine Action.Meets.bind (Meets.mapError (f := Error.flash) (withDisk_meets h)) ?_
  intro _ i₁ h₁
  obtain ⟨htransfer, hstored⟩ := h₁
  rw [← htransfer]
  exact track_answer_meets hp hsize hbrisk hstored r last other

/-- **One record.** A record for a block with blank blocks after it is stored. -/
theorem receive_meets (hp : patience.Ample c.step) (hsize : l.flashBytes.toNat ≤ c.size)
    (hw : l.WindowFits) (hbrisk : c.Brisk patience.timeout)
    (h : Holds l patience c A i.disk policy) {r : Record} (hfamily : r.family = i.transfer.family)
    (hmain : r.isMainFlash = true) {lba : UInt32} (hplace : placement l r = .ok lba)
    (hlba : lba.toNat < l.blocks) (hlength : r.payload.length = 256)
    (hblank : ∀ k, lba.toNat ≤ k → k < l.blocks → A k = blankBlock) :
    Meets (fun _ i' => Holds l patience c (A.store lba.toNat [r.payload]) i'.disk policy ∧
        i'.transfer.family = i.transfer.family)
      (fun _ _ => False) (receive r.encode i) := by
  -- The record is decoded, of the family of the transfer, meant for the part, and has a place.
  have hforeign : i.transfer.isForeign r = false := by simp [Transfer.isForeign, hfamily]
  rw [receive, Record.decode_encode, Action.ofExcept_bind, ask_bind, hforeign,
    if_neg Bool.false_ne_true, if_pos hmain, ask_bind, h.layout_eq, hplace]
  exact store_answer_meets hp hsize hbrisk
    (Disk.writeBlock_meets hp hsize hw hbrisk h hlba hlength hblank) _ _

end Intake

end Uf2

end NorDisk
