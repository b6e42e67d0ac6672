import NorDisk.Disk
import NorDisk.Uf2.Bitmap
import NorDisk.Uf2.Record

/-!
# Transfers of update records

A transfer is the run of records with the same block count. It completes with the record that makes
every block number seen; block numbers of `trackedBlocks` and more are written but not tracked.
`Intake` joins a transfer with the disk that its records go to: `receive` decodes a record, skips
one of another family, writes its payload to the block at its target and brings pending writes to
the part when the transfer completes. A record that is skipped or misplaced still counts as seen, a
record that the flash refused does not.
-/

namespace NorDisk.Uf2

/-- The transfer in progress. -/
structure Transfer where
  /-- Family of the records that are accepted. -/
  family : UInt32
  total : UInt32 := 0
  /-- How many distinct block numbers came so far. -/
  seen : UInt32 := 0
  complete : Bool := false
  /-- Which ones. -/
  written : Bitmap := .empty
  /-- The counter is moved with the bitmap, one block number at a time. -/
  seen_eq : seen.toNat = written.population := by exact NorDisk.Uf2.Bitmap.toNat_zero
deriving DecidableEq, Repr

namespace Transfer

def restart (t : Transfer) : Transfer := { family := t.family }

def inProgress (t : Transfer) : Bool := 0 < t.seen && !t.complete

/-- Is the record meant for another family of boards? -/
def isForeign (t : Transfer) (r : Record) : Bool := r.hasFamily && r.family ≠ t.family

/-- The transfer that a record is counted in; another block count starts it anew. -/
def opened (r : Record) (t : Transfer) : Transfer :=
  if r.numBlocks ≠ t.total then { t.restart with total := r.numBlocks } else t

/-- Remember a block number; one that came before does not count again. -/
def mark (n : Fin trackedBlocks) (t : Transfer) : Transfer :=
  if h : t.written.isSet n = false then
    { t with
      seen := t.seen + 1
      written := t.written.set n
      seen_eq := Bitmap.toNat_add_one t.seen_eq h }
  else t

/-- Count a record as seen; the answer tells whether it completes the transfer. -/
def track (r : Record) (t : Transfer) : Bool × Transfer :=
  let t := t.opened r
  if t.complete || t.total ≤ r.blockNo then (false, t)
  else if h : r.blockNo.toNat < trackedBlocks then
    let t := t.mark ⟨r.blockNo.toNat, h⟩
    if t.seen = t.total then (true, { t with complete := true }) else (false, t)
  else (false, t)

@[simp] theorem family_opened (r : Record) (t : Transfer) : (t.opened r).family = t.family := by
  unfold opened
  split <;> rfl

/-- Counting leaves the family, the block count and the end of a transfer. -/
theorem mark_keeps (n : Fin trackedBlocks) (t : Transfer) :
    (t.mark n).family = t.family ∧ (t.mark n).total = t.total ∧
      (t.mark n).complete = t.complete := by
  unfold mark
  split <;> exact ⟨rfl, rfl, rfl⟩

theorem seen_mark {n : Fin trackedBlocks} {t : Transfer} (h : t.written.isSet n = false) :
    (t.mark n).seen = t.seen + 1 := by
  rw [mark, dif_pos h]

/-- **Marking a block number** sets its bit, and no other one. -/
theorem isSet_mark (m n : Fin trackedBlocks) (t : Transfer) :
    (t.mark m).written.isSet n = (t.written.isSet n || n == m) := by
  unfold mark
  split
  · exact Bitmap.isSet_set _ _ _
  · rename_i h
    by_cases hn : n = m
    · subst hn
      simp_all
    · rw [beq_false_of_ne hn, Bool.or_false]

theorem family_track (r : Record) (t : Transfer) : (t.track r).2.family = t.family := by
  have hopened := family_opened r t
  rw [track]
  split
  · exact hopened
  · split
    · rename_i h
      have hmark := (mark_keeps ⟨r.blockNo.toNat, h⟩ (t.opened r)).1.trans hopened
      dsimp only
      split <;> exact hmark
    · exact hopened

end Transfer

/-- The block that a record is meant for, or why it has none. -/
def placement (l : Layout) (r : Record) : Except (Fault Error) UInt32 :=
  if r.payloadSize ≠ blockBytes then .error (.refused (.badPayloadSize r.payloadSize))
  else if r.target % blockBytes ≠ 0 then .error (.refused (.misaligned r.target))
  else
    match l.blockAt? r.target with
    | .error cause => .error (.trap cause)
    | .ok none => .error (.refused (.outsideRegion r.target))
    | .ok (some lba) => .ok lba

/-- What became of an accepted record. -/
inductive Status where
  | written (lba : UInt32)
  /-- It was not meant for this board or not for the main flash. -/
  | ignored
  /-- It completed the transfer; `lba` is the block it was written to, if any. -/
  | complete (lba : Option UInt32)
deriving DecidableEq, Repr

/-- A transfer with the disk that its records go to. -/
structure Intake (σ : Type) where
  transfer : Transfer
  disk : Disk σ

namespace Intake

variable {σ : Type}

/-- An action on the disk alone. -/
def withDisk {ε α : Type} (act : Action ε (Disk σ) α) : Action ε (Intake σ) α :=
  fun ⟨transfer, disk⟩ =>
    match act disk with
    | .ok a disk => .ok a ⟨transfer, disk⟩
    | .error fault disk => .error fault ⟨transfer, disk⟩

/-- A request on the disk; its refusal is that of the record. -/
def onDisk {α : Type} (act : Action FlashError (Disk σ) α) : Action Error (Intake σ) α :=
  (withDisk act).mapError .flash

/-- What transfer and layout say. -/
def ask {α : Type} (f : Transfer → Layout → α) : Action Error (Intake σ) α := fun i =>
  let a := f i.transfer i.disk.store.layout
  .ok a i

def restart (i : Intake σ) : Intake σ := { i with transfer := i.transfer.restart }

variable [Controller σ] [TickSource σ]

/-- Count a record as seen and end the transfer if it is complete now. -/
def track (r : Record) : Action Error (Intake σ) Bool := do
  let complete ← .ofStep fun i =>
    let (complete, transfer) := i.transfer.track r
    (complete, { i with transfer })
  if complete then onDisk Disk.flush
  return complete

/-- Take the bytes of one record. -/
def receive (bytes : List UInt8) : Action Error (Intake σ) Status := do
  let r ← .ofExcept (Record.decode bytes)
  if ← ask fun transfer _ => transfer.isForeign r then
    return .ignored
  else if r.isMainFlash then
    match ← ask fun _ layout => placement layout r with
    | .ok lba =>
      onDisk (Disk.writeBlocks r.payload lba 1)
      if ← track r then return .complete (some lba) else return .written lba
    | .error (.trap cause) => .stop cause
    | .error (.refused error) =>
      discard (track r)
      .refuse error
  else if ← track r then
    return .complete none
  else
    return .ignored

end Intake

end NorDisk.Uf2
