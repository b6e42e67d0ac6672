import NorDisk.Proofs.CommandLists
import NorDisk.Proofs.Requests

/-!
# Arrays of blocks

The disk that a client has in mind is an array of blocks: a write stores blocks, a read answers
them, and a flush changes nothing that a read could tell. `BlockArray.Answers` is that disk as a
relation between the arrays before and after a request and the reply. It is a relation and not a
function because a part may stall: a write that is refused for it has stored some of its blocks.

* **`Layout.regionBlocks`** — the array in the data region of a memory.
* **`BlockArray.Answers`** — what a request may reply and do to the array.
-/

namespace NorDisk

namespace Bytes

/-- The first pieces of a list are the pieces of a shorter cut. -/
theorem take_pieces (size : Nat) {m n : Nat} (h : m ≤ n) (bytes : List UInt8) :
    (pieces size n bytes).take m = pieces size m bytes := by
  induction m generalizing n bytes with
  | zero => rfl
  | succ m ih =>
    cases n with
    | zero => exact absurd h (Nat.not_succ_le_zero m)
    | succ n =>
      rw [pieces, pieces, List.take_succ_cons, ih (Nat.le_of_succ_le_succ h)]

end Bytes

namespace Memory

/-- A stretch is read in two parts. -/
theorem read_add (memory : ByteArray) (start m n : Nat) :
    read memory start (m + n) = read memory start m ++ read memory (start + m) n := by
  simp only [read, List.range_add, List.map_append, List.map_map]
  congr 1
  apply List.map_congr_left
  intro i _
  show byteAt memory (start + (m + i)) = byteAt memory (start + m + i)
  rw [Nat.add_assoc]

/-- A stretch of whole blocks cut into them. -/
theorem pieces_read (memory : ByteArray) (start n : Nat) :
    Bytes.pieces 256 n (read memory start (256 * n)) =
      (List.range n).map fun i => read memory (start + 256 * i) 256 := by
  induction n generalizing start with
  | zero => rfl
  | succ n ih =>
    -- The first piece is read at the start of the stretch, the others 256 bytes further on.
    have hcut : read memory start (256 * (n + 1)) =
        read memory start 256 ++ read memory (start + 256) (256 * n) := by
      rw [← read_add, Nat.mul_succ, Nat.add_comm]
    rw [Bytes.pieces, hcut, List.take_left' (length_read _ _ _),
      List.drop_left' (length_read _ _ _), ih, List.range_succ_eq_map, List.map_cons, List.map_map]
    congr 1
    apply List.map_congr_left
    intro i _
    show read memory (start + 256 + 256 * i) 256 = read memory (start + 256 * (i + 1)) 256
    rw [Nat.mul_succ, Nat.add_assoc, Nat.add_comm 256]

/-- Cutting a stretch into blocks loses nothing. -/
theorem flatten_pieces_read (memory : ByteArray) (start n : Nat) :
    (Bytes.pieces 256 n (read memory start (256 * n))).flatten = read memory start (256 * n) :=
  Bytes.flatten_pieces (length_read _ _ _)

end Memory

/-- The blocks of a disk, by number. -/
abbrev BlockArray := Nat → List UInt8

/-- The blocks in the data region of a memory. -/
def Layout.regionBlocks (l : Layout) (memory : ByteArray) : BlockArray := fun k =>
  Memory.read memory (l.blockOffset k) 256

/-- Why a request for blocks is refused before anything is done; none of no blocks is. -/
def Layout.refusal? (l : Layout) (lba count : UInt32) (room : Nat) : Option FlashError :=
  if count = 0 then none
  else if l.blocks < lba.toNat + count.toNat then some (.outOfRange lba count)
  else if room < 256 * count.toNat then some (.bufferTooSmall (256 * count.toNat) room)
  else none

namespace Layout

/-- A request for no blocks is not refused. -/
theorem ne_zero_of_refusal? {l : Layout} {lba count : UInt32} {room : Nat} {error : FlashError}
    (h : l.refusal? lba count room = some error) : count ≠ 0 := by
  rintro rfl
  exact nomatch h

/-- A request that is not refused names blocks of the region and has room for them. -/
theorem of_refusal?_eq_none {l : Layout} {lba count : UInt32} {room : Nat} (hcount : count ≠ 0)
    (h : l.refusal? lba count room = none) :
    0 < count.toNat ∧ lba.toNat + count.toNat ≤ l.blocks ∧ 256 * count.toNat ≤ room := by
  have hpos : 0 < count.toNat := Nat.pos_of_ne_zero fun hzero =>
    hcount (UInt32.toNat_inj.mp hzero)
  rw [refusal?, if_neg hcount] at h
  split at h
  · exact nomatch h
  · split at h
    · exact nomatch h
    · omega

/-- A request for blocks of the region, with room for them, is not refused. -/
theorem refusal?_eq_none {l : Layout} {lba count : UInt32} {room : Nat}
    (hrange : lba.toNat + count.toNat ≤ l.blocks) (hroom : 256 * count.toNat ≤ room) :
    l.refusal? lba count room = none := by
  rw [refusal?, if_neg (Nat.not_lt.mpr hrange), if_neg (Nat.not_lt.mpr hroom), ite_self]

end Layout

namespace BlockArray

/-- The bytes of `n` blocks from `lba` on. -/
def bytes (A : BlockArray) (lba n : Nat) : List UInt8 :=
  ((List.range n).map fun i => A (lba + i)).flatten

/-- The array with blocks in the places from `lba` on. -/
def store (A : BlockArray) (lba : Nat) (blocks : List (List UInt8)) : BlockArray := fun k =>
  if lba ≤ k ∧ k < lba + blocks.length then blocks.getD (k - lba) [] else A k

/-- Storing no blocks changes nothing. -/
theorem store_nil (A : BlockArray) (lba : Nat) : A.store lba [] = A := by
  funext k
  exact if_neg (by rw [List.length_nil]; omega)

/-- Storing blocks stores the first one, and the rest behind it. -/
theorem store_cons (A : BlockArray) (lba : Nat) (block : List UInt8) (rest : List (List UInt8)) :
    A.store lba (block :: rest) = (A.store lba [block]).store (lba + 1) rest := by
  funext k
  simp only [store, List.length_cons, List.length_nil]
  -- Places before the first block, its own place, and those after it.
  rcases Nat.lt_trichotomy k lba with hlt | rfl | hgt
  · rw [if_neg (by omega), if_neg (by omega), if_neg (by omega)]
  · rw [if_pos (by omega), if_neg (by omega), if_pos (by omega), Nat.sub_self]
    rfl
  · obtain ⟨j, rfl⟩ := Nat.exists_eq_add_of_lt hgt
    rw [show lba + j + 1 - lba = j + 1 by omega, show lba + j + 1 - (lba + 1) = j by omega]
    -- A place after the first block counts from the second.
    by_cases hj : j < rest.length
    · rw [if_pos (by omega), if_pos (by omega)]
      rfl
    · rw [if_neg (by omega), if_neg (by omega), if_neg (by omega)]

/-- **The disk in mind.** What a request may reply to `A`, and the array after it. A write that
stalls has stored its blocks up to some sector boundary, or none. -/
inductive Answers (l : Layout) (A : BlockArray) :
    Request → Except FlashError Answer → BlockArray → Prop
  | read {buffer lba count} (accepted : l.refusal? lba count buffer.length = none) :
    Answers l A (.read buffer lba count)
      (.ok (.data (Bytes.overwrite buffer (A.bytes lba.toNat count.toNat)))) A
  | write {source lba count} (accepted : l.refusal? lba count source.length = none) :
    Answers l A (.write source lba count) (.ok .done)
      (A.store lba.toNat (Bytes.pieces 256 count.toNat source))
  | stalledWrite {source lba count offset} (accepted : l.refusal? lba count source.length = none)
    (m : Nat) (before_end : m < count.toNat) (boundary : m = 0 ∨ (lba.toNat + m) % 16 = 0) :
    Answers l A (.write source lba count) (.error (.stalled offset))
      (A.store lba.toNat (Bytes.pieces 256 m source))
  | refusedRead {buffer lba count error}
    (refused : l.refusal? lba count buffer.length = some error) :
    Answers l A (.read buffer lba count) (.error error) A
  | refusedWrite {source lba count error}
    (refused : l.refusal? lba count source.length = some error) :
    Answers l A (.write source lba count) (.error error) A
  | flush : Answers l A .flush (.ok .done) A
  | stalledFlush {offset} : Answers l A .flush (.error (.stalled offset)) A

end BlockArray

end NorDisk
