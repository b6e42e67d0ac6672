/-!
# Bitmaps of block numbers

A transfer remembers which block numbers it has seen: one bit for each number that it tracks, 32 of
them to a word. What a bitmap comes to is told bit by bit (`isSet_set`), and setting a bit that was
clear adds one to its population (`population_set`), which is what lets a counter stand for it.
-/

namespace NorDisk.Uf2

/-- Block numbers below this are tracked. -/
def trackedBlocks : Nat := 16384

/-- The bits of the block numbers that are tracked. -/
structure Bitmap where
  words : Vector UInt32 (trackedBlocks / 32)
deriving DecidableEq, Repr

namespace Bitmap

/-- No block number has been seen. -/
def empty : Bitmap := ⟨.replicate _ 0⟩

/-- The word that has the bit of a block number. -/
def word (n : Fin trackedBlocks) : Fin (trackedBlocks / 32) :=
  ⟨n.val / 32, by have hn : n.val < 32 * 512 := n.isLt; exact Nat.div_lt_of_lt_mul hn⟩

/-- The bit of a block number in its word. -/
def mask (n : Fin trackedBlocks) : UInt32 := 1 <<< UInt32.ofNat (n.val % 32)

def isSet (b : Bitmap) (n : Fin trackedBlocks) : Bool := b.words[word n] &&& mask n ≠ 0

def set (n : Fin trackedBlocks) (b : Bitmap) : Bitmap :=
  ⟨b.words.set (word n) (b.words[word n] ||| mask n)⟩

/-- How many bits are set. -/
def population (b : Bitmap) : Nat := (List.finRange trackedBlocks).countP b.isSet

/-! ## Bits -/

variable {b : Bitmap} {m n : Fin trackedBlocks}

theorem testBit_mask (n : Fin trackedBlocks) (i : Nat) :
    (mask n).toNat.testBit i = decide (n.val % 32 = i) := by
  have hlt : n.val % 32 < 32 := Nat.mod_lt _ (by decide)
  have hshift : (UInt32.ofNat (n.val % 32)).toNat = n.val % 32 :=
    UInt32.toNat_ofNat_of_lt' (Nat.lt_trans hlt (by decide))
  rw [mask, UInt32.toNat_shiftLeft, hshift, Nat.mod_eq_of_lt hlt, Nat.shiftLeft_eq,
    show (1 : UInt32).toNat = 1 from rfl, Nat.one_mul,
    Nat.mod_eq_of_lt (Nat.pow_lt_pow_right (by decide) hlt), Nat.testBit_two_pow]

/-- What is left of a word under the mask of one bit is that bit. -/
theorem and_mask_ne_zero (w : UInt32) (n : Fin trackedBlocks) :
    w &&& mask n ≠ 0 ↔ w.toNat.testBit (n.val % 32) = true := by
  rw [Ne, ← UInt32.toNat_inj, UInt32.toNat_and]
  constructor
  · intro h
    cases hbit : w.toNat.testBit (n.val % 32) with
    | true => rfl
    | false =>
      apply absurd _ h
      apply Nat.eq_of_testBit_eq
      intro i
      rw [Nat.testBit_and, testBit_mask]
      by_cases hi : n.val % 32 = i
      · subst hi
        simp [hbit]
      · simp [hi]
  · intro hbit h
    have hzero := congrArg (·.testBit (n.val % 32)) h
    simp [hbit, testBit_mask] at hzero

theorem isSet_eq (b : Bitmap) (n : Fin trackedBlocks) :
    b.isSet n = b.words[word n].toNat.testBit (n.val % 32) := by
  rw [isSet, Bool.eq_iff_iff, decide_eq_true_eq, and_mask_ne_zero]

theorem isSet_empty (n : Fin trackedBlocks) : empty.isSet n = false := by
  rw [isSet_eq, empty]
  simp

/-- **Setting a bit** sets that one, whether it shares its word with others or not. -/
theorem isSet_set (b : Bitmap) (m n : Fin trackedBlocks) :
    (b.set m).isSet n = (b.isSet n || n == m) := by
  rw [isSet_eq, isSet_eq, set]
  by_cases hword : (word m).val = (word n).val
  · have hsame : word m = word n := Fin.ext hword
    have hbit : m.val % 32 = n.val % 32 ↔ n = m := by
      have hword : m.val / 32 = n.val / 32 := hword
      rw [Fin.ext_iff]
      omega
    simp only [hsame, Fin.getElem_fin, Vector.getElem_set_self, UInt32.toNat_or, Nat.testBit_or,
      testBit_mask, hbit]
    rfl
  · have hne : n ≠ m := fun h => hword (by rw [h])
    simp only [Fin.getElem_fin, Vector.getElem_set_ne _ _ hword, beq_false_of_ne hne, Bool.or_false]

/-! ## Population -/

theorem population_le (b : Bitmap) : b.population ≤ trackedBlocks := by
  have hle := List.countP_le_length (p := b.isSet) (l := List.finRange trackedBlocks)
  rwa [List.length_finRange] at hle

@[simp] theorem population_empty : empty.population = 0 := by
  rw [population, List.countP_eq_zero]
  intro n _
  rw [isSet_empty]
  exact Bool.false_ne_true

/-- A counter starts with the empty bitmap. -/
theorem toNat_zero : (0 : UInt32).toNat = empty.population := population_empty.symm

/-- How many elements a predicate holds of, once it holds of one more. Induction on the list, each
occurrence of the new element counts. -/
theorem countP_or_eq {α : Type} [BEq α] [LawfulBEq α] {p : α → Bool} {a : α} (h : p a = false)
    (l : List α) : l.countP (fun x => p x || x == a) = l.countP p + l.count a := by
  induction l with
  | nil => rfl
  | cons x rest ih =>
    rw [List.countP_cons, List.countP_cons, List.count_cons, ih]
    by_cases hx : x = a
    · subst hx
      simp [h]
      omega
    · simp [beq_false_of_ne hx]
      omega

theorem population_set (h : b.isSet n = false) : (b.set n).population = b.population + 1 := by
  have hset : (b.set n).isSet = fun m => b.isSet m || m == n := funext (b.isSet_set n)
  have honce : (List.finRange trackedBlocks).count n = 1 := by
    rw [(List.nodup_finRange _).count, if_pos (List.mem_finRange n)]
  rw [population, hset, countP_or_eq h, honce, population]

/-- A counter of the bits that are set does not overflow. -/
theorem toNat_add_one {count : UInt32} (hcount : count.toNat = b.population)
    (h : b.isSet n = false) : (count + 1).toNat = (b.set n).population := by
  have hset := population_set h
  have hle := population_le (b.set n)
  rw [UInt32.toNat_add, show (1 : UInt32).toNat = 1 from rfl, hset, hcount]
  unfold trackedBlocks at hle
  omega

end Bitmap

end NorDisk.Uf2
