import NorDisk.Proofs.UpdateFile

/-!
# The format of a record

A record has one written form, and the reader accepts nothing but written forms: the eight words of
the header, the data area and the last magic word tile the 512 bytes of a record, so what was read
can be written back byte for byte.

* **`HasMagic`** — the magic words stand in their places. It is said of the bytes, without the
  reader.
* **`encode_of_decode`** — what was read is written as the bytes it was read from.
* **`decode_exact`** — reader and writer are inverse to each other, and the reader refuses for one
  of two reasons, each with its exact condition.
-/

namespace NorDisk

namespace Word

/-- The word at the start of a list is `w` if the bytes of `w` are there. -/
theorem ofLE_eq_iff {bytes : List UInt8} (h : 4 ≤ bytes.length) (w : UInt32) :
    ofLE bytes = w ↔ bytes.take 4 = toLE w := by
  rw [← toLE_ofLE h]
  constructor
  · exact congrArg toLE
  · intro hbytes
    have hwords := congrArg ofLE hbytes
    rwa [← List.append_nil (toLE (ofLE bytes)), ← List.append_nil (toLE w), ofLE_toLE,
      ofLE_toLE] at hwords

/-- The words read from the front of a list, written again, are that front. -/
theorem flatMap_toLE_ofLE {bytes : List UInt8} {n : Nat} (h : 4 * n ≤ bytes.length) :
    (List.range n).flatMap (fun i => toLE (ofLE (bytes.drop (4 * i)))) = bytes.take (4 * n) := by
  induction n with
  | zero => rfl
  | succ n ih =>
    have hlast : 4 ≤ (bytes.drop (4 * n)).length := by
      rw [List.length_drop]
      omega
    rw [List.range_succ, List.flatMap_append, ih (by omega), List.flatMap_singleton,
      toLE_ofLE hlast, Nat.mul_succ, List.take_add]

end Word

namespace Uf2.Record

/-- A word stands at an offset, its least significant byte first. -/
def HasWord (bytes : List UInt8) (offset : Nat) (w : UInt32) : Prop :=
  (bytes.drop offset).take 4 = Word.toLE w

/-- The three magic words stand in their places. -/
def HasMagic (bytes : List UInt8) : Prop :=
  HasWord bytes 0 startMagic ∧ HasWord bytes 4 secondMagic ∧ HasWord bytes 508 endMagic

variable {bytes : List UInt8} {r : Record}

theorem hasWord_iff {offset : Nat} (h : offset + 4 ≤ bytes.length) (w : UInt32) :
    HasWord bytes offset w ↔ Word.ofLE (bytes.drop offset) = w :=
  (Word.ofLE_eq_iff (by rw [List.length_drop]; omega) w).symm

/-- The check of the reader fails where a magic word is missing. -/
theorem not_hasMagic_iff (h : recordBytes ≤ bytes.length) :
    ¬ HasMagic bytes ↔ Word.ofLE bytes ≠ startMagic ∨ Word.ofLE (bytes.drop 4) ≠ secondMagic ∨
      Word.ofLE (bytes.drop 508) ≠ endMagic := by
  unfold recordBytes at h
  rw [HasMagic, hasWord_iff (by omega), hasWord_iff (by omega), hasWord_iff (by omega),
    List.drop_zero]
  grind

theorem decode_of_short (h : bytes.length < recordBytes) :
    decode bytes = .error (.truncated bytes.length) := dif_pos h

theorem decode_of_not_hasMagic (h : recordBytes ≤ bytes.length) (hmagic : ¬ HasMagic bytes) :
    decode bytes = .error .badMagic := by
  rw [decode, dif_neg (Nat.not_lt.mpr h), if_pos ((not_hasMagic_iff h).mp hmagic)]

/-- The header is eight words, then come the data and the last magic word, with nothing between. -/
theorem take_recordBytes {bytes : List UInt8} (h : recordBytes ≤ bytes.length) :
    bytes.take recordBytes =
      (List.range 8).flatMap (fun i => Word.toLE (Word.ofLE (bytes.drop (4 * i)))) ++
        ((bytes.drop 32).take dataBytes ++ (bytes.drop 508).take 4) := by
  unfold recordBytes at h
  have hrest : (bytes.drop 508).take 4 = ((bytes.drop 32).drop dataBytes).take 4 := by
    rw [List.drop_drop]
    rfl
  rw [Word.flatMap_toLE_ofLE (by omega), hrest, ← List.take_add, ← List.take_add]
  rfl

/-- **What was read can be written back.** -/
theorem decode_of_hasMagic (h : recordBytes ≤ bytes.length) (hmagic : HasMagic bytes) :
    ∃ r, decode bytes = .ok r ∧ r.encode = bytes.take recordBytes := by
  have hpass := mt (not_hasMagic_iff h).mpr (not_not_intro hmagic)
  rw [decode, dif_neg (Nat.not_lt.mpr h), if_neg hpass]
  refine ⟨_, rfl, ?_⟩
  obtain ⟨hstart, hsecond, hend⟩ := hmagic
  have hsecond : Word.toLE (Word.ofLE (bytes.drop 4)) = Word.toLE secondMagic := by
    rw [← hsecond, Word.toLE_ofLE]
    rw [List.length_drop]
    unfold recordBytes at h
    omega
  have hstart : Word.toLE (Word.ofLE bytes) = Word.toLE startMagic := by
    rw [← hstart, Word.toLE_ofLE (Nat.le_trans (by decide) h), List.drop_zero]
  rw [take_recordBytes h, hend]
  simp [encode, List.range_succ_eq_map, hstart, hsecond]

theorem encode_of_decode (h : decode bytes = .ok r) : r.encode = bytes.take recordBytes := by
  rcases Nat.lt_or_ge bytes.length recordBytes with hshort | hlong
  · exact nomatch (decode_of_short hshort).symm.trans h
  · by_cases hmagic : HasMagic bytes
    · obtain ⟨r', hdecode, hencode⟩ := decode_of_hasMagic hlong hmagic
      obtain rfl := Except.ok.inj (hdecode.symm.trans h)
      exact hencode
    · exact nomatch (decode_of_not_hasMagic hlong hmagic).symm.trans h

/-- A byte list is read as the record that is written as its first bytes. -/
theorem decode_eq_ok_iff : decode bytes = .ok r ↔ r.encode = bytes.take recordBytes := by
  refine ⟨encode_of_decode, fun h => ?_⟩
  rw [← List.take_append_drop recordBytes bytes, ← h]
  exact decode_encode_append r _

/-- **Reader and writer are inverse to each other.** Whatever follows a written record, it is read
back. A list of bytes is read exactly if it is long enough and has the magic words, and then as the
record that its first 512 bytes write down; a short list and one without the magic words are refused
as that. -/
theorem decode_exact :
    (∀ (r : Record) (rest : List UInt8), decode (r.encode ++ rest) = .ok r) ∧
    ∀ bytes : List UInt8,
      ((∃ r, decode bytes = .ok r) ↔ recordBytes ≤ bytes.length ∧ HasMagic bytes) ∧
      (∀ r, decode bytes = .ok r ↔ r.encode = bytes.take recordBytes) ∧
      (∀ len, decode bytes = .error (.truncated len) ↔
        bytes.length < recordBytes ∧ len = bytes.length) ∧
      (decode bytes = .error .badMagic ↔ recordBytes ≤ bytes.length ∧ ¬ HasMagic bytes) := by
  refine ⟨decode_encode_append, fun bytes => ?_⟩
  -- The three cases exclude each other, and each has its answer.
  rcases Nat.lt_or_ge bytes.length recordBytes with hshort | hlong
  · have hdecode := decode_of_short hshort
    have hnot : ¬ recordBytes ≤ bytes.length := Nat.not_le.mpr hshort
    refine ⟨?_, fun r => decode_eq_ok_iff, ?_, ?_⟩ <;> rw [hdecode] <;>
      simp [hnot, hshort, eq_comm]
  · have hnot : ¬ bytes.length < recordBytes := Nat.not_lt.mpr hlong
    by_cases hmagic : HasMagic bytes
    · obtain ⟨r, hdecode, -⟩ := decode_of_hasMagic hlong hmagic
      refine ⟨?_, fun r => decode_eq_ok_iff, ?_, ?_⟩ <;> rw [hdecode] <;>
        simp [hnot, hlong, hmagic]
    · have hdecode := decode_of_not_hasMagic hlong hmagic
      refine ⟨?_, fun r => decode_eq_ok_iff, ?_, ?_⟩ <;> rw [hdecode] <;>
        simp [hnot, hlong, hmagic]

end Uf2.Record

end NorDisk
