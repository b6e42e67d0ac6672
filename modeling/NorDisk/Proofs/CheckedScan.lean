import Mathlib.Data.List.GetD
import NorDisk.Proofs.VectorText

/-!
# What a checked scan asks for

The bytes to send, the bytes to expect, the mask and the number of bytes that are ignored may be of
any lengths. What is sent decides the length of the scan: expected bytes and mask are cut to it or
filled up with zeros, behind their last byte and so on the left of their fields. A byte counts only
if it is expected and not ignored.

* **`fitTo_eq_map`**, **`fitTo_maskBytes`** — bytes and mask of a check, one by one.
* **`tokens_expecting`** — the fields of a checked scan.
* **`expecting_reads`** — what its text reads back as.
-/

namespace NorDisk.Svf

/-! ## Bytes and digits of a field -/

/-- Byte by byte: what is there, and zeros behind it. -/
theorem fitTo_eq_map (n : Nat) (bytes : List UInt8) :
    fitTo n bytes = (List.range n).map (bytes.getD · 0) := by
  refine List.ext_getElem (by simp) fun i hi hi' => ?_
  have hlt : i < n := by simpa using hi
  simp only [fitTo, List.rightpad, List.getElem_map, List.getElem_range]
  by_cases hshort : i < bytes.length
  · rw [List.getElem_append_left (by simp; omega), List.getElem_take]
    exact (List.getD_eq_getElem _ _ hshort).symm
  · rw [List.getElem_append_right (by simp; omega), List.getElem_replicate]
    exact (List.getD_eq_default _ _ (by omega)).symm

theorem isSome_digitBits?_upperByte (b : UInt8) :
    ∀ c ∈ Hex.upperByte b, (digitBits? c).isSome = true :=
  List.all_eq_true.1
    (forall_byte (P := fun b => (Hex.upperByte b).all fun c => (digitBits? c).isSome)
      (by decide +kernel) b)

/-- A field has hexadecimal digits only. -/
theorem isSome_digitBits?_field (bytes : List UInt8) :
    ∀ c ∈ field bytes, (digitBits? c).isSome = true := by
  intro c hc
  obtain ⟨b, -, hc⟩ := List.mem_flatMap.1 hc
  exact isSome_digitBits?_upperByte _ c hc

namespace Statement

/-! ## What is checked -/

/-- The mask of byte `i` of a checked scan. -/
def maskByte (expect : List UInt8) (mask : Option (List UInt8)) (ignore i : Nat) : UInt8 :=
  if i < ignore ∨ expect.length ≤ i then 0 else mask.elim 0xFF (·.getD i 0)

theorem getD_map_range {α : Type} (f : Nat → α) (n i : Nat) (d : α) :
    ((List.range n).map f).getD i d = if i < n then f i else d := by
  by_cases hi : i < n
  · rw [if_pos hi, List.getD_eq_getElem _ _ (by simpa using hi)]
    simp
  · rw [if_neg hi, List.getD_eq_default _ _ (by simpa using hi)]

theorem getD_zeros_append (n : Nat) (bytes : List UInt8) (i : Nat) :
    (List.replicate n 0 ++ bytes).getD i 0 = if i < n then 0 else bytes.getD (i - n) 0 := by
  by_cases hi : i < n
  · rw [if_pos hi, List.getD_append _ _ _ _ (by simpa using hi), List.getD_replicate _ hi]
  · rw [if_neg hi, List.getD_append_right _ _ _ _ (by simpa using hi), List.length_replicate]

/-- The mask of a check, filled up or cut to the length of what is sent. -/
theorem fitTo_maskBytes (n : Nat) (expect : List UInt8) (mask : Option (List UInt8))
    (ignore : Nat) :
    fitTo n (maskBytes mask ignore expect.length) =
      (List.range n).map (maskByte expect mask ignore) := by
  rw [fitTo_eq_map]
  refine List.map_congr_left fun i _ => ?_
  unfold maskBytes
  rw [getD_zeros_append, maskByte]
  by_cases hignored : i < ignore
  · rw [if_pos hignored, if_pos (Or.inl hignored)]
  -- The given mask covers the bytes that are expected and not ignored, and no others.
  have hcount : i - ignore < expect.length - ignore ↔ ¬expect.length ≤ i := by omega
  rw [if_neg hignored]
  cases mask with
  | none =>
    by_cases hbehind : expect.length ≤ i
    · rw [if_pos (Or.inr hbehind), List.getD_eq_default _ _ (by simp; omega)]
    · rw [if_neg (not_or.2 ⟨hignored, hbehind⟩), List.getD_replicate _ (hcount.2 hbehind)]
      rfl
  | some mask =>
    show ((List.range' _ _).map _).getD _ 0 = _
    rw [List.range'_eq_map_range, List.map_map, getD_map_range]
    by_cases hbehind : expect.length ≤ i
    · rw [if_neg fun h => hcount.1 h hbehind, if_pos (Or.inr hbehind)]
    · rw [if_pos (hcount.2 hbehind), if_neg (not_or.2 ⟨hignored, hbehind⟩), Function.comp_apply,
        Nat.add_sub_cancel' (Nat.le_of_not_lt hignored)]
      rfl

/-- With something to send and to expect, a scan is checked. -/
theorem expecting_eq_check {data expect : List UInt8} {ignore : Nat} (hdata : data ≠ [])
    (hexpect : ignore < expect.length) (mask : Option (List UInt8)) :
    expecting data expect mask ignore =
      check data expect (maskBytes mask ignore expect.length) := by
  have hchecked : (expect.length ≤ ignore || data.isEmpty) = false := by simp [hdata, hexpect]
  rw [expecting, hchecked]
  rfl

/-- The fields of a checked scan stand for its bytes, one by one. -/
theorem tokens_expecting {data expect : List UInt8} {ignore : Nat} (hdata : data ≠ [])
    (hexpect : ignore < expect.length) (mask : Option (List UInt8)) :
    (expecting data expect mask ignore).tokens = scanTokens data ++ [.field (field data),
      .word "TDO".toList, .field (field ((List.range data.length).map (expect.getD · 0))),
      .word "MASK".toList,
      .field (field ((List.range data.length).map (maskByte expect mask ignore)))] := by
  rw [expecting_eq_check hdata hexpect, tokens, align_field (length_maskBytes hexpect mask),
    fitTo_eq_map, fitTo_maskBytes]

/-- With nothing to send, or nothing to expect behind the ignored bytes, a scan is unchecked. -/
theorem expecting_eq_scan {data expect : List UInt8} {ignore : Nat}
    (h : data = [] ∨ expect.length ≤ ignore) (mask : Option (List UInt8)) :
    expecting data expect mask ignore = scan data := by
  rw [expecting, if_pos (by simpa [or_comm] using h)]

/-- **Checked scans.** A scan with nothing to send, or nothing to expect behind the ignored bytes,
is unchecked. Any other reads back as what it checks: its bit count is that of the data, its three
fields have two digits for each byte of it, and shift out the data, the expected bytes and the mask.
A count of more than 76 digits, which no memory holds, would not stay on one line. -/
theorem expecting_reads (data expect : List UInt8) (mask : Option (List UInt8)) (ignore : Nat) :
    (data = [] ∨ expect.length ≤ ignore → expecting data expect mask ignore = scan data) ∧
      (data ≠ [] → ignore < expect.length → (Nat.toDigits 10 (8 * data.length)).length ≤ 76 →
        ∃ text sent expected checked,
          (expecting data expect mask ignore).text = .ok text ∧
          statements? text.toList = some [[.word "SDR".toList,
            .word (Nat.toDigits 10 (8 * data.length)), .word "TDI".toList, .field sent,
            .word "TDO".toList, .field expected, .word "MASK".toList, .field checked]] ∧
          (∀ digits ∈ [sent, expected, checked],
            digits.length = 2 * data.length ∧ ∀ c ∈ digits, (digitBits? c).isSome = true) ∧
          bytes? (8 * data.length) sent = some data ∧
          bytes? (8 * data.length) expected =
            some ((List.range data.length).map (expect.getD · 0)) ∧
          bytes? (8 * data.length) checked =
            some ((List.range data.length).map (maskByte expect mask ignore))) := by
  refine ⟨fun h => expecting_eq_scan h mask, fun hdata hexpect hsize => ?_⟩
  have hlength : ∀ f : Nat → UInt8, ((List.range data.length).map f).length = data.length :=
    fun f => by rw [List.length_map, List.length_range]
  -- All three fields are as long as the data.
  have hread : ∀ f : Nat → UInt8,
      bytes? (8 * data.length) (field ((List.range data.length).map f)) =
        some ((List.range data.length).map f) := by
    intro f
    rw [← bytes?_field, hlength]
  have hlegible := legible_check hsize expect (maskBytes mask ignore expect.length)
  rw [← expecting_eq_check hdata hexpect] at hlegible
  obtain ⟨text, htext, hreads⟩ := text_reads hlegible
  refine ⟨text, field data, field ((List.range data.length).map (expect.getD · 0)),
    field ((List.range data.length).map (maskByte expect mask ignore)), htext, ?_, ?_,
    bytes?_field data, hread _, hread _⟩
  · show (Reader.read _ text.toList).bind _ = _
    rw [hreads [], tokens_expecting hdata hexpect]
    rfl
  · simp only [List.forall_mem_cons, length_field, hlength, true_and]
    exact ⟨isSome_digitBits?_field _, isSome_digitBits?_field _, isSome_digitBits?_field _,
      List.forall_mem_nil _⟩

/-- The expected bytes are cut, and the mask is filled up behind its second byte. -/
theorem expecting_reads_of_short_mask :
    let s := expecting [0x9F, 0, 0, 0] [0, 0xEF, 0x40, 0x18, 0x55] (some [0xFF, 0xFF]) 1
    ∃ text sent expected checked, s.text = .ok text ∧
      statements? text.toList = some [[.word "SDR".toList, .word "32".toList, .word "TDI".toList,
        .field sent, .word "TDO".toList, .field expected, .word "MASK".toList, .field checked]] ∧
      bytes? 32 sent = some [0x9F, 0, 0, 0] ∧ bytes? 32 expected = some [0, 0xEF, 0x40, 0x18] ∧
      bytes? 32 checked = some [0, 0xFF, 0, 0] := by
  intro s
  obtain ⟨-, hchecked⟩ :=
    expecting_reads [0x9F, 0, 0, 0] [0, 0xEF, 0x40, 0x18, 0x55] (some [0xFF, 0xFF]) 1
  obtain ⟨text, sent, expected, checked, htext, hreads, -, hsent, hexpected, hmask⟩ :=
    hchecked (by decide) (by decide) (by decide)
  exact ⟨text, sent, expected, checked, htext, hreads, hsent, hexpected, hmask⟩

end Statement

end NorDisk.Svf
