import Mathlib.Data.List.Induction
import NorDisk.Tool.Arguments

/-!
# The text of a number

Which texts the command line takes as numbers, and with which value. A text first announces its
radix; what is left without its underscores is read, an optional plus sign apart. The reader appends
digits from the left and stops at the first fault, so the value is taken apart here from the right:
the last digit is the remainder, all before it spells the quotient (`spells_append`).

* **`Spells`** — digits of either case are those of a number, after any number of zeros.
* **`Announces`**, **`Signed`** — the prefix of a text and the sign of what is left.
* **`appendDigits_eq_ok_iff`**, **`readNumber_eq_ok_iff`** — what is read is what is spelled.
* **`Writes`** — the texts that write a number without a sign.
* **`numbers_read_exactly`** — every writing is accepted, and nothing but a number is.
-/

namespace NorDisk.Tool

/-! ## Digits -/

theorem isUpper_iff {c : Char} : c.isUpper = true ↔ 65 ≤ c.toNat ∧ c.toNat ≤ 90 := by
  show decide ('A'.val ≤ c.val ∧ c.val ≤ 'Z'.val) = true ↔ _
  rw [decide_eq_true_iff, UInt32.le_iff_toNat_le, UInt32.le_iff_toNat_le]
  rfl

theorem isLower_iff {c : Char} : c.isLower = true ↔ 97 ≤ c.toNat ∧ c.toNat ≤ 122 := by
  show (decide ('a'.val ≤ c.val) && decide (c.val ≤ 'z'.val)) = true ↔ _
  rw [Bool.and_eq_true, decide_eq_true_iff, decide_eq_true_iff, UInt32.le_iff_toNat_le,
    UInt32.le_iff_toNat_le]
  rfl

/-- Lowering a letter adds 32 to its code, and nothing else is changed. -/
theorem toNat_toLower (c : Char) :
    c.toLower.toNat = if c.isUpper then c.toNat + 32 else c.toNat := by
  unfold Char.toLower
  split
  · rename_i hupper
    have hc : c.isUpper = true := decide_eq_true hupper
    have hle := (isUpper_iff.mp hc).2
    rw [if_pos hc]
    show (c.val + 32).toNat = c.val.toNat + 32
    have hval : c.toNat = c.val.toNat := rfl
    rw [UInt32.toNat_add, Nat.mod_eq_of_lt]
    · rfl
    · show c.val.toNat + 32 < 2 ^ 32
      omega
  · rename_i hupper
    have hc : ¬ c.isUpper = true := fun hc => hupper (of_decide_eq_true hc)
    rw [if_neg hc]

theorem toLower_of_isDigit {c : Char} (h : c.isDigit = true) : c.toLower = c := by
  have hle : c.toNat ≤ 57 := (Char.isDigit_iff_toNat.mp h).2
  rw [← Char.toNat_inj, toNat_toLower, if_neg fun hupper => ?_]
  have := (isUpper_iff.mp hupper).1
  omega

/-- The codes of the sixteen digits. Sixteen cases, decided. -/
theorem toNat_digitChar {d : Nat} (h : d < 16) :
    d.digitChar.toNat = if d < 10 then 48 + d else 87 + d := by
  have hall : ∀ d < 16, d.digitChar.toNat = if d < 10 then 48 + d else 87 + d := by decide
  exact hall d h

/-- Different values below sixteen have different digits. -/
theorem digitChar_inj {d d' : Nat} (hd : d < 16) (hd' : d' < 16)
    (h : d.digitChar = d'.digitChar) : d = d' := by
  have hnat := congrArg Char.toNat h
  rw [toNat_digitChar hd, toNat_digitChar hd'] at hnat
  split at hnat <;> split at hnat <;> omega

variable {radix d m n : Nat} {c : Char} {digits text : List Char}

/-- A character has a value below the radix exactly if it is the digit of that value, in either
case. -/
theorem digitValue?_eq_some_iff (hradix : radix ≤ 16) :
    digitValue? radix c = some d ↔ d < radix ∧ c.toLower = d.digitChar := by
  have hdigit : c.isDigit = true ↔ 48 ≤ c.toNat ∧ c.toNat ≤ 57 := Char.isDigit_iff_toNat
  -- Both sides in codes: the value is a difference of codes, range by range.
  rw [← Char.toNat_inj, toNat_toLower]
  simp only [digitValue?, hdigit, isLower_iff, isUpper_iff, Option.ite_none_right_eq_some,
    Option.some.injEq]
  constructor
  · intro ⟨hvalue, hd⟩
    have hlt : d < radix := hd ▸ hvalue
    rw [toNat_digitChar (by omega)]
    refine ⟨hlt, ?_⟩
    grind
  · intro ⟨hlt, hchar⟩
    rw [toNat_digitChar (by omega)] at hchar
    grind

/-! ## Numbers in positional notation -/

/-- The digits, of either case, are those of the number after any number of zeros. -/
def Spells (radix : Nat) (digits : List Char) (n : Nat) : Prop :=
  ∃ zeros, digits.map Char.toLower = List.replicate zeros '0' ++ Nat.toDigits radix n

theorem Spells.ne_nil (h : Spells radix digits n) : digits ≠ [] := by
  intro hnil
  obtain ⟨zeros, hspells⟩ := h
  rw [hnil, List.map_nil, eq_comm, List.append_eq_nil_iff] at hspells
  exact Nat.toDigits_ne_nil hspells.2

/-- The last digit is the remainder, all before it spells the quotient. -/
theorem spells_append (hradix : 1 < radix) :
    Spells radix (digits ++ [c]) n ↔
      (Spells radix digits (n / radix) ∨ digits = [] ∧ n / radix = 0) ∧
        c.toLower = (n % radix).digitChar := by
  unfold Spells
  rw [List.map_append, List.map_singleton]
  by_cases hn : n < radix
  · -- A single digit: what stands before it are zeros, or nothing.
    rw [Nat.div_eq_of_lt hn, Nat.mod_eq_of_lt hn, Nat.toDigits_of_lt_base hn,
      Nat.toDigits_of_lt_base (Nat.zero_lt_of_lt hradix)]
    constructor
    · intro ⟨zeros, h⟩
      obtain ⟨hfront, hlast⟩ := List.append_inj' h rfl
      refine ⟨?_, (List.cons.inj hlast).1⟩
      cases zeros with
      | zero => exact .inr ⟨List.map_eq_nil_iff.mp hfront, rfl⟩
      | succ zeros => exact .inl ⟨zeros, by rw [hfront, List.replicate_succ']; rfl⟩
    · intro ⟨hfront, hc⟩
      cases hfront with
      | inl hspells =>
        obtain ⟨zeros, h⟩ := hspells
        exact ⟨zeros + 1, by rw [h, hc, List.replicate_succ']; rfl⟩
      | inr hnil => exact ⟨0, by rw [hnil.1, hc]; rfl⟩
  · -- More than one digit: those of the quotient come before the last, the zeros stay in front.
    have hquotient : n / radix ≠ 0 := by
      rw [Nat.div_ne_zero_iff]
      omega
    rw [Nat.toDigits_of_base_le hradix (Nat.le_of_not_lt hn)]
    constructor
    · intro ⟨zeros, h⟩
      rw [← List.append_assoc] at h
      obtain ⟨hfront, hlast⟩ := List.append_inj' h rfl
      exact ⟨.inl ⟨zeros, hfront⟩, (List.cons.inj hlast).1⟩
    · intro ⟨hfront, hc⟩
      obtain ⟨zeros, h⟩ := hfront.resolve_right fun hnil => hquotient hnil.2
      exact ⟨zeros, by rw [h, hc, List.append_assoc]⟩

/-- One digit of the radix at least, and no other character. -/
def IsNumeral (radix : Nat) (digits : List Char) : Prop :=
  digits ≠ [] ∧ ∀ c ∈ digits, ∃ d < radix, c.toLower = d.digitChar

/-- What spells a number is a numeral. -/
theorem Spells.isNumeral (hradix : 1 < radix) (h : Spells radix digits n) :
    IsNumeral radix digits := by
  refine ⟨h.ne_nil, ?_⟩
  induction digits using List.reverseRecOn generalizing n with
  | nil => exact fun c hc => absurd hc List.not_mem_nil
  | append_singleton digits last ih =>
    obtain ⟨hfront, hlast⟩ := (spells_append hradix).mp h
    intro c hc
    cases List.mem_append.mp hc with
    | inl hc =>
      have hspells := hfront.resolve_right fun hnil => by simp [hnil.1] at hc
      exact ih hspells c hc
    | inr hc =>
      rw [List.mem_singleton.mp hc]
      exact ⟨n % radix, Nat.mod_lt _ (by omega), hlast⟩

/-- Digits spell one number at most. From the right: equal last digits, and quotients spelled by the
same front. -/
theorem Spells.unique (hradix : 1 < radix) (hle : radix ≤ 16) (h : Spells radix digits n)
    (h' : Spells radix digits m) : n = m := by
  induction digits using List.reverseRecOn generalizing n m with
  | nil => exact absurd rfl h.ne_nil
  | append_singleton digits c ih =>
    obtain ⟨hfront, hlast⟩ := (spells_append hradix).mp h
    obtain ⟨hfront', hlast'⟩ := (spells_append hradix).mp h'
    have hmod (k : Nat) : k % radix < radix := Nat.mod_lt k (by omega)
    have hremainder : n % radix = m % radix :=
      digitChar_inj (Nat.lt_of_lt_of_le (hmod n) hle) (Nat.lt_of_lt_of_le (hmod m) hle)
        (hlast.symm.trans hlast')
    have hquotient : n / radix = m / radix := by
      match hfront, hfront' with
      | .inl hspells, .inl hspells' => exact ih hspells hspells'
      | .inl hspells, .inr hnil' => exact absurd hnil'.1 hspells.ne_nil
      | .inr hnil, .inl hspells' => exact absurd hnil.1 hspells'.ne_nil
      | .inr hnil, .inr hnil' => rw [hnil.2, hnil'.2]
    rw [← Nat.div_add_mod n radix, hquotient, hremainder, Nat.div_add_mod]

/-- A numeral spells a number, however large. -/
theorem IsNumeral.exists_spells (hradix : 1 < radix) (h : IsNumeral radix digits) :
    ∃ n, Spells radix digits n := by
  induction digits using List.reverseRecOn with
  | nil => exact absurd rfl h.1
  | append_singleton digits c ih =>
    obtain ⟨d, hd, hc⟩ := h.2 c (by simp)
    -- What stands before the last digit is a shorter numeral or nothing.
    have hfront : ∃ m, Spells radix digits m ∨ digits = [] ∧ m = 0 := by
      by_cases hnil : digits = []
      · exact ⟨0, .inr ⟨hnil, rfl⟩⟩
      · obtain ⟨m, hm⟩ := ih ⟨hnil, fun c hc => h.2 c (List.mem_append_left _ hc)⟩
        exact ⟨m, .inl hm⟩
    obtain ⟨m, hm⟩ := hfront
    obtain ⟨hquotient, hremainder⟩ : (d + radix * m) / radix = m ∧ (d + radix * m) % radix = d :=
      (Nat.div_mod_unique (by omega)).mpr ⟨rfl, hd⟩
    refine ⟨d + radix * m, (spells_append hradix).mpr ?_⟩
    rw [hquotient, hremainder]
    exact ⟨hm, hc⟩

/-! ## Reading digits -/

/-- Reading goes on where the first digits left off, and not at all after a fault. -/
theorem appendDigits_append (radix n : Nat) (digits digits' : List Char) :
    appendDigits radix n (digits ++ digits') =
      appendDigits radix n digits >>= fun m => appendDigits radix m digits' := by
  induction digits generalizing n with
  | nil => rfl
  | cons c rest ih =>
    rw [List.cons_append, appendDigits, appendDigits]
    split
    · rfl
    · split
      · exact ih _
      · rfl

/-- One digit more is read exactly if the number stays within 32 bits; the digit is then the
remainder, and what was read before it the quotient. -/
theorem appendDigits_singleton (hle : radix ≤ 16) (hpos : 0 < radix) :
    appendDigits radix m [c] = .ok n ↔
      n < 0x100000000 ∧ n / radix = m ∧ c.toLower = (n % radix).digitChar := by
  have hdigit (d : Nat) : digitValue? radix c = some d ↔ d < radix ∧ c.toLower = d.digitChar :=
    digitValue?_eq_some_iff hle
  have hmod : n % radix < radix := Nat.mod_lt n hpos
  rw [appendDigits]
  cases hvalue : digitValue? radix c with
  | none =>
    refine ⟨nofun, fun h => ?_⟩
    rw [(hdigit (n % radix)).mpr ⟨hmod, h.2.2⟩] at hvalue
    exact absurd hvalue nofun
  | some d =>
    obtain ⟨hlt, hc⟩ := (hdigit d).mp hvalue
    have hlast : c.toLower = (n % radix).digitChar ↔ n % radix = d := by
      rw [hc]
      exact ⟨fun h => digitChar_inj (by omega) (by omega) h.symm, fun h => h ▸ rfl⟩
    have hparts : n / radix = m ∧ n % radix = d ↔ m * radix + d = n := by
      rw [Nat.div_mod_unique hpos, Nat.add_comm, Nat.mul_comm]
      exact and_iff_left hlt
    rw [hlast, hparts]
    -- The reader tests for overflow before it goes on.
    by_cases hroom : m * radix + d < 0x100000000
    · have hread : appendDigits radix (m * radix + d) [] = .ok (m * radix + d) := rfl
      simp only [if_pos hroom, hread, Except.ok.injEq]
      exact ⟨fun h => ⟨h ▸ hroom, h⟩, fun h => h.2⟩
    · simp only [if_neg hroom]
      exact ⟨nofun, fun h => absurd (h.2 ▸ h.1) hroom⟩

/-- **What the reader accepts** after the sign: the digits of a number of 32 bits. Nothing at all is
zero here, which its caller excludes. -/
theorem appendDigits_eq_ok_iff (hradix : 1 < radix) (hle : radix ≤ 16) :
    appendDigits radix 0 digits = .ok n ↔
      n < 0x100000000 ∧ (Spells radix digits n ∨ digits = [] ∧ n = 0) := by
  induction digits using List.reverseRecOn generalizing n with
  | nil =>
    constructor
    · intro h
      cases h
      exact ⟨by decide, .inr ⟨rfl, rfl⟩⟩
    · intro ⟨_, h⟩
      cases h with
      | inl h => exact absurd rfl h.ne_nil
      | inr h => rw [h.2]; rfl
  | append_singleton digits c ih =>
    -- The front of a number that fits, fits.
    have hlt (h : n < 0x100000000) : n / radix < 0x100000000 :=
      Nat.lt_of_le_of_lt (Nat.div_le_self n radix) h
    rw [appendDigits_append, spells_append hradix]
    constructor
    · intro h
      cases hfront : appendDigits radix 0 digits with
      | error e =>
        rw [hfront] at h
        exact absurd h nofun
      | ok m =>
        rw [hfront] at h
        obtain ⟨hn, rfl, hc⟩ := (appendDigits_singleton hle (by omega)).mp h
        exact ⟨hn, .inl ⟨(ih.mp hfront).2, hc⟩⟩
    · intro ⟨hn, h⟩
      obtain ⟨hfront, hc⟩ := h.resolve_right fun hnil => by simp at hnil
      rw [ih.mpr ⟨hlt hn, hfront⟩]
      exact (appendDigits_singleton hle (by omega)).mpr ⟨hn, rfl, hc⟩

/-- What is left of a text after its sign. -/
def Signed (text digits : List Char) : Prop := text = digits ∨ text = '+' :: digits

theorem not_isNumeral_plus (hle : radix ≤ 16) (digits : List Char) :
    ¬ IsNumeral radix ('+' :: digits) := by
  intro h
  obtain ⟨d, hd, hplus⟩ := h.2 '+' List.mem_cons_self
  have hnat := congrArg Char.toNat hplus
  rw [toNat_digitChar (by omega)] at hnat
  have : '+'.toLower.toNat = 43 := rfl
  split at hnat <;> omega

/-- Only one of the two ways to take off a sign leaves a numeral. -/
theorem Signed.unique {digits' : List Char} (hle : radix ≤ 16) (h : Signed text digits)
    (h' : Signed text digits') (hdigits : IsNumeral radix digits)
    (hdigits' : IsNumeral radix digits') : digits = digits' := by
  match h, h' with
  | .inl h, .inl h' => exact h.symm.trans h'
  | .inr h, .inr h' => exact (List.cons.inj (h.symm.trans h')).2
  | .inl h, .inr h' => exact absurd (h.symm.trans h' ▸ hdigits) (not_isNumeral_plus hle _)
  | .inr h, .inl h' => exact absurd (h'.symm.trans h ▸ hdigits') (not_isNumeral_plus hle _)

/-- A text without prefix is read exactly if digits of a number of 32 bits are left after its sign.
-/
theorem readDigits_eq_ok_iff (hradix : 1 < radix) (hle : radix ≤ 16) :
    readDigits radix text = .ok n ↔
      n < 0x100000000 ∧ ∃ digits, Signed text digits ∧ Spells radix digits n := by
  have hread (digits : List Char) (hne : digits ≠ []) : appendDigits radix 0 digits = .ok n ↔
      n < 0x100000000 ∧ Spells radix digits n := by
    rw [appendDigits_eq_ok_iff hradix hle, or_iff_left fun hnil => hne hnil.1]
  have hplus (digits : List Char) : ¬ Spells radix ('+' :: digits) n := fun h =>
    not_isNumeral_plus hle digits (h.isNumeral hradix)
  -- The reader's cases: nothing, a sign alone, a sign with digits behind it, no sign.
  unfold readDigits
  split
  · refine ⟨nofun, fun ⟨_, digits, hsigned, hspells⟩ => ?_⟩
    cases hsigned with
    | inl h => exact absurd h.symm hspells.ne_nil
    | inr h => exact absurd h nofun
  · refine ⟨nofun, fun ⟨_, digits, hsigned, hspells⟩ => ?_⟩
    cases hsigned with
    | inl h => exact absurd (h ▸ hspells) (hplus [])
    | inr h => exact absurd (List.cons.inj h).2.symm hspells.ne_nil
  · rename_i digits hne
    rw [hread digits hne]
    refine and_congr_right fun _ => ⟨fun h => ⟨digits, .inr rfl, h⟩, fun h => ?_⟩
    obtain ⟨digits', hsigned, h⟩ := h
    cases hsigned with
    | inl heq => exact absurd (heq ▸ h) (hplus digits)
    | inr heq => exact (List.cons.inj heq).2 ▸ h
  · rename_i hnil _ hunsigned
    rw [hread text hnil]
    refine and_congr_right fun _ => ⟨fun h => ⟨text, .inl rfl, h⟩, fun h => ?_⟩
    obtain ⟨digits, hsigned, h⟩ := h
    cases hsigned with
    | inl heq => exact heq ▸ h
    | inr heq => exact absurd heq (hunsigned digits)

/-! ## The prefix -/

/-- The radix that the front of a text announces, and what is left of the text. -/
inductive Announces : List Char → Nat → List Char → Prop
  | lower (rest : List Char) : Announces ('0' :: 'x' :: rest) 16 rest
  | upper (rest : List Char) : Announces ('0' :: 'X' :: rest) 16 rest
  | nothing {text : List Char} (not_lower : ∀ rest, text ≠ '0' :: 'x' :: rest)
    (not_upper : ∀ rest, text ≠ '0' :: 'X' :: rest) : Announces text 10 text

variable {rest : List Char}

theorem Announces.bounds (h : Announces text radix rest) : 1 < radix ∧ radix ≤ 16 := by
  cases h <;> decide

/-- The reader takes off what a text announces. -/
theorem splitRadix_eq_iff : splitRadix text = (radix, rest) ↔ Announces text radix rest := by
  constructor
  · intro h
    unfold splitRadix at h
    split at h
    · cases h
      exact .lower _
    · cases h
      exact .upper _
    · cases h
      exact .nothing (by assumption) (by assumption)
  · intro h
    cases h with
    | lower => rfl
    | upper => rfl
    | nothing not_lower not_upper =>
      unfold splitRadix
      split
      · exact absurd rfl (not_lower _)
      · exact absurd rfl (not_upper _)
      · rfl

theorem exists_announces (text : List Char) : ∃ radix rest, Announces text radix rest :=
  ⟨_, _, splitRadix_eq_iff.mp rfl⟩

theorem Announces.unique {radix' : Nat} {rest' : List Char} (h : Announces text radix rest)
    (h' : Announces text radix' rest') : radix = radix' ∧ rest = rest' :=
  Prod.mk.inj ((splitRadix_eq_iff.mpr h).symm.trans (splitRadix_eq_iff.mpr h'))

/-! ## Texts -/

/-- The text of a number: a prefix if any, then a plus sign if any and digits that spell the number,
with underscores anywhere in between. -/
def IsNumber (text : List Char) (n : Nat) : Prop :=
  ∃ radix rest digits, Announces text radix rest ∧ Signed (rest.filter (· ≠ '_')) digits ∧
    Spells radix digits n

/-- Behind the prefix underscores are dropped and the rest is read. -/
theorem Announces.readNumber_eq (h : Announces text radix rest) :
    readNumber text = (readDigits radix (rest.filter (· ≠ '_'))).map Nat.toUInt32 := by
  rw [readNumber, splitRadix_eq_iff.mpr h]

/-- What is read is the value of the number that the text is. -/
theorem readNumber_eq_ok_iff {v : UInt32} : readNumber text = .ok v ↔ IsNumber text v.toNat := by
  constructor
  · intro h
    obtain ⟨radix, rest, hannounced⟩ := exists_announces text
    obtain ⟨hradix, hle⟩ := hannounced.bounds
    rw [hannounced.readNumber_eq] at h
    cases hread : readDigits radix (rest.filter (· ≠ '_')) with
    | error e =>
      rw [hread] at h
      exact absurd h nofun
    | ok n =>
      rw [hread] at h
      obtain ⟨hlt, digits, hsigned, hspells⟩ := (readDigits_eq_ok_iff hradix hle).mp hread
      -- The reader bounds what it returns, so the cast to 32 bits loses nothing.
      obtain rfl : n.toUInt32 = v := Except.ok.inj h
      rw [Nat.toUInt32, UInt32.toNat_ofNat_of_lt' hlt]
      exact ⟨radix, rest, digits, hannounced, hsigned, hspells⟩
  · intro ⟨radix, rest, digits, hannounced, hsigned, hspells⟩
    obtain ⟨hradix, hle⟩ := hannounced.bounds
    have hread : readDigits radix (rest.filter (· ≠ '_')) = .ok v.toNat :=
      (readDigits_eq_ok_iff hradix hle).mpr ⟨v.toNat_lt, digits, hsigned, hspells⟩
    rw [hannounced.readNumber_eq, hread]
    show Except.ok v.toNat.toUInt32 = _
    rw [Nat.toUInt32, UInt32.ofNat_toNat]

/-- The text writes a number without a sign: in decimal, or after a prefix in hexadecimal of either
case, zeros before the digits and underscores anywhere after the prefix. -/
inductive Writes : List Char → Nat → Prop
  | decimal {text : List Char} {n : Nat} (zeros : Nat)
    (digits_eq : text.filter (· ≠ '_') = List.replicate zeros '0' ++ Nat.toDigits 10 n) :
    Writes text n
  | hexadecimal {x : Char} {rest : List Char} {n : Nat} (zeros : Nat)
    (prefix_eq : x = 'x' ∨ x = 'X')
    (digits_eq : (rest.filter (· ≠ '_')).map Char.toLower =
      List.replicate zeros '0' ++ Nat.toDigits 16 n) :
    Writes ('0' :: x :: rest) n

theorem Writes.isNumber (h : Writes text n) : IsNumber text n := by
  cases h with
  | decimal zeros digits_eq =>
    have hdigit : ∀ c ∈ text.filter (· ≠ '_'), c.isDigit = true := by
      intro c hc
      rw [digits_eq] at hc
      cases List.mem_append.mp hc with
      | inl hc => rw [List.eq_of_mem_replicate hc]; rfl
      | inr hc => exact Nat.isDigit_of_mem_toDigits (by decide) (by decide) hc
    -- A decimal writing has digits and underscores only, so no prefix is seen in it.
    have hletter {x : Char} (hx : x.isDigit = false) (hkept : x ≠ '_') (rest : List Char) :
        text ≠ '0' :: x :: rest := by
      intro htext
      have hmem : x ∈ text.filter (· ≠ '_') :=
        List.mem_filter.mpr ⟨by simp [htext], decide_eq_true hkept⟩
      rw [hdigit x hmem] at hx
      exact absurd hx nofun
    have hannounced : Announces text 10 text :=
      .nothing (hletter rfl (by decide)) (hletter rfl (by decide))
    refine ⟨10, text, _, hannounced, .inl rfl, zeros, ?_⟩
    rw [← digits_eq, List.map_congr_left fun c hc => toLower_of_isDigit (hdigit c hc), List.map_id']
  | hexadecimal zeros prefix_eq digits_eq =>
    cases prefix_eq with
    | inl h => exact ⟨16, _, _, h ▸ .lower _, .inl rfl, zeros, digits_eq⟩
    | inr h => exact ⟨16, _, _, h ▸ .upper _, .inl rfl, zeros, digits_eq⟩

/-- An argument is accepted exactly if it is the text of a number. -/
theorem readWord_eq_ok_iff {text : String} {v : UInt32} :
    readWord text = .ok v ↔ IsNumber text.toList v.toNat := by
  rw [← readNumber_eq_ok_iff, readWord]
  cases readNumber text.toList with
  | error e => exact ⟨nofun, nofun⟩
  | ok n => exact ⟨fun h => congrArg _ (Except.ok.inj h), fun h => congrArg _ (Except.ok.inj h)⟩

/-- A text that is not accepted is refused, with the text and the fault in the message. -/
theorem readWord_refuses_iff {text : String} :
    (∃ e : NumberError,
        readWord text = .error (.refusedValue (s!"invalid number '{text}': " ++ e.message))) ↔
      ∀ v : UInt32, ¬ IsNumber text.toList v.toNat := by
  constructor
  · intro ⟨e, hrefused⟩ v hnumber
    exact absurd ((readWord_eq_ok_iff.mpr hnumber).symm.trans hrefused) nofun
  · intro h
    cases hread : readNumber text.toList with
    | error e => exact ⟨e, by rw [readWord, hread]⟩
    | ok v => exact absurd (readNumber_eq_ok_iff.mp hread) (h v)

/-- A text is of no number for one of two reasons: what is left of it is no numeral, or the number
is too large. -/
theorem Announces.not_isNumber_iff (h : Announces text radix rest) :
    (∀ v : UInt32, ¬ IsNumber text v.toNat) ↔
      (¬ ∃ digits, Signed (rest.filter (· ≠ '_')) digits ∧ IsNumeral radix digits) ∨
      ∃ digits n, Signed (rest.filter (· ≠ '_')) digits ∧ Spells radix digits n ∧
        0x100000000 ≤ n := by
  obtain ⟨hradix, hle⟩ := h.bounds
  constructor
  · intro hnone
    by_cases hnumeral : ∃ digits, Signed (rest.filter (· ≠ '_')) digits ∧ IsNumeral radix digits
    · obtain ⟨digits, hsigned, hdigits⟩ := hnumeral
      obtain ⟨n, hspells⟩ := hdigits.exists_spells hradix
      refine .inr ⟨digits, n, hsigned, hspells, Nat.le_of_not_lt fun hlt => ?_⟩
      have hvalue : (UInt32.ofNat n).toNat = n := UInt32.toNat_ofNat_of_lt' hlt
      exact hnone (UInt32.ofNat n) ⟨radix, rest, digits, h, hsigned, hvalue.symm ▸ hspells⟩
    · exact .inl hnumeral
  · intro hbad v ⟨radix', rest', digits, h', hsigned, hspells⟩
    obtain ⟨rfl, rfl⟩ := h.unique h'
    cases hbad with
    | inl hnone => exact hnone ⟨digits, hsigned, hspells.isNumeral hradix⟩
    | inr hlarge =>
      obtain ⟨digits', n, hsigned', hspells', hn⟩ := hlarge
      obtain rfl := hsigned.unique hle hsigned' (hspells.isNumeral hradix)
        (hspells'.isNumeral hradix)
      have hvalue := hspells.unique hradix hle hspells'
      have hlt := v.toNat_lt
      omega

/-- **Numbers on the command line.** Every writing of a number that fits 32 bits is accepted with
its value, and with a value only the texts of that number are. A text is refused exactly when what
is left of it, after its prefix and without its underscores, is no numeral with at most a plus sign
before it, or when the numeral spells too large a number. -/
theorem numbers_read_exactly (text : String) :
    (∀ v : UInt32, Writes text.toList v.toNat → readWord text = .ok v) ∧
    (∀ v : UInt32, readWord text = .ok v ↔ IsNumber text.toList v.toNat) ∧
    ∀ radix rest, Announces text.toList radix rest →
      ((∃ e : NumberError,
          readWord text = .error (.refusedValue (s!"invalid number '{text}': " ++ e.message))) ↔
        (¬ ∃ digits, Signed (rest.filter (· ≠ '_')) digits ∧ IsNumeral radix digits) ∨
        ∃ digits n, Signed (rest.filter (· ≠ '_')) digits ∧ Spells radix digits n ∧
          0x100000000 ≤ n) := by
  refine ⟨fun v hwrites => ?_, fun v => readWord_eq_ok_iff, fun radix rest hannounced => ?_⟩
  · exact readWord_eq_ok_iff.mpr hwrites.isNumber
  · exact readWord_refuses_iff.trans hannounced.not_isNumber_iff

/-- The largest number is read, the next one is refused. -/
theorem numbers_read_exactly_at_limit :
    let largest := "0X__0fFfF_FFfF"
    let next := "+4_294_967_296"
    Writes largest.toList 0xFFFFFFFF ∧ readWord largest = .ok 0xFFFFFFFF ∧
      Spells 10 "4294967296".toList 0x100000000 ∧
      ∃ e : NumberError,
        readWord next = .error (.refusedValue (s!"invalid number '{next}': " ++ e.message)) := by
  intro largest next
  have hlargest : largest.toList = '0' :: 'X' :: "__0fFfF_FFfF".toList := by decide
  have hwrites : Writes largest.toList 0xFFFFFFFF :=
    hlargest ▸ .hexadecimal 1 (.inr rfl) (by decide)
  have hspells : Spells 10 "4294967296".toList 0x100000000 := ⟨0, by decide⟩
  have hannounced : Announces next.toList 10 next.toList :=
    splitRadix_eq_iff.mp (by decide)
  refine ⟨hwrites, (numbers_read_exactly largest).1 _ hwrites, hspells, ?_⟩
  exact ((numbers_read_exactly next).2.2 10 _ hannounced).mpr
    (.inr ⟨_, _, .inr (by decide), hspells, Nat.le_refl _⟩)

/-- The prefix is looked for before underscores are dropped. -/
example : readWord "0_x12" =
    .error (.refusedValue "invalid number '0_x12': invalid digit found in string") := by rfl

end NorDisk.Tool
