import NorDisk.Proofs.LineLayout
import NorDisk.Proofs.VectorReader
import NorDisk.Svf.Program

/-!
# The text of a program reads back

A player of vector files turns the pieces of a statement into an operation. A scan shifts its field
out from the right end, the least significant bit of a digit first; the part on the other end of the
line takes the bits in as bytes, the most significant bit first. Read like that, the text of a
program is the list of operations that its statements stand for.

* **`bits?`**, **`packed?`** — from a field to the bytes of a transaction; **`bytes?_field`**.
* **`operation?`** — from the pieces of a statement to what a player does.
* **`render_reads`** — the round trip.
-/

namespace NorDisk.Svf

/-! ## From fields to bytes -/

/-- The bits of a hexadecimal digit, least significant first. -/
def digitBits? (c : Char) : Option (List Bool) :=
  if c.isDigit then some (low4 (c.toNat - '0'.toNat))
  else if 'A' ≤ c ∧ c ≤ 'F' then some (low4 (c.toNat - 'A'.toNat + 10))
  else none
where
  low4 (n : Nat) : List Bool := [n.testBit 0, n.testBit 1, n.testBit 2, n.testBit 3]

/-- The bits that a field shifts out, from its right end on. -/
def bits? (digits : List Char) : Option (List Bool) :=
  (digits.reverse.mapM digitBits?).map List.flatten

/-- A number from its bits, most significant first. -/
def ofBits (bits : List Bool) : Nat := bits.foldl (fun n bit => 2 * n + bit.toNat) 0

/-- The bytes that a part takes in bit by bit, most significant bit first. -/
def packed? : List Bool → Option (List UInt8)
  | [] => some []
  | b7 :: b6 :: b5 :: b4 :: b3 :: b2 :: b1 :: b0 :: rest =>
    (packed? rest).map ((ofBits [b7, b6, b5, b4, b3, b2, b1, b0]).toUInt8 :: ·)
  | _ => none

/-- The bytes of a field of `count` bits. -/
def bytes? (count : Nat) (digits : List Char) : Option (List UInt8) := do
  let bits ← bits? digits
  if bits.length = count then packed? bits else none

/-! ## From statements to operations -/

/-- What a player does. A scan is one transaction of the part. -/
inductive Operation where
  | scan (sent : List UInt8)
  /-- Compare what comes back where the mask has ones. -/
  | check (sent expected mask : List UInt8)
  | idle
deriving DecidableEq

/-- A number in decimal digits. -/
def count? (chars : List Char) : Option Nat :=
  if chars ≠ [] ∧ chars.all Char.isDigit then some (Nat.ofDigitChars 10 chars 0) else none

/-- Decimal digits with at most one point. -/
def isTime (chars : List Char) : Bool :=
  chars.any Char.isDigit && chars.all (fun c => c.isDigit || c == '.') && chars.count '.' ≤ 1

/-- The operation that a statement of a programming sequence stands for. -/
def operation? : List Token → Option Operation
  | [.word sdr, .word count, .word tdi, .field sent] =>
    if sdr = "SDR".toList ∧ tdi = "TDI".toList then do
      let count ← count? count
      return .scan (← bytes? count sent)
    else none
  | [.word sdr, .word count, .word tdi, .field sent, .word tdo, .field expected, .word smask,
      .field mask] =>
    if sdr = "SDR".toList ∧ tdi = "TDI".toList ∧ tdo = "TDO".toList ∧ smask = "MASK".toList then do
      let count ← count? count
      return .check (← bytes? count sent) (← bytes? count expected) (← bytes? count mask)
    else none
  | [.word runtest, .word idle, .word time, .word sec] =>
    if runtest = "RUNTEST".toList ∧ idle = "IDLE".toList ∧ isTime time ∧ sec = "SEC".toList then
      some .idle
    else none
  | _ => none

def operations? (text : String) : Option (List Operation) :=
  (statements? text.toList).bind (·.mapM operation?)

/-! ## Fields read back

A field lists its bytes last to first with the bits of each reversed, so that the bits leave in the
order of `byteBits`, byte after byte. What two digits shift out is a finite matter. -/

/-- The bits of a byte, most significant first. -/
def byteBits (b : UInt8) : List Bool :=
  let n := b.toNat
  [n.testBit 7, n.testBit 6, n.testBit 5, n.testBit 4, n.testBit 3, n.testBit 2, n.testBit 1,
    n.testBit 0]

/-- What holds of the 256 bytes one by one holds of all. -/
theorem forall_byte {P : UInt8 → Prop} (h : ∀ n < 256, P n.toUInt8) (b : UInt8) : P b := by
  simpa using h b.toNat b.toNat_lt

/-- The two digits of a reversed byte shift out its bits, the most significant one first. -/
theorem bits?_upperByte : ∀ b, bits? (Hex.upperByte (reverseByte b)) = some (byteBits b) :=
  forall_byte (by decide +kernel)

/-- A byte is put together from its bits. -/
theorem ofBits_byteBits : ∀ b, (ofBits (byteBits b)).toUInt8 = b :=
  forall_byte (by decide +kernel)

theorem isLetter_upperByte (b : UInt8) : ∀ c ∈ Hex.upperByte b, isLetter c = true :=
  List.all_eq_true.1 (forall_byte (P := fun b => (Hex.upperByte b).all isLetter = true)
    (by decide +kernel) b)

/-- The right end of a field leaves first. -/
theorem bits?_append {first rest : List Char} {bits bits' : List Bool}
    (hfirst : bits? first = some bits) (hrest : bits? rest = some bits') :
    bits? (first ++ rest) = some (bits' ++ bits) := by
  simp only [bits?, Option.map_eq_some_iff] at hfirst hrest ⊢
  obtain ⟨digits, hdigits, rfl⟩ := hfirst
  obtain ⟨digits', hdigits', rfl⟩ := hrest
  refine ⟨digits' ++ digits, ?_, List.flatten_append⟩
  rw [List.reverse_append, List.mapM_append, hdigits, hdigits']
  rfl

/-- A field shifts out the bits of its bytes in their order. -/
theorem bits?_field (bytes : List UInt8) : bits? (field bytes) = some (bytes.flatMap byteBits) := by
  induction bytes with
  | nil => rfl
  | cons b rest ih =>
    have hfield : field (b :: rest) = field rest ++ Hex.upperByte (reverseByte b) := by
      simp [field]
    rw [hfield, bits?_append ih (bits?_upperByte b), List.flatMap_cons]

/-- The part takes in the bytes whose bits are shifted out. -/
theorem packed?_bits (bytes : List UInt8) : packed? (bytes.flatMap byteBits) = some bytes := by
  induction bytes with
  | nil => rfl
  | cons b rest ih =>
    show (packed? (rest.flatMap byteBits)).map ((ofBits (byteBits b)).toUInt8 :: ·) = _
    rw [ih, ofBits_byteBits]
    rfl

theorem length_bits (bytes : List UInt8) : (bytes.flatMap byteBits).length = 8 * bytes.length := by
  induction bytes with
  | nil => rfl
  | cons b rest ih =>
    rw [List.flatMap_cons, List.length_append, ih, List.length_cons]
    show 8 + _ = _
    omega

/-- A field reads as the bytes that it was made of. -/
theorem bytes?_field (bytes : List UInt8) :
    bytes? (8 * bytes.length) (field bytes) = some bytes := by
  rw [bytes?, bits?_field]
  show (if _ then _ else _) = _
  rw [if_pos (length_bits bytes), packed?_bits]

theorem isLetter_field (bytes : List UInt8) : ∀ c ∈ field bytes, isLetter c = true := by
  intro c hc
  obtain ⟨b, -, hc⟩ := List.mem_flatMap.1 hc
  exact isLetter_upperByte _ c hc

/-! ### Fields of another length

The fields of a check are brought to the length of the one that is sent, digit by digit and on their
left. For the bytes that they stand for this happens at the other end. -/

/-- Bytes cut or filled up with zeros to a length. -/
def fitTo (n : Nat) (bytes : List UInt8) : List UInt8 := (bytes.take n).rightpad n 0

@[simp] theorem length_fitTo (n : Nat) (bytes : List UInt8) : (fitTo n bytes).length = n := by
  simp only [fitTo, List.length_rightpad, List.length_take]
  omega

/-- Bytes of the right length stay as they are. -/
theorem fitTo_self {bytes : List UInt8} {n : Nat} (h : bytes.length = n) :
    fitTo n bytes = bytes := by
  simp [fitTo, List.rightpad, ← h]

/-- Bytes that come later stand further to the left. -/
theorem field_append (first rest : List UInt8) :
    field (first ++ rest) = field rest ++ field first := by
  simp [field]

theorem length_field (bytes : List UInt8) : (field bytes).length = 2 * bytes.length := by
  induction bytes with
  | nil => rfl
  | cons b rest ih =>
    show (field ([b] ++ rest)).length = _
    rw [field_append, List.length_append, ih, List.length_cons]
    rfl

/-- Zero bytes are zero digits. -/
theorem field_zeros (n : Nat) : field (List.replicate n 0) = List.replicate (2 * n) '0' := by
  induction n with
  | zero => rfl
  | succ n ih =>
    rw [List.replicate_succ', field_append, ih]
    rfl

/-- A field takes bytes in from the right, so that bytes are cut and filled up on its left. -/
theorem field_fitTo (n : Nat) (bytes : List UInt8) :
    field (fitTo n bytes) =
      List.leftpad (2 * n) '0' ((field bytes).drop ((field bytes).length - 2 * n)) := by
  -- Cutting digits on the left leaves those of the bytes sent first.
  have hcut : (field bytes).drop ((field bytes).length - 2 * n) = field (bytes.take n) := by
    have hparts := field_append (bytes.take n) (bytes.drop n)
    rw [List.take_append_drop] at hparts
    rw [hparts, List.length_append, length_field, length_field, List.length_drop, List.length_take]
    exact List.drop_left' (by rw [length_field, List.length_drop]; omega)
  rw [hcut, fitTo, List.rightpad, field_append, field_zeros, List.leftpad, length_field]
  congr 2
  omega

/-- Both fields of a check stand for its bytes, cut or filled up to the length of what is sent. -/
theorem align_field {data expected mask : List UInt8} (h : mask.length = expected.length) :
    Statement.align (field data) (field expected) (field mask) =
      (field (fitTo data.length expected), field (fitTo data.length mask)) := by
  rw [field_fitTo, field_fitTo, Statement.align]
  simp only [length_field, h, List.leftpad, List.length_drop]
  -- Either the fields are too short, and nothing is cut, or long enough, and nothing is filled up.
  split
  · have hnone : 2 * expected.length - 2 * data.length = 0 := by omega
    simp only [hnone, List.drop_zero, Nat.sub_zero]
  · have hfull : 2 * data.length -
        (2 * expected.length - (2 * expected.length - 2 * data.length)) = 0 := by omega
    simp only [hfull, List.replicate_zero, List.nil_append]

/-- Aligning adds zeros and no other digit. -/
theorem forall_mem_align (sent : List Char) {expected mask : List Char} {P : Char → Prop}
    (hzero : P '0') (hexpected : ∀ c ∈ expected, P c) (hmask : ∀ c ∈ mask, P c) :
    (∀ c ∈ (Statement.align sent expected mask).1, P c) ∧
      ∀ c ∈ (Statement.align sent expected mask).2, P c := by
  have hpad (n : Nat) : ∀ c ∈ List.replicate n '0', P c := fun c hc => by
    rwa [List.eq_of_mem_replicate hc]
  unfold Statement.align
  split
  · exact ⟨List.forall_mem_append.2 ⟨hpad _, hexpected⟩, List.forall_mem_append.2 ⟨hpad _, hmask⟩⟩
  · exact ⟨fun c hc => hexpected c (List.mem_of_mem_drop hc),
      fun c hc => hmask c (List.mem_of_mem_drop hc)⟩

/-- A count in decimals reads as itself. -/
theorem count?_toDigits (n : Nat) : count? (Nat.toDigits 10 n) = some n := by
  have hdigits : Nat.toDigits 10 n ≠ [] ∧ (Nat.toDigits 10 n).all Char.isDigit = true :=
    ⟨Nat.toDigits_ne_nil, List.all_eq_true.2 fun c hc =>
      Nat.isDigit_of_mem_toDigits (by decide) (by decide) hc⟩
  rw [count?, if_pos hdigits, Nat.ofDigitChars_toDigits (by decide) (by decide)]

theorem isLetter_of_isDigit {c : Char} (h : c.isDigit = true) : isLetter c = true := by
  have hgraphic : isGraphic c = true := by
    simp only [Char.isDigit, Bool.and_eq_true, decide_eq_true_eq, UInt32.le_iff_toNat_le] at h
    have hlow : 48 ≤ c.toNat := h.1
    have hhigh : c.toNat ≤ 57 := h.2
    simp only [isGraphic, Bool.and_eq_true, decide_eq_true_eq]
    omega
  have hne : ∀ d : Char, d.isDigit = false → (c != d) = true := fun d hd =>
    bne_iff_ne.2 fun heq => by rw [heq, hd] at h; cases h
  rw [isLetter, hgraphic, hne '(' rfl, hne ')' rfl, hne ';' rfl]
  rfl

/-! ## Statements read back -/

namespace Statement

theorem length_maskBytes {expect : List UInt8} {ignore : Nat} (h : ignore < expect.length)
    (mask : Option (List UInt8)) :
    (maskBytes mask ignore expect.length).length = expect.length := by
  unfold maskBytes
  rw [List.length_append, List.length_replicate]
  cases mask <;> simp <;> omega

/-- The pieces of a scan, up to its data field. -/
def scanTokens (data : List UInt8) : List Token :=
  [.word "SDR".toList, .word (Nat.toDigits 10 (8 * data.length)), .word "TDI".toList]

/-- The pieces of a statement. -/
def tokens : Statement → List Token
  | scan data => scanTokens data ++ [.field (field data)]
  | check data expected mask =>
    let (expected, mask) := align (field data) (field expected) (field mask)
    scanTokens data ++ [.field (field data), .word "TDO".toList, .field expected,
      .word "MASK".toList, .field mask]
  | idle seconds =>
    [.word "RUNTEST".toList, .word "IDLE".toList, .word (Decimal.ofFloat seconds).toList,
      .word "SEC".toList]

/-- What a statement stands for. Fields are as long as what is sent. -/
def operation : Statement → Operation
  | scan data => .scan data
  | check data expected mask =>
    .check data (fitTo data.length expected) (fitTo data.length mask)
  | idle _ => .idle

/-- A statement that can be written down: a length that fits on a line, a mask for what is expected,
a time in decimals. -/
def Writable : Statement → Prop
  | scan data => 8 * data.length < 1000000000
  | check data expected mask => 8 * data.length < 1000000000 ∧ mask.length = expected.length
  | idle seconds => isTime (Decimal.ofFloat seconds).toList = true ∧
      (Decimal.ofFloat seconds).toList.length < 77

instance : (s : Statement) → Decidable s.Writable
  | scan data => inferInstanceAs (Decidable (8 * data.length < 1000000000))
  | check data expected mask => inferInstanceAs (Decidable
      (8 * data.length < 1000000000 ∧ mask.length = expected.length))
  | idle seconds => inferInstanceAs (Decidable
      (isTime (Decimal.ofFloat seconds).toList = true ∧
        (Decimal.ofFloat seconds).toList.length < 77))

/-- The words of a statement are its pieces, the last one ended. -/
theorem words_eq (s : Statement) : s.words = Token.closed s.tokens := by
  cases s <;> rfl

/-- The pieces of a statement are the operation that it stands for. -/
theorem operation?_tokens {s : Statement} (h : s.Writable) :
    operation? s.tokens = some s.operation := by
  cases s with
  | scan data =>
    simp only [tokens, scanTokens, List.cons_append, List.nil_append, operation?, and_self, if_true]
    rw [count?_toDigits]
    show (bytes? _ _ >>= _) = _
    rw [bytes?_field]
    rfl
  | check data expected mask =>
    -- Aligned fields have the length of the count that stands in front of them.
    have hfit (bytes : List UInt8) : bytes? (8 * data.length) (field (fitTo data.length bytes)) =
        some (fitTo data.length bytes) := by
      have hread := bytes?_field (fitTo data.length bytes)
      rwa [length_fitTo] at hread
    simp only [tokens, align_field h.2, scanTokens, List.cons_append, List.nil_append, operation?,
      and_self, if_true]
    rw [count?_toDigits]
    show (bytes? _ _ >>= fun _ => bytes? _ _ >>= fun _ => bytes? _ _ >>= _) = _
    rw [bytes?_field, hfit, hfit]
    rfl
  | idle seconds =>
    simp only [tokens, operation?, h.1, operation, and_self, if_true]

theorem isLetter_toDigits (n : Nat) : ∀ c ∈ Nat.toDigits 10 n, isLetter c = true := fun _ hc =>
  isLetter_of_isDigit (Nat.isDigit_of_mem_toDigits (by decide) (by decide) hc)

/-- A length below the limit has nine digits. -/
theorem length_toDigits_le {n : Nat} (h : n < 1000000000) : (Nat.toDigits 10 n).length ≤ 76 := by
  have hnine : (Nat.toDigits 10 n).length ≤ 9 :=
    (Nat.length_toDigits_le_iff (by decide) (by decide)).2 h
  omega

/-- A count of bits that no memory exceeds is a word that stays whole. -/
theorem legible_scanTokens {data : List UInt8}
    (h : (Nat.toDigits 10 (8 * data.length)).length ≤ 76) :
    ∀ token ∈ scanTokens data, token.Legible := by
  simp only [scanTokens, List.forall_mem_cons]
  exact ⟨by decide, ⟨Nat.toDigits_ne_nil, by omega, isLetter_toDigits _⟩, by decide,
    List.forall_mem_nil _⟩

theorem isLetter_of_isTime {chars : List Char} (h : isTime chars = true) :
    chars ≠ [] ∧ ∀ c ∈ chars, isLetter c = true := by
  simp only [isTime, Bool.and_eq_true, List.any_eq_true, List.all_eq_true, Bool.or_eq_true,
    beq_iff_eq] at h
  obtain ⟨⟨⟨c, hc, -⟩, hall⟩, -⟩ := h
  refine ⟨List.ne_nil_of_mem hc, fun d hd => ?_⟩
  rcases hall d hd with hdigit | rfl
  · exact isLetter_of_isDigit hdigit
  · decide

theorem legible_scan {data : List UInt8}
    (h : (Nat.toDigits 10 (8 * data.length)).length ≤ 76) :
    ∀ token ∈ (scan data).tokens, token.Legible :=
  List.forall_mem_append.2
    ⟨legible_scanTokens h, List.forall_mem_singleton.2 (isLetter_field data)⟩

theorem legible_check {data : List UInt8}
    (h : (Nat.toDigits 10 (8 * data.length)).length ≤ 76) (expected mask : List UInt8) :
    ∀ token ∈ (check data expected mask).tokens, token.Legible := by
  obtain ⟨hexpected, hmask⟩ := forall_mem_align (field data) (by decide)
    (isLetter_field expected) (isLetter_field mask)
  refine List.forall_mem_append.2 ⟨legible_scanTokens h, ?_⟩
  simp only [List.forall_mem_cons]
  exact ⟨isLetter_field _, by decide, hexpected, by decide, hmask, List.forall_mem_nil _⟩

/-- Wrapping leaves the pieces of a writable statement readable. -/
theorem Writable.legible {s : Statement} (h : s.Writable) : ∀ token ∈ s.tokens, token.Legible := by
  cases s with
  | scan data => exact legible_scan (length_toDigits_le h)
  | check data expected mask => exact legible_check (length_toDigits_le h.1) _ _
  | idle seconds =>
    obtain ⟨hne, hletters⟩ := isLetter_of_isTime h.1
    simp only [tokens, List.forall_mem_cons]
    exact ⟨by decide, by decide, ⟨hne, h.2, hletters⟩, by decide, List.forall_mem_nil _⟩

theorem tokens_ne_nil (s : Statement) : s.tokens ≠ [] := by cases s <;> exact List.cons_ne_nil _ _

/-- The lines of a text, each one ended, are its lines joined and ended. -/
theorem flatMap_newline {lines : List (List Char)} (h : lines ≠ []) :
    lines.flatMap (· ++ ['\n']) = List.intercalate ['\n'] lines ++ ['\n'] := by
  induction lines with
  | nil => exact absurd rfl h
  | cons line lines ih =>
    cases lines with
    | nil => simp
    | cons next rest =>
      rw [List.flatMap_cons, ih (List.cons_ne_nil _ _), List.intercalate_cons_cons]
      simp only [List.append_assoc]

/-- Wrapping the line of some words shows these words. -/
theorem wrap_shows {words : List (List Char)} (hwords : ∀ word ∈ words, Plain word)
    (hne : words ≠ []) :
    ∃ shown, wrap (List.intercalate [' '] words) = .ok shown ∧ Shows false words shown := by
  obtain ⟨lines, shown, hlines, hflat, hshows⟩ := wrapWords_shows hwords hne
  have hsplit : wordsOf (List.intercalate [' '] words) = words :=
    wordsOf_intercalate hne fun word hword =>
      ⟨(hwords word hword).1, fun c hc => isBlank_of_isGraphic ((hwords word hword).2 c hc)⟩
  have hsome : lines ≠ [] := by
    intro hnil
    rw [hnil] at hflat
    exact List.append_ne_nil_of_right_ne_nil _ (List.cons_ne_nil _ _) hflat.symm
  rw [flatMap_newline hsome, List.append_cancel_right_eq] at hflat
  refine ⟨shown, ?_, hshows⟩
  rw [wrap, hsplit, hlines, ← hflat]
  rfl

/-- The text of a statement shows its words. -/
theorem text_shows {s : Statement} (h : ∀ token ∈ s.tokens, token.Legible) :
    ∃ shown, s.text = .ok (String.ofList (shown ++ ['\n'])) ∧ Shows false s.words shown := by
  have hplain : ∀ word ∈ s.words, Plain word := by
    rw [words_eq]
    exact Token.plain_of_mem_closed h
  -- A wait is its line, and a scan is wrapped.
  have hwrapped (hs : s.text = do return String.ofList ((← wrap s.line) ++ ['\n']))
      (hne : s.words ≠ []) :
      ∃ shown, s.text = .ok (String.ofList (shown ++ ['\n'])) ∧ Shows false s.words shown := by
    obtain ⟨shown, hwrap, hshows⟩ := wrap_shows hplain hne
    refine ⟨shown, ?_, hshows⟩
    rw [hs, line, hwrap]
    rfl
  cases s with
  | idle seconds => exact ⟨_, rfl, intercalate_shows hplain⟩
  | scan data => exact hwrapped rfl (List.cons_ne_nil _ _)
  | check data expected mask => exact hwrapped rfl (List.cons_ne_nil _ _)

/-- The text of a statement reads as its pieces, and leaves the reader between two statements. -/
theorem text_reads {s : Statement} (h : ∀ token ∈ s.tokens, token.Legible) :
    ∃ text, s.text = .ok text ∧ ∀ before : List (List Token),
      (⟨before, [], .gap⟩ : Reader).read text.toList = some ⟨before ++ [s.tokens], [], .gap⟩ := by
  obtain ⟨shown, htext, hshows⟩ := text_shows h
  refine ⟨String.ofList (shown ++ ['\n']), htext, fun before => ?_⟩
  rw [words_eq] at hshows
  rw [String.toList_ofList, Reader.read_append,
    Reader.read_shows s.tokens_ne_nil h hshows rfl (Or.inr rfl)]
  rfl

end Statement

/-! ## Programs read back -/

/-- The reader is between two statements wherever the text of one ends, so the texts read one after
another. -/
theorem foldlM_text {statements : List Statement} (h : ∀ s ∈ statements, s.Writable)
    (out : String) :
    ∃ text, statements.foldlM (fun out s => return out ++ (← s.text)) out = Except.ok text ∧
      ∃ more, text.toList = out.toList ++ more ∧ ∀ before : List (List Token),
        (⟨before, [], .gap⟩ : Reader).read more =
          some ⟨before ++ statements.map (·.tokens), [], .gap⟩ := by
  induction statements generalizing out with
  | nil =>
    refine ⟨out, rfl, [], (List.append_nil _).symm, fun before => ?_⟩
    rw [List.map_nil, List.append_nil]
    rfl
  | cons s statements ih =>
    rw [List.forall_mem_cons] at h
    obtain ⟨text, htext, hread⟩ := Statement.text_reads h.1.legible
    obtain ⟨all, hall, more, hmore, hreads⟩ := ih h.2 (out ++ text)
    refine ⟨all, ?_, text.toList ++ more, ?_, fun before => ?_⟩
    · rw [List.foldlM_cons, htext]
      exact hall
    · rw [hmore, String.toList_append, List.append_assoc]
    · rw [Reader.read_append, hread]
      show Reader.read _ more = _
      rw [hreads, List.append_assoc]
      rfl

/-- Statement by statement, pieces are turned into operations. -/
theorem mapM_operation? {statements : List Statement} (h : ∀ s ∈ statements, s.Writable) :
    (statements.map (·.tokens)).mapM operation? = some (statements.map (·.operation)) := by
  induction statements with
  | nil => rfl
  | cons s statements ih =>
    rw [List.forall_mem_cons] at h
    rw [List.map_cons, List.mapM_cons, Statement.operation?_tokens h.1, ih h.2]
    rfl

/-- The text of a program reads back as the operations of its statements. -/
theorem render_reads {statements : List Statement} (h : ∀ s ∈ statements, s.Writable) :
    ∃ text, render statements = .ok text ∧
      operations? text = some (statements.map (·.operation)) := by
  obtain ⟨text, htext, more, hmore, hread⟩ := foldlM_text h ""
  refine ⟨text, htext, ?_⟩
  rw [operations?, statements?, hmore]
  show ((Reader.read _ more).bind _).bind _ = _
  rw [hread []]
  exact mapM_operation? h

example : operations? "SDR 16 TDI (00A0) TDO (00\n  00) MASK (8000\n  );\nRUNTEST IDLE 2 SEC;\n" =
    some [.check [0x05, 0x00] [0x00, 0x00] [0x00, 0x01], .idle] := by decide +kernel

end NorDisk.Svf
