import NorDisk.Proofs.LineWrapping

/-!
# Reading statements in pieces

A vector file is a sequence of statements, each of words and of fields in parentheses. Its reader
knows nothing of lines: white space separates words and means nothing inside a field. So a statement
reads as the same pieces into whatever lines it was wrapped: its words stay whole, and what wrapping
adds to a field is white space.

* **`Reader.step`** — the reader, character by character.
* **`Reader.read_next`** — it skips white space up to the next character that counts.
* **`Reader.read_chars`** — one piece, as lines may show it.
* **`Reader.read_shows`** — one statement.
-/

namespace NorDisk.Svf

/-! ## The reader -/

/-- A piece of a statement. -/
inductive Token where
  | word (chars : List Char)
  /-- What stands between parentheses, white space left out. -/
  | field (chars : List Char)
deriving DecidableEq

/-- What is being read. -/
inductive Pending where
  | gap
  | word (chars : List Char)
  | field (chars : List Char)

structure Reader where
  statements : List (List Token) := []
  /-- What has been read of the next statement. -/
  tokens : List Token := []
  pending : Pending := .gap

namespace Reader

/-- A word ends here, if one is being read. -/
def endWord (r : Reader) : Reader :=
  match r.pending with
  | .word chars => { r with tokens := r.tokens ++ [.word chars], pending := .gap }
  | _ => r

/-- Read a character between parentheses. -/
def stepInside (chars : List Char) (r : Reader) (c : Char) : Option Reader :=
  if c.isWhitespace then some r
  else if c = ')' then some { r with tokens := r.tokens ++ [.field chars], pending := .gap }
  else if c = '(' ∨ c = ';' then none
  else some { r with pending := .field (chars ++ [c]) }

/-- Read a character outside of parentheses, `chars` being the word so far. -/
def stepOutside (chars : List Char) (r : Reader) (c : Char) : Option Reader :=
  if c.isWhitespace then some r.endWord
  else if c = '(' then some { r.endWord with pending := .field [] }
  else if c = ';' then some { statements := r.statements ++ [r.endWord.tokens] }
  else if c = ')' then none
  else some { r with pending := .word (chars ++ [c]) }

def step (r : Reader) (c : Char) : Option Reader :=
  match r.pending with
  | .field chars => r.stepInside chars c
  | .word chars => r.stepOutside chars c
  | .gap => r.stepOutside [] c

def read (r : Reader) (text : List Char) : Option Reader := text.foldlM step r

/-- The statements of a text that ends behind one. -/
def finish? (r : Reader) : Option (List (List Token)) :=
  match r.pending, r.tokens with
  | .gap, [] => some r.statements
  | _, _ => none

end Reader

/-- The statements of a text, in pieces. -/
def statements? (text : List Char) : Option (List (List Token)) :=
  (({} : Reader).read text).bind Reader.finish?

/-! ## Pieces as words of a text -/

/-- A character of a word or a field. -/
def isLetter (c : Char) : Bool := isGraphic c && c != '(' && c != ')' && c != ';'

theorem isGraphic_of_isLetter {c : Char} (h : isLetter c = true) : isGraphic c = true := by
  simp only [isLetter, Bool.and_eq_true] at h
  exact h.1.1.1

namespace Token

/-- The characters of a piece, parentheses included. -/
def chars : Token → List Char
  | word chars => chars
  | field chars => '(' :: chars ++ [')']

/-- A piece that wrapping leaves readable: of words only those that stay whole, with an end of
statement behind them too. -/
def Legible : Token → Prop
  | word chars => chars ≠ [] ∧ chars.length < 77 ∧ ∀ c ∈ chars, isLetter c = true
  | field chars => ∀ c ∈ chars, isLetter c = true

instance : (token : Token) → Decidable token.Legible
  | word chars =>
    decidable_of_iff (chars ≠ [] ∧ chars.length < 77 ∧ chars.all isLetter = true)
      (and_congr_right' (and_congr_right' List.all_eq_true))
  | field chars => decidable_of_iff (chars.all isLetter = true) List.all_eq_true

/-- The words that a statement is written as. -/
def closed : List Token → List (List Char)
  | [] => []
  | [token] => [token.chars ++ [';']]
  | token :: tokens => token.chars :: closed tokens

/-- As it is written, a legible piece is a word of graphic characters. -/
theorem Legible.plain {token : Token} (h : token.Legible) : Plain token.chars := by
  cases token with
  | word chars => exact ⟨h.1, fun c hc => isGraphic_of_isLetter (h.2.2 c hc)⟩
  | field chars =>
    have hchars : ∀ c ∈ chars, isGraphic c = true := fun c hc => isGraphic_of_isLetter (h c hc)
    refine ⟨List.cons_ne_nil _ _, ?_⟩
    exact List.forall_mem_cons.2 ⟨by decide,
      List.forall_mem_append.2 ⟨hchars, List.forall_mem_singleton.2 (by decide)⟩⟩

/-- The words of a statement of legible pieces are graphic, its end included. -/
theorem plain_of_mem_closed {tokens : List Token} (h : ∀ token ∈ tokens, token.Legible) :
    ∀ word ∈ closed tokens, Plain word := by
  fun_induction closed tokens with
  | case1 => exact List.forall_mem_nil _
  | case2 token =>
    obtain ⟨hne, hgraphic⟩ := (h token List.mem_cons_self).plain
    refine List.forall_mem_singleton.2 ⟨List.append_ne_nil_of_left_ne_nil hne _, ?_⟩
    exact List.forall_mem_append.2 ⟨hgraphic, List.forall_mem_singleton.2 (by decide)⟩
  | case3 token tokens _ ih =>
    rw [List.forall_mem_cons] at h
    exact List.forall_mem_cons.2 ⟨h.1.plain, ih h.2⟩

end Token

namespace Reader

variable {r : Reader} {statements : List (List Token)} {tokens : List Token} {c : Char}

/-! ## White space -/

theorem read_append (r : Reader) (first rest : List Char) :
    r.read (first ++ rest) = (r.read first).bind (·.read rest) := List.foldlM_append ..

theorem read_cons (r : Reader) (c : Char) (rest : List Char) :
    r.read (c :: rest) = (r.step c).bind (·.read rest) := List.foldlM_cons ..

theorem endWord_endWord (r : Reader) : r.endWord.endWord = r.endWord := by
  obtain ⟨statements, tokens, pending⟩ := r
  cases pending <;> rfl

/-- White space ends a word and does nothing else, inside a field or outside. -/
theorem step_blank (hc : c.isWhitespace = true) : r.step c = some r.endWord := by
  cases hpending : r.pending <;>
    simp [step, hpending, stepInside, stepOutside, hc, endWord]

/-- A gap ends a word that is being read. An empty gap does not, which is why only `endWord` is the
same in any case. -/
theorem read_gap {gap : List Char} (hgap : IsGap gap) :
    ∃ r', r.read gap = some r' ∧ r'.endWord = r.endWord ∧ (gap ≠ [] → r' = r.endWord) := by
  induction gap generalizing r with
  | nil => exact ⟨r, rfl, rfl, fun h => absurd rfl h⟩
  | cons c rest ih =>
    rw [IsGap, List.forall_mem_cons] at hgap
    obtain ⟨r', hread, hend, hne⟩ := @ih r.endWord hgap.2
    rw [endWord_endWord] at hend hne
    refine ⟨r', ?_, hend, fun _ => ?_⟩
    · rw [read_cons, step_blank hgap.1]
      exact hread
    · cases rest with
      | nil =>
        cases hread
        rfl
      | cons => exact hne (List.cons_ne_nil _ _)

/-- White space is skipped in front of a character that is read alike behind a word and after it. -/
theorem read_next {shown more : List Char} (hstep : r.endWord.step c = r.step c)
    (hshown : letters shown = c :: more) :
    ∃ rest, letters rest = more ∧ r.read shown = (r.step c).bind (·.read rest) := by
  induction shown generalizing r with
  | nil => cases hshown
  | cons d rest ih =>
    cases hd : d.isWhitespace with
    | true =>
      rw [letters, List.filter_cons_of_neg (by simp [hd])] at hshown
      obtain ⟨rest', hrest', hread⟩ := @ih r.endWord (by rw [endWord_endWord]) hshown
      refine ⟨rest', hrest', ?_⟩
      rw [read_cons, step_blank hd, ← hstep]
      exact hread
    | false =>
      rw [letters, List.filter_cons_of_pos (by simp [hd]), List.cons.injEq] at hshown
      obtain ⟨rfl, hrest⟩ := hshown
      exact ⟨rest, hrest, read_cons ..⟩

/-! ## One piece

A word is read whole; its first letter starts it. A field is read letter by letter with white space
anywhere, from one parenthesis to the other. -/

/-- A letter is added to what is pending; in a gap it starts a word. -/
theorem step_letter (hc : isLetter c = true) :
    r.step c = some { r with pending := match r.pending with
      | .gap => .word [c]
      | .word chars => .word (chars ++ [c])
      | .field chars => .field (chars ++ [c]) } := by
  have hspace := isWhitespace_of_isGraphic (isGraphic_of_isLetter hc)
  simp only [isLetter, Bool.and_eq_true, bne_iff_ne] at hc
  cases hpending : r.pending <;> simp [step, hpending, stepInside, stepOutside, hspace, hc]

/-- Letters that go on a word. -/
theorem read_word {chars : List Char} (hchars : ∀ c ∈ chars, isLetter c = true)
    (before : List Char) :
    (⟨statements, tokens, .word before⟩ : Reader).read chars =
      some ⟨statements, tokens, .word (before ++ chars)⟩ := by
  induction chars generalizing before with
  | nil =>
    rw [List.append_nil]
    rfl
  | cons c rest ih =>
    rw [List.forall_mem_cons] at hchars
    rw [read_cons, step_letter hchars.1]
    show read _ rest = _
    rw [ih hchars.2, List.append_assoc]
    rfl

/-- A field is read to its parenthesis, whatever white space stands between its letters. Induction
on the letters; white space is skipped by `read_next`. -/
theorem read_field {chars shown more : List Char} (hchars : ∀ c ∈ chars, isLetter c = true)
    (before : List Char) (hshown : letters shown = chars ++ ')' :: more) :
    ∃ rest, letters rest = more ∧ (⟨statements, tokens, .field before⟩ : Reader).read shown =
      (⟨statements, tokens ++ [.field (before ++ chars)], .gap⟩ : Reader).read rest := by
  induction chars generalizing before shown with
  | nil =>
    rw [List.append_nil]
    exact read_next rfl hshown
  | cons c chars ih =>
    rw [List.forall_mem_cons] at hchars
    obtain ⟨rest, hrest, hread⟩ := read_next
      (r := ⟨statements, tokens, .field before⟩) rfl hshown
    obtain ⟨rest', hrest', hread'⟩ := ih hchars.2 (before ++ [c]) hrest
    refine ⟨rest', hrest', ?_⟩
    rw [hread, step_letter hchars.1]
    show read _ rest = _
    rw [hread', List.append_assoc]
    rfl

/-- A piece as lines may show it, and what is left to read behind it. A word may still be pending
then; `endWord` has it. -/
theorem read_chars {token : Token} (htoken : token.Legible) {shown more : List Char}
    (hmore : more.length ≤ 1) (hshown : Spread (token.chars ++ more) shown) :
    ∃ (r' : Reader) (rest : List Char),
      (⟨statements, tokens, .gap⟩ : Reader).read shown = r'.read rest ∧
      r'.endWord = ⟨statements, tokens ++ [token], .gap⟩ ∧ letters rest = more := by
  cases token with
  | word chars =>
    obtain ⟨hne, hlength, hchars⟩ := htoken
    -- A legible word fits on a line, the end of the statement behind it too, so no line cuts it.
    have hwhole : shown = chars ++ more := hshown.whole (by
      rw [List.length_append]
      show chars.length + _ ≤ 77
      omega)
    have hletters := hshown.letters_eq
    rw [hwhole] at hletters
    obtain ⟨c, rest, rfl⟩ := List.exists_cons_of_ne_nil hne
    refine ⟨⟨statements, tokens, .word (c :: rest)⟩, more, ?_, rfl, ?_⟩
    · rw [List.forall_mem_cons] at hchars
      rw [hwhole, read_append, read_cons, step_letter hchars.1]
      show ((read _ rest).bind _) = _
      rw [read_word hchars.2]
      rfl
    · exact List.filter_eq_self.2 fun d hd =>
        List.filter_eq_self.1 hletters d (List.mem_append_right _ hd)
  | field chars =>
    have hletters : letters shown = '(' :: (chars ++ ')' :: more) := by
      rw [hshown.letters_eq]
      simp [Token.chars]
    obtain ⟨rest, hrest, hread⟩ := read_next (r := ⟨statements, tokens, .gap⟩) rfl hletters
    obtain ⟨rest', hrest', hread'⟩ := read_field htoken [] hrest
    exact ⟨_, rest', hread.trans hread', rfl, hrest'⟩

/-! ## One statement

Between two pieces the reader is behind the first one, up to a word that only the white space in
front of the second will end: `r.endWord` is what it has. -/

variable {token : Token} {gap shown : List Char}

/-- White space in front of a piece ends the word before it; where there is none, no word was being
read. -/
theorem read_apart (hr : r.endWord = ⟨statements, tokens, .gap⟩) (hgap : IsGap gap)
    (hapart : gap ≠ [] ∨ r.pending = .gap) :
    r.read gap = some ⟨statements, tokens, .gap⟩ := by
  obtain ⟨r', hread, -, hne⟩ := read_gap (r := r) hgap
  rw [hread]
  by_cases hnil : gap = []
  · subst hnil
    cases hread
    rw [← hr, endWord, hapart.resolve_left fun h => h rfl]
  · rw [hne hnil, hr]

/-- A piece behind others is read, and its own end is left to what follows. -/
theorem read_piece (htoken : token.Legible) (hr : r.endWord = ⟨statements, tokens, .gap⟩)
    (hgap : IsGap gap) (hapart : gap ≠ [] ∨ r.pending = .gap)
    (hshown : Spread token.chars shown) :
    ∃ r', r.read (gap ++ shown) = some r' ∧
      r'.endWord = ⟨statements, tokens ++ [token], .gap⟩ := by
  rw [← List.append_nil token.chars] at hshown
  obtain ⟨r', rest, hread, hend, hrest⟩ := read_chars htoken (by decide) hshown
  obtain ⟨r'', hread', hend', -⟩ := read_gap (r := r') (letters_eq_nil.1 hrest)
  refine ⟨r'', ?_, hend'.trans hend⟩
  rw [read_append, read_apart hr hgap hapart, ← hread', ← hread]
  rfl

/-- A semicolon ends the statement, and first a word that is being read. -/
theorem step_end (hr : r.endWord = ⟨statements, tokens, .gap⟩) :
    r.step ';' = some ⟨statements ++ [tokens], [], .gap⟩ := by
  obtain ⟨statements', tokens', pending⟩ := r
  cases pending with
  | field chars => cases hr
  | gap | word chars =>
    cases hr
    rfl

/-- The last piece is read with the end of the statement behind it. -/
theorem read_last (htoken : token.Legible) (hr : r.endWord = ⟨statements, tokens, .gap⟩)
    (hgap : IsGap gap) (hapart : gap ≠ [] ∨ r.pending = .gap)
    (hshown : Spread (token.chars ++ [';']) shown) :
    r.read (gap ++ shown) = some ⟨statements ++ [tokens ++ [token]], [], .gap⟩ := by
  obtain ⟨r', rest, hread, hend, hrest⟩ := read_chars htoken (by decide) hshown
  have hstep := step_end hend
  have hstep' : r'.endWord.step ';' = r'.step ';' := by
    rw [hstep, step_end (by rw [endWord_endWord, hend])]
  -- The end of the statement may stand on a line of its own.
  obtain ⟨rest', hrest', hread'⟩ := read_next hstep' hrest
  rw [read_append, read_apart hr hgap hapart]
  show read _ shown = _
  rw [hread, hread', hstep]
  exact read_apart rfl (letters_eq_nil.1 hrest') (Or.inr rfl)

/-- A statement reads as its pieces, however lines show it. -/
theorem read_shows {started : Bool} {pieces : List Token} {text : List Char} (hne : pieces ≠ [])
    (hpieces : ∀ token ∈ pieces, token.Legible)
    (hshows : Shows started (Token.closed pieces) text)
    (hr : r.endWord = ⟨statements, tokens, .gap⟩) (hstart : started = true ∨ r.pending = .gap) :
    r.read text = some ⟨statements ++ [tokens ++ pieces], [], .gap⟩ := by
  -- Along the words of the statement: the last one carries its end.
  fun_induction Token.closed pieces generalizing started text r tokens with
  | case1 => exact absurd rfl hne
  | case2 token =>
    have htoken := hpieces token List.mem_cons_self
    cases hshows with
    | cons hgap hapart hspread hrest =>
      cases hrest
      rw [List.append_nil]
      exact read_last htoken hr hgap (hstart.imp hapart id) hspread
  | case3 token pieces hpieces' ih =>
    rw [List.forall_mem_cons] at hpieces
    cases hshows with
    | cons hgap hapart hspread hrest =>
      obtain ⟨r', hread, hend⟩ :=
        read_piece hpieces.1 hr hgap (hstart.imp hapart id) hspread
      rw [read_append, hread]
      show read r' _ = _
      rw [ih hpieces' hpieces.2 hrest hend (Or.inl rfl), List.append_assoc]
      rfl

end Reader

end NorDisk.Svf
