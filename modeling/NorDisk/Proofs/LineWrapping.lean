import NorDisk.Svf.Wrap

/-!
# What line wrapping does to words

Wrapping only adds white space. `Shows` says what the lines of a text show: the words in their
order, white space between any two of them, and white space inside a word only if it is longer than
a line. A line is left for the next one only when it is empty or holds a word already
(`Fill.Begun`), so a word is cut only where moving it would not help.

* **`Fill.place_took`** — one word more.
* **`wrapWords_shows`** — all words of a text.
-/

namespace NorDisk.Svf

/-! ## Words and white space -/

/-- Characters that take one byte and can be seen. -/
def isGraphic (c : Char) : Bool := 0x21 ≤ c.toNat && c.toNat ≤ 0x7E

/-- A word of graphic characters. -/
def Plain (word : List Char) : Prop := word ≠ [] ∧ ∀ c ∈ word, isGraphic c = true

/-- A run of white space. -/
def IsGap (gap : List Char) : Prop := ∀ c ∈ gap, c.isWhitespace = true

/-- What is left of a text without its white space. -/
def letters (text : List Char) : List Char := text.filter (!·.isWhitespace)

/-- `shown` is a word with white space in it; a word that fits on a line has none. -/
structure Spread (word shown : List Char) : Prop where
  letters_eq : letters shown = word
  whole : word.length ≤ 77 → shown = word

/-- `text` shows words in their order. `started` tells whether something stands before the first
one, so that white space has to separate them. -/
inductive Shows : Bool → List (List Char) → List Char → Prop where
  | nil (started : Bool) : Shows started [] []
  | cons {started : Bool} {word gap shown : List Char} {words : List (List Char)}
      {text : List Char} (hgap : IsGap gap) (hapart : started = true → gap ≠ [])
      (hspread : Spread word shown) (hrest : Shows true words text) :
      Shows started (word :: words) (gap ++ shown ++ text)

section Graphic

variable {c : Char} {word : List Char}

theorem utf8Size_of_ascii (h : c.toNat < 128) : c.utf8Size = 1 :=
  Char.utf8Size_eq_one_iff.2 (UInt32.le_iff_toNat_le.2 (Nat.le_of_lt_succ h))

theorem utf8Size_of_isGraphic (h : isGraphic c = true) : c.utf8Size = 1 := by
  simp only [isGraphic, Bool.and_eq_true, decide_eq_true_eq] at h
  exact utf8Size_of_ascii (by omega)

/-- Text is not split at a graphic character. -/
theorem isBlank_of_isGraphic (h : isGraphic c = true) : isBlank c = false := by
  simp only [isGraphic, Bool.and_eq_true, decide_eq_true_eq] at h
  simp only [isBlank, Bool.or_eq_false_iff, Bool.and_eq_false_iff, decide_eq_false_iff_not,
    beq_eq_false_iff_ne]
  omega

/-- A graphic character is no white space. -/
theorem isWhitespace_of_isGraphic (h : isGraphic c = true) : c.isWhitespace = false := by
  cases hspace : c.isWhitespace with
  | false => rfl
  | true =>
    simp only [Char.isWhitespace, Bool.or_eq_true, decide_eq_true_eq] at hspace
    obtain ((rfl | rfl) | rfl) | rfl := hspace <;> exact absurd h (by decide)

/-- Text of single bytes has as many bytes as characters. -/
theorem byteLength_of_single (h : ∀ c ∈ word, c.utf8Size = 1) : byteLength word = word.length := by
  induction word with
  | nil => rfl
  | cons c rest ih =>
    rw [List.forall_mem_cons] at h
    rw [byteLength, h.1, ih h.2, List.length_cons, Nat.add_comm]

theorem byteLength_of_isGraphic (h : ∀ c ∈ word, isGraphic c = true) :
    byteLength word = word.length :=
  byteLength_of_single fun c hc => utf8Size_of_isGraphic (h c hc)

theorem letters_append (first rest : List Char) :
    letters (first ++ rest) = letters first ++ letters rest := List.filter_append ..

/-- A word has no white space to lose. -/
theorem letters_of_isGraphic (h : ∀ c ∈ word, isGraphic c = true) : letters word = word :=
  List.filter_eq_self.2 fun c hc => by rw [isWhitespace_of_isGraphic (h c hc)]; rfl

/-- Only white space loses everything. -/
theorem letters_eq_nil {gap : List Char} : letters gap = [] ↔ IsGap gap := by
  simp [letters, IsGap, List.filter_eq_nil_iff]

theorem Spread.refl (h : ∀ c ∈ word, isGraphic c = true) : Spread word word :=
  ⟨letters_of_isGraphic h, fun _ => rfl⟩

/-- Text of single bytes can be cut anywhere. -/
theorem cutBytes?_of_single {n : Nat} (h : ∀ c ∈ word, c.utf8Size = 1) (hn : n ≤ word.length) :
    cutBytes? n word = some (word.take n, word.drop n) := by
  induction n generalizing word with
  | zero => rw [cutBytes?, List.take_zero, List.drop_zero]
  | succ n ih =>
    cases word with
    | nil => exact absurd hn (Nat.not_succ_le_zero n)
    | cons c rest =>
      rw [List.forall_mem_cons] at h
      rw [cutBytes?, h.1, if_pos (Nat.le_add_left 1 n), Nat.add_sub_cancel,
        ih h.2 (Nat.le_of_succ_le_succ hn), List.take_succ_cons, List.drop_succ_cons]
      rfl

theorem cutBytes?_of_isGraphic {n : Nat} (h : ∀ c ∈ word, isGraphic c = true)
    (hn : n ≤ word.length) : cutBytes? n word = some (word.take n, word.drop n) :=
  cutBytes?_of_single (fun c hc => utf8Size_of_isGraphic (h c hc)) hn

end Graphic

/-! ## Filling -/

namespace Fill

variable {f f' : Fill} {word : List Char}

/-- What has been written, the line that is being filled included. -/
def text (f : Fill) : List Char := f.lines.reverse.flatMap (· ++ ['\n']) ++ f.current

/-- The line that is being filled holds a word. -/
def Begun (f : Fill) : Prop := f.current.all isBlank = false

/-- `f'` is `f` with one word more. -/
structure Took (f : Fill) (word : List Char) (f' : Fill) : Prop where
  begun : f'.Begun
  shown : ∃ gap shown, f'.text = f.text ++ (gap ++ shown) ∧ IsGap gap ∧
    (f.text ≠ [] → gap ≠ []) ∧ Spread word shown

/-- Ending a line adds a line break to what has been written. -/
theorem text_endLine (f : Fill) : f.endLine.text = f.text ++ ['\n'] := by
  simp [text, endLine]

theorem text_append (f : Fill) (more : List Char) :
    ({ f with current := f.current ++ more } : Fill).text = f.text ++ more := by
  simp [text]

/-- A line with a word on it is begun. -/
theorem begun_append (h : Plain word) (lines : List (List Char)) (before : List Char) :
    Begun { lines, current := before ++ word } := by
  obtain ⟨c, rest, rfl⟩ := List.exists_cons_of_ne_nil h.1
  have hc := isBlank_of_isGraphic (h.2 c List.mem_cons_self)
  simp [Begun, hc]

/-- What is put in front of a word is white space. -/
theorem isGap_separator (f : Fill) : IsGap f.separator := by
  unfold separator
  split
  · split <;> exact List.all_eq_true.1 rfl
  · exact List.all_eq_true.1 rfl

/-- Only the very first word has nothing in front of it. -/
theorem separator_ne_nil (h : f.text ≠ []) : f.separator ≠ [] := by
  unfold separator
  split
  · split
    · rename_i hcurrent hlines
      rw [List.isEmpty_iff] at hcurrent hlines
      exact absurd (by rw [text, hcurrent, hlines]; rfl) h
    · decide
  · decide

/-- A word is taken behind a line that is ended for it. -/
theorem Took.of_endLine (h : f.endLine.Took word f') : f.Took word f' := by
  obtain ⟨hbegun, gap, shown, htext, hgap, -, hspread⟩ := h
  refine ⟨hbegun, '\n' :: gap, shown, ?_, ?_, fun _ => List.cons_ne_nil _ _, hspread⟩
  · rw [htext, text_endLine, List.append_assoc]
    rfl
  · exact List.forall_mem_cons.2 ⟨by decide, hgap⟩

/-- A word longer than a line is taken in two parts. -/
theorem Took.of_cut {head tail : List Char} (hhead : ∀ c ∈ head, isGraphic c = true)
    (hlong : 77 < (head ++ tail).length)
    (h : ({ f with current := f.current ++ f.separator ++ head } : Fill).endLine.Took tail f') :
    f.Took (head ++ tail) f' := by
  obtain ⟨hbegun, gap, shown, htext, hgap, -, hspread⟩ := h
  refine ⟨hbegun, f.separator, head ++ ('\n' :: (gap ++ shown)), ?_, isGap_separator f,
    separator_ne_nil, ?_, fun hshort => by omega⟩
  · rw [htext, text_endLine, List.append_assoc f.current, text_append]
    simp only [List.append_assoc, List.singleton_append]
  · -- The white space between the two parts is inside the word, and no letter of it.
    have hline : letters ('\n' :: (gap ++ shown)) = letters gap ++ letters shown :=
      letters_append ..
    rw [letters_append, hline, letters_eq_nil.2 hgap, hspread.letters_eq,
      letters_of_isGraphic hhead]
    rfl

/-- A word is taken as long as the line is empty or holds a word already. -/
theorem place_took (f : Fill) (hword : Plain word) (hf : f.current = [] ∨ f.Begun) :
    ∃ f', f.place word = .ok f' ∧ f.Took word f' := by
  -- Along the recursion of `place`: the word fits, is cut, or moves to the next line.
  fun_induction place f word with
  | case1 f word hfits =>
    refine ⟨_, rfl, begun_append hword _ _, f.separator, word, ?_, isGap_separator f,
      separator_ne_nil, Spread.refl hword.2⟩
    rw [List.append_assoc, text_append]
  | case2 f word hfits hblank hcut =>
    -- No cut is inside a character.
    rw [fits_iff, byteLength_of_isGraphic hword.2] at hfits
    rw [cutBytes?_of_isGraphic hword.2 (by omega)] at hcut
    exact absurd hcut (Option.some_ne_none _)
  | case3 f word hfits hblank head tail hcut indent ih =>
    have hempty : f.current = [] := hf.resolve_right fun h => by rw [h] at hblank; cases hblank
    have hindent : indent = f.separator := by
      rw [separator, if_pos (List.isEmpty_iff.2 hempty)]
      rfl
    -- An empty line has room for any word of up to a line, so this one is longer.
    have hroom := room_pos_of_current_eq_nil (List.isEmpty_iff.2 hempty)
    rw [fits_iff, byteLength_of_isGraphic hword.2] at hfits
    obtain rfl := append_of_cutBytes? hcut
    rw [cutBytes?_of_isGraphic hword.2 (by omega), Option.some.injEq, Prod.mk.injEq] at hcut
    obtain ⟨hhead, htail⟩ := List.forall_mem_append.1 hword.2
    have hleft : tail ≠ [] := by
      rw [← hcut.2]
      exact List.ne_nil_of_length_pos (by rw [List.length_drop]; omega)
    obtain ⟨f', hplace, htook⟩ := ih ⟨hleft, htail⟩ (Or.inl rfl)
    rw [hindent] at htook
    exact ⟨f', hplace, htook.of_cut hhead (by omega)⟩
  | case4 f word hfits hblank ih =>
    obtain ⟨f', hplace, htook⟩ := ih hword (Or.inl rfl)
    exact ⟨f', hplace, htook.of_endLine⟩

theorem Begun.current_ne_nil (h : f.Begun) : f.current ≠ [] := by
  intro hnil
  rw [Begun, hnil] at h
  cases h

theorem Begun.text_ne_nil (h : f.Begun) : f.text ≠ [] :=
  List.append_ne_nil_of_right_ne_nil _ h.current_ne_nil

/-- What is written of a begun line and the lines before it, once it is ended. -/
theorem Begun.flatMap_allLines (h : f.Begun) :
    f.allLines.flatMap (· ++ ['\n']) = f.text ++ ['\n'] := by
  rw [allLines, if_neg (by rw [List.isEmpty_iff]; exact h.current_ne_nil)]
  simp [text]

/-- Words that are placed behind a begun line, or from the start. -/
theorem foldlM_place {words : List (List Char)} (hwords : ∀ word ∈ words, Plain word) (f : Fill)
    (hf : f.current = [] ∨ f.Begun) :
    ∃ f' text, words.foldlM place f = .ok f' ∧ f'.text = f.text ++ text ∧
      Shows (!f.text.isEmpty) words text ∧ (words ≠ [] → f'.Begun) := by
  induction words generalizing f with
  | nil => exact ⟨f, [], rfl, (List.append_nil _).symm, .nil _, fun h => absurd rfl h⟩
  | cons word words ih =>
    rw [List.forall_mem_cons] at hwords
    obtain ⟨f', hplace, hbegun, gap, shown, htext, hgap, hapart, hspread⟩ :=
      place_took f hwords.1 hf
    obtain ⟨f'', text, hplaces, htext', hshows, hbegun'⟩ := ih hwords.2 f' (Or.inr hbegun)
    -- Behind the first word something stands before each further one.
    rw [show (!f'.text.isEmpty) = true by simpa using hbegun.text_ne_nil] at hshows
    refine ⟨f'', gap ++ shown ++ text, ?_, ?_, .cons hgap ?_ hspread hshows, fun _ => ?_⟩
    · rw [List.foldlM_cons, hplace]
      exact hplaces
    · rw [htext', htext, List.append_assoc]
    · simpa using hapart
    · cases words with
      | nil =>
        cases hplaces
        exact hbegun
      | cons next rest => exact hbegun' (List.cons_ne_nil _ _)

end Fill

/-- The lines of a text show its words. -/
theorem wrapWords_shows {words : List (List Char)} (hwords : ∀ word ∈ words, Plain word)
    (hne : words ≠ []) :
    ∃ lines text, wrapWords words = .ok lines ∧
      lines.flatMap (· ++ ['\n']) = text ++ ['\n'] ∧ Shows false words text := by
  obtain ⟨f, text, hplaces, htext, hshows, hbegun⟩ := Fill.foldlM_place hwords {} (Or.inl rfl)
  refine ⟨f.allLines, text, ?_, ?_, hshows⟩
  · rw [wrapWords, hplaces]
    rfl
  · rw [(hbegun hne).flatMap_allLines, htext]
    rfl

/-- Joining puts a blank in front of each word but the first. -/
theorem intercalate_blank_cons (word : List Char) (words : List (List Char)) :
    List.intercalate [' '] (word :: words) = word ++ words.flatMap (' ' :: ·) := by
  induction words generalizing word with
  | nil => simp
  | cons next rest ih => simp [List.intercalate_cons_cons, ih next]

/-- Words with one blank between any two of them. -/
theorem intercalate_shows {words : List (List Char)} (hwords : ∀ word ∈ words, Plain word) :
    Shows false words (List.intercalate [' '] words) := by
  -- Behind the first word, a blank and a word at a time.
  have hbehind : ∀ {words : List (List Char)}, (∀ word ∈ words, Plain word) →
      Shows true words (words.flatMap (' ' :: ·)) := by
    intro words hwords
    induction words with
    | nil => exact .nil true
    | cons word words ih =>
      rw [List.forall_mem_cons] at hwords
      show Shows true _ ([' '] ++ word ++ _)
      exact .cons (List.all_eq_true.1 rfl) (fun _ => List.cons_ne_nil _ _)
        (Spread.refl hwords.1.2) (ih hwords.2)
  cases words with
  | nil => exact .nil false
  | cons word words =>
    rw [List.forall_mem_cons] at hwords
    rw [intercalate_blank_cons]
    show Shows false _ ([] ++ word ++ _)
    exact .cons (fun c hc => absurd hc List.not_mem_nil) (fun h => by cases h)
      (Spread.refl hwords.1.2) (hbehind hwords.2)

end NorDisk.Svf
