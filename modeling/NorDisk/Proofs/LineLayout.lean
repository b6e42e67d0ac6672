import NorDisk.Proofs.LineWrapping

/-!
# The lines that wrapping makes

Whatever the text, wrapping keeps all of it but blanks and line breaks, in order. Of words with one
blank between any two, more is known: the lines are the words again, cut into pieces where a word is
longer than a line. `showLines` writes pieces down line by line, `Cut` says which pieces words may
come in, and `Fill.Holds` is the invariant that connects the two while lines are filled.

* **`Fill.place_solid`**, **`wrap_solid`** — nothing is lost and nothing added.
* **`Fill.place_holds`**, **`Fill.foldlM_place_holds`** — one word more, then all words.
* **`wrap_layout`** — the layout of a wrapped line.
-/

namespace NorDisk.Svf

variable {c : Char} {word line out : List Char} {words : List (List Char)}

/-! ## What is kept -/

/-- What is left of a text without its blanks and line breaks. -/
def solid (text : List Char) : List Char := text.filter fun c => c ≠ ' ' && c ≠ '\n'

theorem solid_append (first rest : List Char) : solid (first ++ rest) = solid first ++ solid rest :=
  List.filter_append ..

/-- Joining adds only what is between the parts. -/
theorem solid_intercalate {gap : List Char} (hgap : solid gap = []) (parts : List (List Char)) :
    solid (List.intercalate gap parts) = parts.flatMap solid := by
  induction parts with
  | nil => rfl
  | cons part parts ih =>
    cases parts with
    | nil => simp
    | cons next rest =>
      rw [List.intercalate_cons_cons, solid_append, solid_append, hgap, ih, List.append_nil]
      rfl

theorem mem_intercalate {gap part : List Char} {parts : List (List Char)} (hpart : part ∈ parts)
    (hc : c ∈ part) : c ∈ List.intercalate gap parts := by
  induction parts with
  | nil => cases hpart
  | cons first rest ih =>
    rcases List.mem_cons.mp hpart with rfl | hrest
    · cases rest <;> simp [hc]
    · cases rest with
      | nil => cases hrest
      | cons next rest => simp [ih hrest]

/-- The words of a text are what stands between its blanks. -/
theorem wordsOf_eq (text : List Char) : wordsOf text = text.splitOn ' ' := by
  have hgo : ∀ rev, wordsOf.go rev text = List.splitOnPPrepend (· == ' ') text rev := by
    induction text with
    | nil => exact fun rev => rfl
    | cons c rest ih =>
      intro rev
      rw [List.splitOnPPrepend]
      by_cases hc : c = ' '
      · subst hc
        rw [wordsOf.go, ih]
        rfl
      · rw [wordsOf.go.eq_3 _ _ _ hc, ih, if_neg (by simpa using hc)]
  exact hgo []

/-- Words joined again are the text. -/
theorem intercalate_wordsOf (text : List Char) : List.intercalate [' '] (wordsOf text) = text := by
  rw [wordsOf_eq, List.intercalate_splitOn]

namespace Fill

variable {f f' : Fill}

/-- A word that fits is written behind what separates it. -/
theorem place_of_fits (h : fits f.room word = true) :
    f.place word = .ok { f with current := f.current ++ f.separator ++ word } := by
  rw [place, if_pos h]

theorem solid_text_endLine (f : Fill) : solid f.endLine.text = solid f.text := by
  rw [text_endLine, solid_append]
  exact List.append_nil _

/-- What separates words is blanks and line breaks. -/
theorem solid_separator (f : Fill) : solid f.separator = [] := by
  unfold separator
  split
  · split <;> rfl
  · rfl

/-- A word is written with blanks and line breaks before and inside it. -/
theorem place_solid (h : f.place word = .ok f') :
    solid f'.text = solid f.text ++ solid word := by
  fun_induction place f word with
  | case1 f word hfits =>
    cases h
    rw [List.append_assoc, text_append, solid_append, solid_append, solid_separator]
    rfl
  | case2 f word hfits hblank hcut => cases h
  -- The word is cut: its head is written here, its tail in the lines after.
  | case3 f word hfits hblank head tail hcut indent ih =>
    have hindent : solid indent = [] := by
      show solid (if _ then _ else _) = []
      split <;> rfl
    obtain rfl := append_of_cutBytes? hcut
    rw [ih h, solid_text_endLine, List.append_assoc f.current, text_append, solid_append,
      solid_append, solid_append, hindent, List.append_assoc]
    rfl
  | case4 f word hfits hblank ih => rw [ih h, solid_text_endLine]

/-- Words are placed one by one, and the first that cannot be cut stops it. -/
theorem of_foldlM_place_cons (h : (word :: words).foldlM place f = .ok f') :
    ∃ g, f.place word = .ok g ∧ words.foldlM place g = .ok f' := by
  rw [List.foldlM_cons] at h
  cases hplace : f.place word with
  | error cause =>
    rw [hplace] at h
    cases h
  | ok g =>
    rw [hplace] at h
    exact ⟨g, rfl, h⟩

/-- All words are written, and nothing else that shows. -/
theorem foldlM_place_solid (h : words.foldlM place f = .ok f') :
    solid f'.text = solid f.text ++ words.flatMap solid := by
  induction words generalizing f with
  | nil =>
    cases h
    exact (List.append_nil _).symm
  | cons word words ih =>
    obtain ⟨g, hplace, hplaces⟩ := of_foldlM_place_cons h
    rw [ih hplaces, place_solid hplace, List.append_assoc]
    rfl

/-- The lines are what has been written. -/
theorem solid_allLines (f : Fill) : f.allLines.flatMap solid = solid f.text := by
  have hended : ∀ lines : List (List Char),
      solid (lines.flatMap (· ++ ['\n'])) = lines.flatMap solid := by
    intro lines
    induction lines with
    | nil => rfl
    | cons line lines ih =>
      rw [List.flatMap_cons, List.flatMap_cons, solid_append, solid_append, ih]
      show solid line ++ [] ++ _ = _
      rw [List.append_nil]
  rw [text, solid_append, hended, allLines]
  -- The line that is being filled counts as a line only if something is on it.
  by_cases hcurrent : f.current = []
  · rw [hcurrent]
    exact (List.append_nil _).symm
  · rw [if_neg (by simpa using hcurrent), List.reverse_cons, List.flatMap_append,
      List.flatMap_singleton]

/-- A word of single bytes can be cut wherever a line ends. -/
theorem exists_place (f : Fill) (hword : ∀ c ∈ word, c.utf8Size = 1) :
    ∃ f', f.place word = .ok f' := by
  fun_induction place f word with
  | case1 f word hfits => exact ⟨_, rfl⟩
  | case2 f word hfits hblank hcut =>
    rw [fits_iff, byteLength_of_single hword] at hfits
    rw [cutBytes?_of_single hword (by omega)] at hcut
    cases hcut
  | case3 f word hfits hblank head tail hcut indent ih =>
    obtain rfl := append_of_cutBytes? hcut
    exact ih (List.forall_mem_append.1 hword).2
  | case4 f word hfits hblank ih => exact ih hword

/-- Words of single bytes can all be placed. -/
theorem exists_foldlM_place (f : Fill) (hwords : ∀ word ∈ words, ∀ c ∈ word, c.utf8Size = 1) :
    ∃ f', words.foldlM place f = .ok f' := by
  induction words generalizing f with
  | nil => exact ⟨f, rfl⟩
  | cons word words ih =>
    rw [List.forall_mem_cons] at hwords
    obtain ⟨g, hplace⟩ := f.exists_place hwords.1
    rw [List.foldlM_cons, hplace]
    exact ih g hwords.2

end Fill

/-- What a wrapped text is. -/
theorem of_wrap (h : wrap line = .ok out) :
    ∃ f, (wordsOf line).foldlM Fill.place {} = .ok f ∧
      out = List.intercalate ['\n'] f.allLines := by
  rw [wrap, wrapWords] at h
  cases hplaces : (wordsOf line).foldlM Fill.place {} with
  | error cause =>
    rw [hplaces] at h
    cases h
  | ok f =>
    rw [hplaces] at h
    cases h
    exact ⟨f, rfl, rfl⟩

theorem wrap_of_foldlM {f : Fill} (h : (wordsOf line).foldlM Fill.place {} = .ok f) :
    wrap line = .ok (List.intercalate ['\n'] f.allLines) := by
  rw [wrap, wrapWords, h]
  rfl

/-- A wrapped line shows what the line did. -/
theorem wrap_solid (h : wrap line = .ok out) : solid out = solid line := by
  obtain ⟨f, hplaces, rfl⟩ := of_wrap h
  have hblank : solid [' '] = [] := rfl
  rw [solid_intercalate rfl, Fill.solid_allLines, Fill.foldlM_place_solid hplaces,
    ← solid_intercalate hblank, intercalate_wordsOf]
  rfl

/-- A line of single bytes can be wrapped. -/
theorem exists_wrap (h : ∀ c ∈ line, c.toNat < 128) : ∃ out, wrap line = .ok out := by
  have hwords : ∀ word ∈ wordsOf line, ∀ c ∈ word, c.utf8Size = 1 := by
    intro word hword c hc
    have hin : c ∈ List.intercalate [' '] (wordsOf line) := mem_intercalate hword hc
    rw [intercalate_wordsOf] at hin
    exact utf8Size_of_ascii (h c hin)
  obtain ⟨f, hplaces⟩ := Fill.exists_foldlM_place {} hwords
  exact ⟨_, wrap_of_foldlM hplaces⟩

/-! ## Pieces on lines

A line that shows pieces is never empty, so where the pieces of the current line are known, so is
whether it has been started. -/

/-- Something to see, and no white space. -/
structure IsWord (word : List Char) : Prop where
  ne_nil : word ≠ []
  visible : ∀ c ∈ word, isBlank c = false

instance (word : List Char) : Decidable (IsWord word) :=
  decidable_of_iff (word ≠ [] ∧ word.all (!isBlank ·) = true)
    ⟨fun h => ⟨h.1, by simpa using h.2⟩, fun h => ⟨h.ne_nil, by simpa using h.visible⟩⟩

/-- A line of pieces with one blank between any two; only the first line of a text is not
indented. -/
def showLine (first : Bool) (pieces : List (List Char)) : List Char :=
  (if first then [] else [' ', ' ']) ++ List.intercalate [' '] pieces

/-- The lines of a text, from the pieces on each of them. -/
def showLines : List (List (List Char)) → List (List Char)
  | [] => []
  | first :: rest => showLine true first :: rest.map (showLine false)

/-- The pieces that words come in: in their order, and whole unless they are longer than a line. -/
inductive Cut : List (List Char) → List (List Char) → Prop
  | nil : Cut [] []
  | whole {word : List Char} {words pieces : List (List Char)} (h : Cut words pieces) :
      Cut (word :: words) (word :: pieces)
  | cut {head tail : List Char} {words pieces : List (List Char)} (hhead : head ≠ [])
      (hlong : 77 < byteLength (head ++ tail)) (h : Cut (tail :: words) pieces) :
      Cut ((head ++ tail) :: words) (head :: pieces)

/-- Words are cut independently of those before them. -/
theorem Cut.append {words' pieces pieces' : List (List Char)} (h : Cut words pieces)
    (h' : Cut words' pieces') : Cut (words ++ words') (pieces ++ pieces') := by
  induction h with
  | nil => exact h'
  | whole h ih => exact .whole ih
  | cut hhead hlong h ih => exact .cut hhead hlong ih

/-- A word that is not longer than a line is a piece. -/
theorem Cut.mem_of_short {pieces : List (List Char)} (h : Cut words pieces) (hword : word ∈ words)
    (hshort : byteLength word ≤ 77) : word ∈ pieces := by
  induction h with
  | nil => exact hword
  | whole h ih =>
    rcases List.mem_cons.1 hword with rfl | hword
    · exact List.mem_cons_self
    · exact List.mem_cons_of_mem _ (ih hword)
  | cut hhead hlong h ih =>
    rcases List.mem_cons.1 hword with rfl | hword
    · omega
    · exact List.mem_cons_of_mem _ (ih (List.mem_cons_of_mem _ hword))

theorem byteLength_append (first rest : List Char) :
    byteLength (first ++ rest) = byteLength first + byteLength rest := by
  induction first with
  | nil => exact (Nat.zero_add _).symm
  | cons c first ih =>
    rw [List.cons_append, byteLength, byteLength, ih, Nat.add_assoc]

/-- Every character takes a byte at least. -/
theorem byteLength_pos (h : word ≠ []) : 0 < byteLength word := by
  obtain ⟨c, rest, rfl⟩ := List.exists_cons_of_ne_nil h
  exact Nat.add_pos_left c.utf8Size_pos _

theorem intercalate_concat {pieces : List (List Char)} (h : pieces ≠ []) (piece : List Char) :
    List.intercalate [' '] (pieces ++ [piece]) =
      List.intercalate [' '] pieces ++ [' '] ++ piece := by
  obtain ⟨first, rest, rfl⟩ := List.exists_cons_of_ne_nil h
  rw [List.cons_append, intercalate_blank_cons, intercalate_blank_cons, List.flatMap_append,
    List.flatMap_singleton, List.append_assoc, List.append_assoc]
  rfl

/-- One piece more on a line comes behind a blank. -/
theorem showLine_concat {pieces : List (List Char)} (h : pieces ≠ []) (first : Bool)
    (piece : List Char) :
    showLine first (pieces ++ [piece]) = showLine first pieces ++ [' '] ++ piece := by
  simp only [showLine, intercalate_concat h, List.append_assoc]

/-- One line more comes indented, unless it is the first. -/
theorem showLines_concat (page : List (List (List Char))) (pieces : List (List Char)) :
    showLines (page ++ [pieces]) = showLines page ++ [showLine page.isEmpty pieces] := by
  cases page <;> simp [showLines]

theorem isEmpty_showLines (page : List (List (List Char))) :
    (showLines page).isEmpty = page.isEmpty := by
  cases page <;> rfl

/-- A line with a piece on it is not empty. -/
theorem showLine_ne_nil {pieces : List (List Char)} (h : pieces ≠ [])
    (hwords : ∀ piece ∈ pieces, IsWord piece) (first : Bool) : showLine first pieces ≠ [] := by
  obtain ⟨piece, rest, rfl⟩ := List.exists_cons_of_ne_nil h
  rw [showLine, intercalate_blank_cons]
  have hpiece := (hwords piece List.mem_cons_self).ne_nil
  simp [hpiece]

namespace Fill

variable {f f' : Fill} {page : List (List (List Char))} {pieces : List (List Char)}

/-- The finished lines show `page`, and the line that is being filled shows `pieces`. -/
structure Holds (f : Fill) (page : List (List (List Char))) (pieces : List (List Char)) :
    Prop where
  lines_eq : f.lines.reverse = showLines page
  current_eq : f.current = if pieces = [] then [] else showLine page.isEmpty pieces
  isWord : ∀ piece ∈ page.flatten ++ pieces, IsWord piece
  current_le : byteLength f.current ≤ lineWidth
  lines_le : ∀ line ∈ f.lines, byteLength line ≤ lineWidth

/-- At the start nothing is shown. -/
theorem Holds.fresh : ({} : Fill).Holds [] [] where
  lines_eq := rfl
  current_eq := rfl
  isWord := by simp
  current_le := Nat.zero_le _
  lines_le := by simp

theorem Holds.isEmpty_lines (h : f.Holds page pieces) : f.lines.isEmpty = page.isEmpty := by
  rw [← isEmpty_showLines, ← h.lines_eq, List.isEmpty_reverse]

/-- The line is empty exactly if it shows no piece. -/
theorem Holds.current_eq_nil (h : f.Holds page pieces) : f.current = [] ↔ pieces = [] := by
  rw [h.current_eq]
  by_cases hpieces : pieces = []
  · simp [hpieces]
  · have hwords : ∀ piece ∈ pieces, IsWord piece := fun piece hpiece =>
      h.isWord piece (List.mem_append_right _ hpiece)
    simp [hpieces, showLine_ne_nil hpieces hwords]

/-- White space alone is never written. -/
theorem Holds.pieces_eq_nil_of_blank (h : f.Holds page pieces)
    (hblank : f.current.all isBlank = true) : pieces = [] := by
  cases pieces with
  | nil => rfl
  | cons piece rest =>
    have hpiece := h.isWord piece (by simp)
    obtain ⟨c, more, rfl⟩ := List.exists_cons_of_ne_nil hpiece.ne_nil
    have hc := hpiece.visible c List.mem_cons_self
    rw [h.current_eq, if_neg (by simp), showLine, intercalate_blank_cons] at hblank
    simp [hc] at hblank

/-- What is put where the line has room for it leaves the line within its width. -/
theorem byteLength_placed (f : Fill) (hne : word ≠ []) (hfits : byteLength word ≤ f.room) :
    byteLength (f.current ++ f.separator ++ word) ≤ lineWidth := by
  have hpos := byteLength_pos hne
  have hblank : ' '.utf8Size = 1 := rfl
  rw [byteLength_append, byteLength_append]
  unfold room lineWidth at hfits
  -- What separates the word is as long as `room` has counted for it: nothing, an indent or a blank.
  unfold separator lineWidth
  cases hcurrent : f.current.isEmpty with
  | true =>
    rw [List.isEmpty_iff] at hcurrent
    cases hlines : f.lines.isEmpty <;> simp [hcurrent, hlines, byteLength] at hfits ⊢ <;> omega
  | false =>
    simp [hcurrent, byteLength] at hfits ⊢
    omega

/-- One more piece on the current line. -/
theorem Holds.placed (h : f.Holds page pieces) (hword : IsWord word)
    (hfits : byteLength word ≤ f.room) :
    ({ f with current := f.current ++ f.separator ++ word } : Fill).Holds page
      (pieces ++ [word]) where
  lines_eq := h.lines_eq
  current_eq := by
    rw [if_neg (by simp), separator]
    by_cases hpieces : pieces = []
    · subst hpieces
      have hcurrent : f.current = [] := h.current_eq_nil.2 rfl
      simp [hcurrent, h.isEmpty_lines, showLine]
    · have hcurrent : f.current.isEmpty = false := by simpa using mt h.current_eq_nil.1 hpieces
      rw [hcurrent, showLine_concat hpieces, h.current_eq, if_neg hpieces]
      rfl
  isWord := by
    rw [← List.append_assoc]
    exact List.forall_mem_append.2 ⟨h.isWord, List.forall_mem_singleton.2 hword⟩
  current_le := byteLength_placed f hword.ne_nil hfits
  lines_le := h.lines_le

/-- A line that shows pieces can be ended. -/
theorem Holds.endLine (h : f.Holds page pieces) (hpieces : pieces ≠ []) :
    f.endLine.Holds (page ++ [pieces]) [] where
  lines_eq := by
    show (f.current :: f.lines).reverse = _
    rw [List.reverse_cons, h.lines_eq, showLines_concat, h.current_eq, if_neg hpieces]
  current_eq := rfl
  isWord := by simpa using h.isWord
  current_le := Nat.zero_le _
  lines_le := List.forall_mem_cons.2 ⟨h.current_le, h.lines_le⟩

/-- **One word more.** It comes in the pieces that it is cut into, behind those that were there. -/
theorem place_holds (h : f.Holds page pieces) (hword : IsWord word)
    (hplace : f.place word = .ok f') :
    ∃ page' pieces' added, f'.Holds page' pieces' ∧ pieces' ≠ [] ∧ Cut [word] added ∧
      page'.flatten ++ pieces' = page.flatten ++ pieces ++ added := by
  -- Along the recursion of `place`: the word fits, is cut, or moves to the next line.
  fun_induction place f word generalizing page pieces with
  | case1 f word hfits =>
    cases hplace
    refine ⟨page, pieces ++ [word], [word], h.placed hword ((fits_iff _ _).1 hfits), by simp,
      .whole .nil, ?_⟩
    rw [List.append_assoc]
  | case2 f word hfits hblank hcut => cases hplace
  | case3 f word hfits hblank head tail hcut =>
    rename_i indent ih
    -- The line is empty, for it shows no piece; so the word is longer than any line.
    obtain rfl := h.pieces_eq_nil_of_blank hblank
    have hempty : f.current.isEmpty = true := List.isEmpty_iff.2 (h.current_eq_nil.2 rfl)
    have hroom := room_pos_of_current_eq_nil hempty
    have hlength := byteLength_of_cutBytes? hcut
    obtain rfl := append_of_cutBytes? hcut
    -- A room of one byte at least leaves something in the head, and the word did not fit, so
    -- something is left over.
    rw [fits_iff, byteLength_append] at hfits
    have hhead : IsWord head := by
      refine ⟨?_, (List.forall_mem_append.1 hword.visible).1⟩
      rintro rfl
      simp [byteLength] at hlength
      omega
    have htail : IsWord tail := by
      refine ⟨?_, (List.forall_mem_append.1 hword.visible).2⟩
      rintro rfl
      simp [byteLength] at hfits
      omega
    have hindent : f.current ++ indent ++ head = f.current ++ f.separator ++ head := by
      rw [separator, if_pos hempty]
      rfl
    have hended := (h.placed hhead (Nat.le_of_eq hlength)).endLine (by simp)
    rw [← hindent] at hended
    obtain ⟨page', pieces', added, hholds, hne, hadded, hflat⟩ := ih hended htail hplace
    refine ⟨page', pieces', head :: added, hholds, hne, .cut hhead.ne_nil ?_ hadded, ?_⟩
    · rw [byteLength_append]
      omega
    · rw [hflat]
      simp
  | case4 f word hfits hblank ih =>
    have hne : pieces ≠ [] := by
      rintro rfl
      rw [h.current_eq_nil.2 rfl] at hblank
      exact hblank rfl
    obtain ⟨page', pieces', added, hholds, hne', hadded, hflat⟩ := ih (h.endLine hne) hword hplace
    refine ⟨page', pieces', added, hholds, hne', hadded, ?_⟩
    rw [hflat]
    simp

/-- **All words.** -/
theorem foldlM_place_holds (h : f.Holds page pieces) (hwords : ∀ word ∈ words, IsWord word)
    (hplaces : words.foldlM place f = .ok f') :
    ∃ page' pieces' added, f'.Holds page' pieces' ∧ (pieces ≠ [] ∨ words ≠ [] → pieces' ≠ []) ∧
      Cut words added ∧ page'.flatten ++ pieces' = page.flatten ++ pieces ++ added := by
  induction words generalizing f page pieces with
  | nil =>
    cases hplaces
    exact ⟨page, pieces, [], h, by simp, .nil, (List.append_nil _).symm⟩
  | cons word words ih =>
    rw [List.forall_mem_cons] at hwords
    obtain ⟨g, hplace, hrest⟩ := of_foldlM_place_cons hplaces
    obtain ⟨page₁, pieces₁, added₁, hholds₁, hne₁, hadded₁, hflat₁⟩ :=
      place_holds h hwords.1 hplace
    obtain ⟨page₂, pieces₂, added₂, hholds₂, hne₂, hadded₂, hflat₂⟩ := ih hholds₁ hwords.2 hrest
    refine ⟨page₂, pieces₂, added₁ ++ added₂, hholds₂, fun _ => hne₂ (Or.inl hne₁),
      hadded₁.append hadded₂, ?_⟩
    rw [hflat₂, hflat₁, List.append_assoc]

/-- All lines, the one that is being filled included. -/
theorem Holds.allLines_eq (h : f.Holds page pieces) (hpieces : pieces ≠ []) :
    f.allLines = showLines (page ++ [pieces]) := by
  rw [allLines, if_neg (by simpa using mt h.current_eq_nil.1 hpieces), List.reverse_cons,
    h.lines_eq, h.current_eq, if_neg hpieces, showLines_concat]

theorem Holds.allLines_le (h : f.Holds page pieces) :
    ∀ line ∈ f.allLines, byteLength line ≤ lineWidth := by
  intro line hline
  rw [allLines] at hline
  split at hline
  · exact h.lines_le line (List.mem_reverse.1 hline)
  · rcases List.mem_cons.1 (List.mem_reverse.1 hline) with rfl | hline
    · exact h.current_le
    · exact h.lines_le line hline

/-- Words with room for all of them, behind a line that has been started. -/
theorem foldlM_place_of_room {current : List Char} (hstart : 2 ≤ byteLength current)
    (hroom : byteLength (current ++ words.flatMap (' ' :: ·)) ≤ lineWidth) :
    words.foldlM place ⟨[], current⟩ = .ok ⟨[], current ++ words.flatMap (' ' :: ·)⟩ := by
  induction words generalizing current with
  | nil =>
    rw [List.flatMap_nil, List.append_nil]
    rfl
  | cons word words ih =>
    have hempty : current.isEmpty = false := by
      cases current with
      | nil => simp [byteLength] at hstart
      | cons => rfl
    -- The first word with its blank is part of the line for the rest.
    have hnext : current ++ (word :: words).flatMap (' ' :: ·) =
        (current ++ [' '] ++ word) ++ words.flatMap (' ' :: ·) := by simp
    rw [hnext] at hroom ⊢
    have hblank : ' '.utf8Size = 1 := rfl
    have hlength := hroom
    rw [byteLength_append, byteLength_append, byteLength_append] at hlength
    have hfits : fits (room ⟨[], current⟩) word = true := by
      rw [fits_iff, room]
      simp only [hempty, byteLength, lineWidth] at hlength ⊢
      simp
      omega
    have hplace : place ⟨[], current⟩ word = .ok ⟨[], current ++ [' '] ++ word⟩ := by
      rw [place_of_fits hfits, separator, hempty]
      rfl
    rw [List.foldlM_cons, hplace]
    refine ih ?_ hroom
    rw [byteLength_append, byteLength_append]
    omega

end Fill

/-! ## Wrapped lines -/

/-- A line shows blanks and pieces. -/
theorem mem_showLine {first : Bool} {pieces : List (List Char)} (hc : c ∈ showLine first pieces) :
    c = ' ' ∨ ∃ piece ∈ pieces, c ∈ piece := by
  rcases List.mem_append.1 hc with hindent | hshown
  · left
    cases first <;> simp at hindent
    exact hindent
  · cases pieces with
    | nil => cases hshown
    | cons piece rest =>
      rw [intercalate_blank_cons] at hshown
      simp only [List.mem_append, List.mem_flatMap, List.mem_cons] at hshown
      rcases hshown with hin | ⟨next, hnext, rfl | hin⟩
      · exact Or.inr ⟨piece, List.mem_cons_self, hin⟩
      · exact Or.inl rfl
      · exact Or.inr ⟨next, List.mem_cons_of_mem _ hnext, hin⟩

theorem of_mem_showLines {page : List (List (List Char))} (hline : line ∈ showLines page) :
    ∃ first, ∃ pieces ∈ page, line = showLine first pieces := by
  cases page with
  | nil => cases hline
  | cons pieces rest =>
    rcases List.mem_cons.1 hline with rfl | hline
    · exact ⟨true, pieces, List.mem_cons_self, rfl⟩
    · obtain ⟨pieces', hpieces', rfl⟩ := List.mem_map.1 hline
      exact ⟨false, pieces', List.mem_cons_of_mem _ hpieces', rfl⟩

/-- No line shows a line break. -/
theorem newline_not_mem_showLines {page : List (List (List Char))}
    (hwords : ∀ piece ∈ page.flatten, IsWord piece) : ∀ line ∈ showLines page, '\n' ∉ line := by
  intro line hline hnewline
  obtain ⟨first, pieces, hpieces, rfl⟩ := of_mem_showLines hline
  rcases mem_showLine hnewline with hblank | ⟨piece, hpiece, hin⟩
  · cases hblank
  · exact absurd ((hwords piece (List.mem_flatten.2 ⟨pieces, hpieces, hpiece⟩)).visible _ hin)
      (by decide)

/-- Lines after the first are indented. -/
theorem indented_showLines (page : List (List (List Char))) :
    ∀ line ∈ (showLines page).tail, [' ', ' '] <+: line := by
  cases page with
  | nil => exact fun line hline => nomatch hline
  | cons first rest =>
    intro line hline
    obtain ⟨pieces, -, rfl⟩ := List.mem_map.1 hline
    exact List.prefix_append _ _

/-- Of nothing comes nothing. -/
theorem wrap_nil : wrap [] = .ok [] := by
  have hplace : Fill.place {} [] = .ok {} := Fill.place_of_fits rfl
  refine wrap_of_foldlM (f := {}) ?_
  show ([[]] : List (List Char)).foldlM Fill.place {} = _
  rw [List.foldlM_cons, hplace]
  rfl

/-- Words without blanks are found again. -/
theorem wordsOf_intercalate (hne : words ≠ []) (hwords : ∀ word ∈ words, IsWord word) :
    wordsOf (List.intercalate [' '] words) = words := by
  rw [wordsOf_eq]
  refine List.splitOn_intercalate _ (fun word hword hin => ?_) hne
  exact absurd ((hwords word hword).visible _ hin) (by decide)

/-- The lines that words are filled into. -/
theorem allLines_layout {f : Fill} (hne : words ≠ []) (hwords : ∀ word ∈ words, IsWord word)
    (h : words.foldlM Fill.place {} = .ok f) :
    ∃ page, f.allLines ≠ [] ∧ f.allLines = showLines page ∧ Cut words page.flatten ∧
      (∀ line ∈ f.allLines, '\n' ∉ line) ∧ ∀ line ∈ f.allLines, byteLength line ≤ lineWidth := by
  obtain ⟨page, pieces, added, hholds, hpieces, hadded, hflat⟩ :=
    Fill.foldlM_place_holds .fresh hwords h
  have hshown : f.allLines = showLines (page ++ [pieces]) :=
    hholds.allLines_eq (hpieces (Or.inr hne))
  have hpage : (page ++ [pieces]).flatten = page.flatten ++ pieces := by simp
  -- The line that is being filled is the last of the page.
  refine ⟨page ++ [pieces], ?_, hshown, ?_, ?_, hholds.allLines_le⟩
  · rw [hshown, showLines_concat]
    exact List.append_ne_nil_of_right_ne_nil _ (List.cons_ne_nil _ _)
  · rw [hpage, hflat]
    exact hadded
  · rw [hshown]
    refine newline_not_mem_showLines ?_
    rw [hpage]
    exact hholds.isWord

/-- The lines of wrapped words. -/
theorem wrap_layout (hwords : ∀ word ∈ words, IsWord word)
    (h : wrap (List.intercalate [' '] words) = .ok out) :
    ∃ page, out.splitOn '\n' = showLines page ∧ Cut words page.flatten ∧
      ∀ line ∈ out.splitOn '\n', byteLength line ≤ lineWidth := by
  cases words with
  | nil =>
    obtain rfl : [] = out := by simpa [wrap_nil] using h
    exact ⟨[[]], rfl, .nil, by decide⟩
  | cons word rest =>
    obtain ⟨f, hplaces, rfl⟩ := of_wrap h
    rw [wordsOf_intercalate (List.cons_ne_nil _ _) hwords] at hplaces
    obtain ⟨page, hne, hshown, hcut, hnewline, hwidth⟩ :=
      allLines_layout (List.cons_ne_nil _ _) hwords hplaces
    rw [List.splitOn_intercalate _ hnewline hne]
    exact ⟨page, hshown, hcut, hwidth⟩

/-- A line within the width stays as it is. -/
theorem wrap_of_le (hwords : ∀ word ∈ words, IsWord word)
    (hfirst : ∀ word ∈ words.head?, 2 ≤ byteLength word)
    (hle : byteLength (List.intercalate [' '] words) ≤ lineWidth) :
    wrap (List.intercalate [' '] words) = .ok (List.intercalate [' '] words) := by
  cases words with
  | nil => exact wrap_nil
  | cons word rest =>
    have hword := (hwords word List.mem_cons_self).ne_nil
    have hwordsOf := wordsOf_intercalate (List.cons_ne_nil _ _) hwords
    rw [intercalate_blank_cons] at hle hwordsOf ⊢
    have hplace : Fill.place {} word = .ok ⟨[], word⟩ := by
      have hfits : fits (Fill.room {}) word = true := by
        rw [byteLength_append] at hle
        rw [fits_iff]
        simp only [Fill.room, byteLength, lineWidth] at hle ⊢
        simp
        omega
      exact Fill.place_of_fits hfits
    have hplaces := Fill.foldlM_place_of_room (hfirst word rfl) hle
    rw [wrap_of_foldlM (f := ⟨[], word ++ rest.flatMap (' ' :: ·)⟩)]
    · rw [Fill.allLines, if_neg (by simp [hword])]
      simp
    · rw [hwordsOf, List.foldlM_cons, hplace]
      exact hplaces

/-- **Line wrapping.** A line of single bytes is wrapped, and whatever is wrapped shows the line as
it was but for blanks and line breaks. If the line consists of words with one blank between any two,
then no line is too long, all but the first are indented, and they show the words in order, where
none that fits on an indented line is cut. Such a line stays as it is if it is short enough and
starts with a word of two bytes at least; behind one of a single byte, room is counted as behind
two. -/
theorem wrap_keeps_text_and_width (line : List Char) :
    ((∀ c ∈ line, c.toNat < 128) → ∃ out, wrap line = .ok out) ∧
      (∀ out, wrap line = .ok out → solid out = solid line) ∧
      ∀ words, line = List.intercalate [' '] words → (∀ word ∈ words, IsWord word) →
        (∀ out, wrap line = .ok out →
          (∀ shown ∈ out.splitOn '\n', byteLength shown ≤ 79) ∧
          (∀ shown ∈ (out.splitOn '\n').tail, [' ', ' '] <+: shown) ∧
          ∃ page, out.splitOn '\n' = showLines page ∧ Cut words page.flatten ∧
            ∀ word ∈ words, byteLength word ≤ 77 → ∃ pieces ∈ page, word ∈ pieces) ∧
        (byteLength line ≤ 79 → (∀ word ∈ words.head?, 2 ≤ byteLength word) →
          wrap line = .ok line) := by
  refine ⟨exists_wrap, fun out => wrap_solid, ?_⟩
  rintro words rfl hwords
  refine ⟨fun out h => ?_, fun hle hfirst => wrap_of_le hwords hfirst hle⟩
  obtain ⟨page, hpage, hcut, hwidth⟩ := wrap_layout hwords h
  refine ⟨hwidth, ?_, page, hpage, hcut, fun word hword hshort => ?_⟩
  · rw [hpage]
    exact indented_showLines page
  · exact List.mem_flatten.1 (hcut.mem_of_short hword hshort)

/-- A statement whose field is longer than a line, and one that is a line. -/
theorem wrap_keeps_text_and_width_of_scan :
    let words := ["SDR".toList, "320".toList, "TDI".toList,
      '(' :: List.replicate 80 '0' ++ [')', ';']]
    let short := ["SDR".toList, "8".toList, "TDI".toList, "(60);".toList]
    (∃ out, wrap (List.intercalate [' '] words) = .ok out ∧
        solid out = solid (List.intercalate [' '] words) ∧
        (∀ shown ∈ out.splitOn '\n', byteLength shown ≤ 79) ∧
        (∀ shown ∈ (out.splitOn '\n').tail, [' ', ' '] <+: shown) ∧
        ∃ page, out.splitOn '\n' = showLines page ∧ Cut words page.flatten ∧
          ∀ word ∈ words, byteLength word ≤ 77 → ∃ pieces ∈ page, word ∈ pieces) ∧
      wrap (List.intercalate [' '] short) = .ok (List.intercalate [' '] short) := by
  intro words short
  obtain ⟨hwraps, hkeeps, hlayout⟩ := wrap_keeps_text_and_width (List.intercalate [' '] words)
  have hascii : ((List.intercalate [' '] words).all fun c => c.toNat < 128) = true := by decide
  obtain ⟨out, hout⟩ := hwraps fun c hc => of_decide_eq_true (List.all_eq_true.mp hascii c hc)
  obtain ⟨-, -, hshort⟩ := wrap_keeps_text_and_width (List.intercalate [' '] short)
  exact ⟨⟨out, hout, hkeeps out hout, (hlayout words rfl (by decide)).1 out hout⟩,
    (hshort short rfl (by decide)).2 (by decide) (by decide)⟩

end NorDisk.Svf
