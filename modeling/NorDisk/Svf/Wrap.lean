import NorDisk.Trap

/-!
# Line wrapping

Words are filled into lines of at most 79 bytes; lines after the first are indented by two blanks.
A word that does not fit even on a line of its own is cut. Lengths count bytes of UTF-8, and a cut
inside a character traps.
-/

namespace NorDisk.Svf

def lineWidth : Nat := 79

/-- Characters that count as white space. -/
def isBlank (c : Char) : Bool :=
  let n := c.toNat
  (9 ≤ n && n ≤ 13) || n == 0x20 || n == 0x85 || n == 0xA0 || n == 0x1680 ||
    (0x2000 ≤ n && n ≤ 0x200A) || n == 0x2028 || n == 0x2029 || n == 0x202F || n == 0x205F ||
    n == 0x3000

def byteLength : List Char → Nat
  | [] => 0
  | c :: cs => c.utf8Size + byteLength cs

/-- Do characters take at most `room` bytes? -/
def fits : Nat → List Char → Bool
  | _, [] => true
  | room, c :: cs => c.utf8Size ≤ room && fits (room - c.utf8Size) cs

/-- Characters cut after `n` bytes; none if the cut is inside a character or past the end. -/
def cutBytes? : Nat → List Char → Option (List Char × List Char)
  | 0, cs => some ([], cs)
  | _ + 1, [] => none
  | n + 1, c :: cs =>
    if c.utf8Size ≤ n + 1 then
      (cutBytes? (n + 1 - c.utf8Size) cs).map fun (head, tail) => (c :: head, tail)
    else none

theorem fits_iff (room : Nat) (cs : List Char) : fits room cs = true ↔ byteLength cs ≤ room := by
  induction cs generalizing room with
  | nil => simp [fits, byteLength]
  | cons c cs ih =>
    simp only [fits, Bool.and_eq_true, decide_eq_true_eq, ih, byteLength]
    omega

theorem append_of_cutBytes? {n : Nat} {cs head tail : List Char}
    (h : cutBytes? n cs = some (head, tail)) : cs = head ++ tail := by
  fun_induction cutBytes? n cs generalizing head tail with
  | case1 cs => simp_all
  | case2 => simp at h
  | case3 n c cs _ ih =>
    obtain ⟨⟨head', tail'⟩, h', heq⟩ := Option.map_eq_some_iff.1 h
    simp only [Prod.mk.injEq] at heq
    obtain ⟨rfl, rfl⟩ := heq
    simp [← ih h']
  | case4 => simp at h

theorem byteLength_of_cutBytes? {n : Nat} {cs head tail : List Char}
    (h : cutBytes? n cs = some (head, tail)) : byteLength head = n := by
  fun_induction cutBytes? n cs generalizing head tail with
  | case1 cs => simp_all [byteLength]
  | case2 => simp at h
  | case3 n c cs hle ih =>
    obtain ⟨⟨head', tail'⟩, h', heq⟩ := Option.map_eq_some_iff.1 h
    simp only [Prod.mk.injEq] at heq
    obtain ⟨rfl, rfl⟩ := heq
    have := ih h'
    simp only [byteLength] at this ⊢
    omega
  | case4 => simp at h

/-- Text in the course of being filled into lines. -/
structure Fill where
  /-- Finished lines, the last one first. -/
  lines : List (List Char) := []
  /-- The line that is being filled. -/
  current : List Char := []

namespace Fill

/-- Bytes that the current line has left for one more word. -/
def room (f : Fill) : Nat :=
  let indent := if f.lines.isEmpty && f.current.isEmpty then 0 else 2
  let separator := if f.current.isEmpty then 0 else 1
  lineWidth - (max (byteLength f.current) indent + separator)

/-- What stands between the current line and its next word. -/
def separator (f : Fill) : List Char :=
  if f.current.isEmpty then (if f.lines.isEmpty then [] else [' ', ' ']) else [' ']

def endLine (f : Fill) : Fill := { lines := f.current :: f.lines }

theorem room_pos_of_current_eq_nil {f : Fill} (h : f.current.isEmpty) : 77 ≤ f.room := by
  simp only [List.isEmpty_iff] at h
  simp only [room, h, byteLength, lineWidth]
  split <;> simp

/-- Put one more word into the lines. A word without room moves to a new line; if the current line
is blank, so that a new one would not help, the word is cut. -/
def place (f : Fill) (word : List Char) : Except Trap Fill :=
  if fits f.room word then .ok { f with current := f.current ++ f.separator ++ word }
  else if f.current.all isBlank then
    match _cut : cutBytes? f.room word with
    | none => .error .splitCharacter
    | some (head, tail) =>
      let indent := if f.lines.isEmpty then [] else [' ', ' ']
      place ({ f with current := f.current ++ indent ++ head } : Fill).endLine tail
  else place f.endLine word
termination_by 2 * word.length + (if f.current.isEmpty then 0 else 1)
decreasing_by
  · -- The word was cut: at least one character went to the line that ended, or the line was not
    -- empty and the next one is.
    have happ := append_of_cutBytes? _cut
    have hlen := byteLength_of_cutBytes? _cut
    have hsum : word.length = head.length + tail.length := by rw [happ, List.length_append]
    simp only [endLine, List.isEmpty_nil, if_true]
    cases hc : f.current.isEmpty with
    | false => simp only [Bool.false_eq_true, if_false]; omega
    | true =>
      have hroom := room_pos_of_current_eq_nil hc
      have : head ≠ [] := by
        rintro rfl
        simp [byteLength] at hlen
        omega
      have := List.length_pos_iff.2 this
      simp only [if_true]
      omega
  · -- The word moved on whole: the line that ended was not blank, so it was not empty either.
    rename_i hblank
    have : f.current.isEmpty = false := by
      cases hc : f.current with
      | nil => simp [hc] at hblank
      | cons => rfl
    simp only [endLine, List.isEmpty_nil, if_true, this, Bool.false_eq_true, if_false]
    omega

def allLines (f : Fill) : List (List Char) :=
  if f.current.isEmpty then f.lines.reverse else (f.current :: f.lines).reverse

end Fill

/-- The lines that words are filled into. -/
def wrapWords (words : List (List Char)) : Except Trap (List (List Char)) :=
  (words.foldlM Fill.place {}).map Fill.allLines

def wordsOf (text : List Char) : List (List Char) := go [] text
where
  /-- The words of a text before which the characters `rev` were read, last first. -/
  go : List Char → List Char → List (List Char)
    | rev, [] => [rev.reverse]
    | rev, ' ' :: rest => rev.reverse :: go [] rest
    | rev, c :: rest => go (c :: rev) rest

/-- The words of a text filled into lines. -/
def wrap (text : List Char) : Except Trap (List Char) :=
  (wrapWords (wordsOf text)).map (List.intercalate ['\n'])

end NorDisk.Svf
