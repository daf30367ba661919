import DiagramEditor.Unicode.Class

/-!
# Text

Diagram sources are read and written one character at a time, so a text is a list of characters:
a recognizer consumes a front part and returns what is left, and a law about it is an induction on
the list. This module holds the cutting and trimming that the recognizers share.

A cut (`cutChar?`, `cutText?`) returns what stands before the first match and what stands after
it, so the match and the two parts make up the text again (`cutChar?_eq_some`). Splitting
(`splitOn`) never returns an empty list: a text without the separator is its own single field.
-/

namespace DiagramEditor

/-- A text: its characters in order. -/
abbrev Text := List Char

namespace Text

export Unicode (isSpace)

/-! ## Trimming -/

/-- The text without the blanks in front. -/
def trimStart (s : Text) : Text :=
  s.dropWhile isSpace

/-- The text without the characters at its end that satisfy `p`. -/
def dropEndWhile (p : Char → Bool) (s : Text) : Text :=
  (s.reverse.dropWhile p).reverse

/-- The text without the blanks at its end. -/
def trimEnd (s : Text) : Text :=
  dropEndWhile isSpace s

/-- The text without the blanks at both ends. -/
def trim (s : Text) : Text :=
  trimEnd (trimStart s)

/-- The blanks in front of the text. -/
def indent (s : Text) : Text :=
  s.takeWhile isSpace

theorem indent_append_trimStart (s : Text) : indent s ++ trimStart s = s :=
  List.takeWhile_append_dropWhile

/-- The text begins with a blank. -/
def startsWithSpace : Text → Bool
  | [] => false
  | c :: _ => isSpace c

/-! ## Fronts and ends -/

/-- What is left of `s` behind `front`, if `s` begins with it. -/
def stripFront? : (front s : Text) → Option Text
  | [], s => some s
  | _ :: _, [] => none
  | c :: front, d :: s => if c = d then stripFront? front s else none

theorem stripFront?_eq_some {front s rest : Text} :
    stripFront? front s = some rest ↔ s = front ++ rest := by
  fun_induction stripFront? front s with
  | case1 s => simp [eq_comm]
  | case2 => simp
  | case3 front c s ih => simp [ih]
  | case4 c front d s h => simp [Ne.symm h]

/-- What is left of `s` in front of `tail`, if `s` ends with it. -/
def stripEnd? (tail s : Text) : Option Text :=
  (stripFront? tail.reverse s.reverse).map List.reverse

/-- What follows the keyword at the start of the line, trimmed. A blank has to separate the two, so
a longer word that begins like the keyword does not match. -/
def stripKeyword? (keyword line : Text) : Option Text := do
  let rest ← stripFront? keyword (trim line)
  guard (startsWithSpace rest)
  return trim rest

/-- The text `s` begins with `front`. -/
def startsWith (front s : Text) : Bool :=
  (stripFront? front s).isSome

/-- The text `s` ends with `tail`. -/
def endsWith (tail s : Text) : Bool :=
  (stripEnd? tail s).isSome

/-- The front of `s` before `rest`, where `rest` is what a recognizer left of `s`. -/
def before (s rest : Text) : Text :=
  s.take (s.length - rest.length)

theorem before_append {s rest : Text} (h : rest <:+ s) : before s rest ++ rest = s := by
  obtain ⟨front, rfl⟩ := h
  simp [before]

/-! ## Cutting -/

/-- The text before and the text after the first character that satisfies `p`. -/
def cutWhere? (p : Char → Bool) : Text → Option (Text × Text)
  | [] => none
  | c :: s => if p c then some ([], s) else (cutWhere? p s).map fun (a, b) => (c :: a, b)

/-- The text before and the text after the first `c`. -/
def cutChar? (c : Char) (s : Text) : Option (Text × Text) :=
  cutWhere? (· == c) s

/-- The text before and the text after the last `c`. -/
def cutLastChar? (c : Char) (s : Text) : Option (Text × Text) :=
  (cutChar? c s.reverse).map fun (a, b) => (b.reverse, a.reverse)

theorem cutWhere?_eq_some {p : Char → Bool} {s a b : Text} (h : cutWhere? p s = some (a, b)) :
    ∃ c, p c = true ∧ s = a ++ c :: b ∧ ∀ d ∈ a, p d = false := by
  induction s generalizing a with
  | nil => simp [cutWhere?] at h
  | cons c s ih =>
    rw [cutWhere?] at h
    split at h
    · next hc => simp at h; exact ⟨c, hc, by simp [h.1, h.2], by simp [h.1]⟩
    · next hc =>
      simp only [Option.map_eq_some_iff, Prod.exists, Prod.mk.injEq] at h
      obtain ⟨a', b', h', rfl, rfl⟩ := h
      obtain ⟨d, hd, rfl, hall⟩ := ih h'
      exact ⟨d, hd, rfl, by simp_all⟩

theorem cutChar?_eq_some {c : Char} {s a b : Text} (h : cutChar? c s = some (a, b)) :
    s = a ++ c :: b ∧ c ∉ a := by
  obtain ⟨d, hd, rfl, hall⟩ := cutWhere?_eq_some h
  simp only [beq_iff_eq] at hd
  subst hd
  exact ⟨rfl, fun hm => by simpa using hall _ hm⟩

theorem cutLastChar?_eq_some {c : Char} {s a b : Text} (h : cutLastChar? c s = some (a, b)) :
    s = a ++ c :: b ∧ c ∉ b := by
  simp only [cutLastChar?, Option.map_eq_some_iff, Prod.exists, Prod.mk.injEq] at h
  obtain ⟨b', a', h, rfl, rfl⟩ := h
  obtain ⟨hs, hc⟩ := cutChar?_eq_some h
  exact ⟨by simpa using congrArg List.reverse hs, by simpa using hc⟩

/-- The text before and the text after the first occurrence of `needle`. -/
def cutText? (needle : Text) (s : Text) : Option (Text × Text) :=
  match stripFront? needle s, s with
  | some rest, _ => some ([], rest)
  | none, [] => none
  | none, c :: s => (cutText? needle s).map fun (a, b) => (c :: a, b)

/-- The text has `needle` in it. -/
def hasText (needle s : Text) : Bool :=
  (cutText? needle s).isSome

/-- The fields with `c` put in front of the first one. -/
def consFirst (c : Char) : List Text → List Text
  | [] => [[c]]
  | field :: fields => (c :: field) :: fields

/-- The fields of the text between the characters that satisfy `p`. -/
def splitWhere (p : Char → Bool) : Text → List Text
  | [] => [[]]
  | c :: s => if p c then [] :: splitWhere p s else consFirst c (splitWhere p s)

/-- The fields of the text between the separators. -/
def splitOn (sep : Char) (s : Text) : List Text :=
  splitWhere (· == sep) s

theorem splitWhere_ne_nil (p : Char → Bool) (s : Text) : splitWhere p s ≠ [] := by
  cases s with
  | nil => simp [splitWhere]
  | cons c s =>
    rw [splitWhere]
    split
    · simp
    · cases splitWhere p s <;> simp [consFirst]

/-- The runs of characters between blanks. -/
def words (s : Text) : List Text :=
  (splitWhere isSpace s).filter fun w => !w.isEmpty

/-- The first run of characters between blanks; empty when the text is blank. -/
def firstWord (s : Text) : Text :=
  (words s).headD []

/-- The text up to the first blank, and the trimmed text behind it. -/
def headAndRest (s : Text) : Text × Text :=
  (s.takeWhile (!isSpace ·), trim (s.dropWhile (!isSpace ·)))

/-- Every occurrence of `old`, from left to right and without overlap, written as `new`. The count
is the length of what is left to read. -/
def replaceAllIn (old new : Text) : Nat → Text → Text
  | 0, s => s
  | n + 1, s =>
    match stripFront? old s, s with
    | some rest, _ => new ++ replaceAllIn old new n rest
    | none, [] => []
    | none, c :: s => c :: replaceAllIn old new n s

/-- Every occurrence of the non-empty text `old`, from left to right, written as `new`. -/
def replaceAll (old new s : Text) : Text :=
  replaceAllIn old new s.length s

/-- The parts with `sep` between them. -/
def join (sep : Text) (parts : List Text) : Text :=
  sep.intercalate parts

/-! ## Letters of ASCII -/

/-- ASCII capitals written small; every other character stays. -/
def toLowerAscii (s : Text) : Text :=
  s.map Char.toLower

end Text

end DiagramEditor
