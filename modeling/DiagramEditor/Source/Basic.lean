import DiagramEditor.Text.Numeral

/-!
# The source of a diagram

The text of a diagram is kept as its lines (`Source`), and everything else about a diagram is read
off them anew after each change. A line feed ends a line and a carriage return in front of it is
dropped; whether the last line was ended is remembered, so that the text comes back as it was
(`ofText`, `toText`).

The edits are the ones on a list of lines: replace one, insert some, delete some. Line numbers
start at zero. An edit outside of the source is refused with the line number and the number of
lines.
-/

namespace DiagramEditor

/-- Why an operation on lines or blocks is refused. -/
inductive SourceError where
  /-- There is no line `index` among `len` lines. -/
  | lineOutOfRange (index len : Nat)
  /-- The line with this number, counted from one, closes a block that was never opened. -/
  | unexpectedBlockEnd (lineNo : Nat)
  /-- The block opened on this line, counted from one, is never closed. -/
  | unterminatedBlock (lineNo : Nat)
deriving DecidableEq, Repr

/-- The text shown to the user. -/
def SourceError.message : SourceError → Text
  | lineOutOfRange index len =>
    "line index ".toList ++ Text.ofNat index ++ " is out of range (source has ".toList ++
      Text.ofNat len ++ " lines)".toList
  | unexpectedBlockEnd lineNo =>
    "block terminator on line ".toList ++ Text.ofNat lineNo ++ " has no matching opener".toList
  | unterminatedBlock lineNo =>
    "block opened on line ".toList ++ Text.ofNat lineNo ++ " is never terminated".toList

/-- The lines of a diagram. -/
structure Source where
  lines : List Text := []
  /-- The last line was ended by a line feed. -/
  trailingNewline : Bool := false
deriving DecidableEq, Repr

namespace Source

/-! ## Text and lines -/

/-- The line without a carriage return at its end. -/
def dropReturn (line : Text) : Text :=
  (Text.stripEnd? ['\r'] line).getD line

/-- The lines of a text. -/
def ofText (text : Text) : Source :=
  let fields := Text.splitOn '\n' text
  if text.isEmpty then ⟨[], false⟩
  else if fields.getLast? = some [] then ⟨fields.dropLast.map dropReturn, true⟩
  else ⟨fields.map dropReturn, false⟩

/-- The source with exactly these lines. -/
def ofLines (lines : List Text) : Source :=
  ⟨lines, false⟩

/-- The text with these lines. -/
def toText (s : Source) : Text :=
  Text.join ['\n'] s.lines ++ if s.trailingNewline && !s.lines.isEmpty then ['\n'] else []

/-- The number of lines. -/
def length (s : Source) : Nat :=
  s.lines.length

/-- The line number `index`. -/
def line? (s : Source) (index : Nat) : Option Text :=
  s.lines[index]?

/-- The `count` lines from `index` on, as far as they are there. -/
def slice (index count : Nat) (s : Source) : List Text :=
  (s.lines.drop index).take count

/-- The lines with their numbers, the first `start` left out. -/
def numberedFrom (start : Nat) (s : Source) : List (Nat × Text) :=
  (s.lines.zipIdx.drop start).map fun (line, i) => (i, line)

/-! ## Edits -/

/-- The line `index` replaced. -/
def replaceLine (index : Nat) (text : Text) (s : Source) : Except SourceError Source :=
  if index < s.length then .ok { s with lines := s.lines.set index text }
  else .error (.lineOutOfRange index s.length)

/-- New lines, the first of which gets the number `index`. -/
def insertLines (index : Nat) (texts : List Text) (s : Source) : Except SourceError Source :=
  if index ≤ s.length then
    .ok { s with lines := s.lines.take index ++ texts ++ s.lines.drop index }
  else .error (.lineOutOfRange index s.length)

/-- A new last line. -/
def pushLine (text : Text) (s : Source) : Source :=
  { s with lines := s.lines ++ [text] }

/-- The source without the `count` lines from `index` on. -/
def deleteLines (index count : Nat) (s : Source) : Except SourceError Source :=
  let stop := min (index + count) (Text.indexBound - 1)
  if stop ≤ s.length then .ok { s with lines := s.lines.take index ++ s.lines.drop stop }
  else .error (.lineOutOfRange stop s.length)

/-- The source without the listed lines. The numbers are those before the deletion; a number that
is no line deletes nothing. -/
def deleteLineSet (indices : List Nat) (s : Source) : Source :=
  { s with lines := (s.lines.zipIdx.filter fun (_, i) => !indices.contains i).map Prod.fst }

/-- The number of the first line from `start` on that satisfies `p`. -/
def findFrom? (start : Nat) (p : Text → Bool) (s : Source) : Option Nat :=
  ((s.numberedFrom start).find? fun (_, line) => p line).map Prod.fst

/-- The number of the first line that satisfies `p`. -/
def find? (p : Text → Bool) (s : Source) : Option Nat :=
  s.findFrom? 0 p

end Source

end DiagramEditor
