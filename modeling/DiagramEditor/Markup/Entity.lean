import DiagramEditor.Markup.Name

/-!
# References and entities

A text of markup with its references, and what a reference to an entity stands for.
-/

namespace DiagramEditor.Markup

/-!
## References

Between an ampersand and a semicolon, markup names a character by its number or by one of five
words, or it names an entity, which is a piece of text declared in front of the document. A text
with references is a list of pieces (`Piece.ofText?`).
-/

/-- A piece of text. -/
inductive Piece where
  /-- A character that stands for itself. -/
  | char (c : Char)
  /-- A character that is named by a reference. -/
  | reference (c : Char)
  /-- A reference to the entity of this name. -/
  | entity (name : Text)
deriving DecidableEq, Repr

namespace Piece

/-- The characters with a name of their own. -/
def namedChars : List (Text × Char) :=
  [("quot".toList, '"'), ("amp".toList, '&'), ("apos".toList, '\''), ("lt".toList, '<'),
    ("gt".toList, '>')]

/-- The value of a digit of the numeral system with this base. -/
def digitValue? (base : Nat) (c : Char) : Option Nat :=
  let value :=
    if c.isDigit then c.toNat - '0'.toNat
    else if 'a' ≤ c ∧ c ≤ 'f' then c.toNat - 'a'.toNat + 10
    else if 'A' ≤ c ∧ c ≤ 'F' then c.toNat - 'A'.toNat + 10
    else base
  if value < base then some value else none

/-- The first number that 32 bits cannot hold. -/
def numberBound : Nat :=
  0x1_0000_0000

/-- The number that the digits denote, if 32 bits can hold it. -/
def number? (base : Nat) (digits : Text) : Option Nat :=
  if digits.isEmpty then none
  else (digits.foldlM (fun n c => (digitValue? base c).map (base * n + ·)) 0).filter (· < numberBound)

/-- The character with this number. A number that belongs to no character stands for the replacement
character; a character that markup may not hold cannot be named either. -/
def charOfNumber? (n : Nat) : Option Char :=
  let c := if n.isValidChar then Char.ofNat n else Char.ofNat 0xFFFD
  if isMarkupChar c then some c else none

/-- What the text between an ampersand and a semicolon names. -/
def ofReference? : Text → Option Piece
  | '#' :: 'x' :: digits => ((number? 16 digits).bind charOfNumber?).map .reference
  | '#' :: digits => ((number? 10 digits).bind charOfNumber?).map .reference
  | name =>
    if isName name then some ((namedChars.lookup name).elim (.entity name) .reference) else none

/-- The pieces of a text. `pending` holds the reversed characters behind an ampersand that waits for
its semicolon. -/
def ofTextFrom? : (pending : Option Text) → Text → Option (List Piece)
  | none, [] => some []
  | some _, [] => none
  | none, '&' :: s => ofTextFrom? (some []) s
  | none, c :: s => (ofTextFrom? none s).map (.char c :: ·)
  | some body, ';' :: s => do return (← ofReference? body.reverse) :: (← ofTextFrom? none s)
  | some body, c :: s => ofTextFrom? (some (c :: body)) s

/-- The pieces of a text. -/
def ofText? (s : Text) : Option (List Piece) :=
  ofTextFrom? none s

end Piece

/-!
## Entities

An entity is a piece of text with a name, declared in front of a document and put in place of each
reference to it. Its text may refer to further entities. Two limits keep this finite: references nest
at most `maxRoom` deep, and one reference in the document leads to at most `maxReferences` more
(`spend?`).

The value of an attribute is the text between its quotes with its references resolved and with each
blank written as a space (`valueIn?`). A blank that is named by a character reference stays, unless
an entity brought it there; and no entity brings a named `<`.
-/

/-- A declared piece of text. -/
structure Entity where
  name : Text
  body : Text
  /-- The number of bytes of the document up to the end of the body. -/
  stop : Nat
deriving DecidableEq, Repr

namespace Entity

/-- How deep references to entities nest. -/
def maxRoom : Nat :=
  10

/-- How many references to entities one reference in the document leads to. -/
def maxReferences : Nat :=
  255

/-- How many references are left behind one more, at a place below which references may nest `room`
deep. A reference in the document itself starts a count of its own. -/
def spend? (room left : Nat) : Option Nat :=
  if room = maxRoom then some maxReferences
  else if left = 0 then none
  else some (left - 1)

/-- The first entity with this name. -/
def find? (entities : List Entity) (name : Text) : Option Entity :=
  List.find? (·.name = name) entities

/-! ## Values of attributes -/

/-- A blank as a space. -/
def spaceForBlank (c : Char) : Char :=
  if isBlank c then ' ' else c

/-- The value that the pieces make up, with the number of references left; `expand` gives the value
of an entity, and `nested` says that an entity brought the pieces. -/
def valueWith? (expand : Text → Nat → Option (Text × Nat)) (nested : Bool) :
    List Piece → Nat → Option (Text × Nat)
  | [], left => some ([], left)
  | .char c :: rest, left => do
    let (value, left) ← valueWith? expand nested rest left
    -- A carriage return with a line feed behind it is one blank.
    let joined := c == '\r' && rest.head? == some (.char '\n')
    return (if joined then value else spaceForBlank c :: value, left)
  | .reference c :: rest, left => do
    guard !(nested && c == '<')
    let (value, left) ← valueWith? expand nested rest left
    return ((if nested then spaceForBlank c else c) :: value, left)
  | .entity name :: rest, left => do
    let (front, left) ← expand name left
    let (value, left) ← valueWith? expand nested rest left
    return (front ++ value, left)

/-- The value that the pieces make up where references may nest `room` deep. -/
def valueIn? (entities : List Entity) : (room : Nat) → List Piece → Nat → Option (Text × Nat)
  | 0 => valueWith? (fun _ _ => none) true
  | room + 1 => valueWith? (fun name left => do
      let entity ← find? entities name
      valueIn? entities room (← Piece.ofText? entity.body) (← spend? (room + 1) left))
    (room + 1 < maxRoom)

end Entity

end DiagramEditor.Markup
