import DiagramEditor.Text.Basic

/-!
# Messages and notes

A message is written as `<from><arrow><to>: <text>`, where a plus or minus sign in front of the
receiver starts or ends an activation. Of several arrows in the part before the colon the first
counts, and of arrows that start at the same place the longest.

A note is written as `Note left of <names>: <text>`, with `right of` and `over` as the other
placements.
-/

namespace DiagramEditor.Sequence

/-- The arrows of messages. -/
inductive MessageArrow where
  | solid
  | dotted
  | solidArrow
  | dottedArrow
  | solidCross
  | dottedCross
  | solidOpen
  | dottedOpen
deriving DecidableEq, Repr

namespace MessageArrow

/-- All arrows, longer ones before those that they begin with. -/
def all : List MessageArrow :=
  [dottedArrow, solidArrow, dotted, dottedCross, dottedOpen, solid, solidCross, solidOpen]

/-- How the arrow is written. -/
def token : MessageArrow → Text
  | solid => "->".toList
  | dotted => "-->".toList
  | solidArrow => "->>".toList
  | dottedArrow => "-->>".toList
  | solidCross => "-x".toList
  | dottedCross => "--x".toList
  | solidOpen => "-)".toList
  | dottedOpen => "--)".toList

/-- The arrow that is written like this. -/
def ofToken? (token : Text) : Option MessageArrow :=
  all.find? (·.token = token)

/-- The name of the arrow. -/
def name : MessageArrow → Text
  | solid => "solid".toList
  | dotted => "dotted".toList
  | solidArrow => "solid_arrow".toList
  | dottedArrow => "dotted_arrow".toList
  | solidCross => "solid_cross".toList
  | dottedCross => "dotted_cross".toList
  | solidOpen => "solid_open".toList
  | dottedOpen => "dotted_open".toList

/-- The arrow with this name. -/
def ofName? (name : Text) : Option MessageArrow :=
  all.find? (·.name = name)

/-- The longest arrow at the front of the text, and what follows it. -/
def scan? (s : Text) : Option (MessageArrow × Text) :=
  all.findSome? fun a => (Text.stripFront? a.token s).map fun rest => (a, rest)

/-- The first arrow in the text, with what stands before and after it. -/
def cut? (s : Text) : Option (Text × MessageArrow × Text) :=
  match scan? s, s with
  | some (arrow, rest), _ => some ([], arrow, rest)
  | none, [] => none
  | none, c :: s => (cut? s).map fun (a, arrow, b) => (c :: a, arrow, b)

end MessageArrow

/-- What a message does to the activation of its receiver. -/
inductive Activation where
  | start
  | stop
deriving DecidableEq, Repr

namespace Activation

/-- How it is written. -/
def sign : Activation → Char
  | start => '+'
  | stop => '-'

/-- The sign at the front, if there is one, and what follows it. -/
def scan : Text → Option Activation × Text
  | '+' :: rest => (some start, rest)
  | '-' :: rest => (some stop, rest)
  | s => (none, s)

end Activation

/-- A message between two participants. -/
structure Message where
  sender : Text
  receiver : Text
  arrow : MessageArrow
  activation : Option Activation
  text : Text
deriving DecidableEq, Repr

namespace Message

/-- The word names a participant: it is not empty and holds no blank. -/
def isName (word : Text) : Bool :=
  !word.isEmpty && !word.any Unicode.isSpace

/-- The message on the line. -/
def ofLine? (line : Text) : Option Message := do
  let (left, text) ← Text.cutChar? ':' (Text.trim line)
  let (before, arrow, after) ← MessageArrow.cut? left
  let sender := Text.trim before
  let (activation, rest) := Activation.scan (Text.trim after)
  let receiver := Text.trimStart rest
  guard (isName sender && isName receiver)
  return ⟨sender, receiver, arrow, activation, Text.trim text⟩

/-- The written form. -/
def render (indent : Text) (m : Message) : Text :=
  indent ++ m.sender ++ m.arrow.token ++ (m.activation.map Activation.sign).toList ++ m.receiver ++
    ':' :: ' ' :: m.text

/-- The participant sends or receives the message. -/
def involves (name : Text) (m : Message) : Bool :=
  m.sender = name || m.receiver = name

end Message

/-! ## Notes -/

/-- Where a note stands. -/
inductive NotePlacement where
  | leftOf
  | rightOf
  | across
deriving DecidableEq, Repr

namespace NotePlacement

/-- All placements in the order in which they are tried. -/
def all : List NotePlacement :=
  [leftOf, rightOf, across]

/-- How the placement is written. -/
def text : NotePlacement → Text
  | leftOf => "left of".toList
  | rightOf => "right of".toList
  | across => "over".toList

/-- The name of the placement. -/
def name : NotePlacement → Text
  | leftOf => "left_of".toList
  | rightOf => "right_of".toList
  | across => "over".toList

/-- The placement with this name. -/
def ofName? (name : Text) : Option NotePlacement :=
  all.find? (·.name = name)

/-- The placement at the front of the text, and what follows it. -/
def scan? (s : Text) : Option (NotePlacement × Text) :=
  all.findSome? fun p => (Text.stripFront? p.text s).map fun rest => (p, rest)

end NotePlacement

/-- A note beside or over some participants. -/
structure Note where
  placement : NotePlacement
  participants : List Text
  text : Text
deriving DecidableEq, Repr

namespace Note

/-- What follows the keyword, in capitals or small letters. -/
def stripKeyword? (s : Text) : Option Text :=
  (Text.stripFront? "Note".toList s).or (Text.stripFront? "note".toList s)

/-- The note on the line. -/
def ofLine? (line : Text) : Option Note := do
  let rest ← stripKeyword? (Text.trim line)
  guard (Text.startsWithSpace rest)
  let (placement, rest) ← NotePlacement.scan? (Text.trimStart rest)
  let (targets, text) ← Text.cutChar? ':' rest
  let participants := ((Text.splitOn ',' targets).map Text.trim).filter fun t => !t.isEmpty
  guard !participants.isEmpty
  return ⟨placement, participants, Text.trim text⟩

/-- The written form. -/
def render (indent : Text) (n : Note) : Text :=
  indent ++ "Note ".toList ++ n.placement.text ++ ' ' :: Text.join [','] n.participants ++
    ':' :: ' ' :: n.text

end Note

end DiagramEditor.Sequence
