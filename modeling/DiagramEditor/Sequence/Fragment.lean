import DiagramEditor.Source.Block
import DiagramEditor.Text.Quoted

/-!
# Fragments and boxes

Two kinds of blocks nest in a sequence diagram. A fragment (`loop`, `alt`, …) groups messages and
may have several sections, each begun by a separator line. A box groups participants and has a
color and a label, both optional. Either kind ends with a line `end`.
-/

namespace DiagramEditor.Sequence

/-- The kinds of fragments. -/
inductive FragmentKind where
  | loop
  | alt
  | opt
  | par
  | critical
  | break
  | rect
deriving DecidableEq, Repr

namespace FragmentKind

/-- All kinds. -/
def all : List FragmentKind :=
  [loop, alt, opt, par, critical, .break, rect]

/-- The keyword that opens the fragment. -/
def keyword : FragmentKind → Text
  | loop => "loop".toList
  | alt => "alt".toList
  | opt => "opt".toList
  | par => "par".toList
  | critical => "critical".toList
  | .break => "break".toList
  | rect => "rect".toList

/-- The kind with this keyword. -/
def ofKeyword? (word : Text) : Option FragmentKind :=
  all.find? (·.keyword = word)

/-- The keyword that begins another section, for the kinds that have several. -/
def separator? : FragmentKind → Option Text
  | alt => some "else".toList
  | par => some "and".toList
  | critical => some "option".toList
  | _ => none

end FragmentKind

/-- What follows the first word of the trimmed line, trimmed. -/
def labelBehind (trimmed : Text) : Text :=
  Text.trim (trimmed.drop (Text.firstWord trimmed).length)

/-- The line that opens a fragment. -/
structure FragmentHeader where
  kind : FragmentKind
  label : Text
deriving DecidableEq, Repr

/-- The fragment that the line opens. -/
def FragmentHeader.ofLine? (line : Text) : Option FragmentHeader :=
  let trimmed := Text.trim line
  (FragmentKind.ofKeyword? (Text.firstWord trimmed)).map fun kind => ⟨kind, labelBehind trimmed⟩

/-- The words that begin another section of a fragment. -/
def separatorWords : List Text :=
  ["else".toList, "and".toList, "option".toList]

/-- The separator on the line: its keyword and its label. -/
def separatorOfLine? (line : Text) : Option (Text × Text) :=
  let trimmed := Text.trim line
  let word := Text.firstWord trimmed
  if separatorWords.contains word then some (word, labelBehind trimmed) else none

/-- The line that opens a box. -/
structure BoxHeader where
  color : Option Text
  label : Option Text
deriving DecidableEq, Repr

namespace BoxHeader

/-- The keyword that opens a box. -/
def keyword : Text :=
  "box".toList

/-- The colors that are known by name. -/
def namedColors : List Text :=
  ["transparent", "aqua", "black", "blue", "gray", "green", "grey", "lime", "navy", "olive",
    "orange", "purple", "red", "silver", "teal", "white", "yellow"].map String.toList

/-- The word is a color. -/
def isColor (word : Text) : Bool :=
  Text.startsWith ['#'] word || Text.startsWith "rgb(".toList word ||
    Text.startsWith "rgba(".toList word || Text.startsWith "hsl(".toList word ||
    namedColors.contains (Text.toLowerAscii word)

/-- The color and the rest of the trimmed text behind the keyword. A color in parentheses may hold
blanks. -/
def splitColor (rest : Text) : Option Text × Text :=
  if Text.startsWith "rgb".toList rest || Text.startsWith "hsl".toList rest then
    match Text.cutChar? ')' rest with
    | some (color, label) => (some (color ++ [')']), Text.trim label)
    | none => (none, rest)
  else
    let (head, tail) := Text.headAndRest rest
    if isColor head then (some head, tail) else (none, rest)

/-- The box that the line opens. -/
def ofLine? (line : Text) : Option BoxHeader := do
  let rest ← Text.stripFront? keyword (Text.trim line)
  guard (rest.isEmpty || Text.startsWithSpace rest)
  let (color, label) := splitColor (Text.trim rest)
  return ⟨color, if label.isEmpty then none else some (Text.unquote label)⟩

end BoxHeader

/-! ## Nesting -/

/-- The words that open a block. -/
def blockWords : List Text :=
  FragmentKind.all.map FragmentKind.keyword ++ [BoxHeader.keyword]

/-- The trimmed line opens a block. -/
def isBlockOpen (trimmed : Text) : Bool :=
  blockWords.contains (Text.firstWord trimmed)

/-- The trimmed line closes a block. -/
def isBlockEnd (trimmed : Text) : Bool :=
  trimmed = "end".toList

/-- How blocks nest in a sequence diagram. -/
def blockRules : BlockRules :=
  ⟨isBlockOpen, isBlockEnd⟩

/-- The trimmed line numbers the messages. -/
def isAutonumber (trimmed : Text) : Bool :=
  Text.firstWord trimmed = "autonumber".toList

end DiagramEditor.Sequence
