import DiagramEditor.Flowchart.Token

/-!
# Links

A link line holds two node tokens and one connector between them. The connector is an arrow,
perhaps with a text: `-->|text|` behind the arrow, or `-- text -->` around it. A text goes with the
default arrow only, so a text behind another arrow turns it into the default one.

A recognized line (`LinkLine`) is kept in five pieces that make up the line again
(`LinkLine.toLine`), so an edit of one piece leaves the others as they are.
-/

namespace DiagramEditor.Flowchart

/-- The arrows of links. -/
inductive Arrow where
  /-- The default arrow, the only one that goes with a text. -/
  | normal
  | open
  | dotted
  | thick
  | bidirectional
  | circleEnd
  | circleBoth
  | crossEnd
  | crossBoth
deriving DecidableEq, Repr

namespace Arrow

/-- All arrows in the order in which they are tried. -/
def all : List Arrow :=
  [bidirectional, circleBoth, crossBoth, dotted, normal, .open, thick, circleEnd, crossEnd]

/-- How the arrow is written. -/
def token : Arrow → Text
  | normal => "-->".toList
  | .open => "---".toList
  | dotted => "-.->".toList
  | thick => "==>".toList
  | bidirectional => "<-->".toList
  | circleEnd => "--o".toList
  | circleBoth => "o--o".toList
  | crossEnd => "--x".toList
  | crossBoth => "x--x".toList

/-- The arrow that is written like this. -/
def ofToken? (token : Text) : Option Arrow :=
  all.find? (·.token = token)

/-- The name of the arrow. -/
def name : Arrow → Text
  | normal => "arrow".toList
  | .open => "open".toList
  | dotted => "dotted".toList
  | thick => "thick".toList
  | bidirectional => "bidirectional".toList
  | circleEnd => "circle_end".toList
  | circleBoth => "circle_both".toList
  | crossEnd => "cross_end".toList
  | crossBoth => "cross_both".toList

/-- The arrow with this name. -/
def ofName? (name : Text) : Option Arrow :=
  all.find? (·.name = name)

/-- The arrow at the front of the text, and what follows it. -/
def scan? (s : Text) : Option (Arrow × Text) :=
  all.findSome? fun a => (Text.stripFront? a.token s).map fun rest => (a, rest)

end Arrow

/-- An arrow with its text. -/
structure Connector where
  arrow : Arrow
  text : Option Text
deriving DecidableEq, Repr

namespace Connector

/-- What begins a connector around its text. -/
def dashes : Text :=
  ['-', '-']

/-- A text between dashes and the default arrow, and what follows the arrow. -/
def scanAround? (s : Text) : Option (Connector × Text) := do
  let after ← Text.stripFront? dashes s
  guard (Text.startsWithSpace after || after.head? = some '"')
  let (raw, rest) ← Text.cutOutside? Arrow.normal.token after
  guard !(Text.unquote raw).isEmpty
  return (⟨.normal, some (Text.unquote raw)⟩, rest)

/-- An arrow, perhaps with a text between bars behind it, and what follows. A bar that is opened
and never closed makes the connector unreadable. -/
def scanBehind? (s : Text) : Option (Connector × Text) := do
  let (kind, rest) ← Arrow.scan? s
  match Text.trimStart rest with
  | '|' :: piped => do
    let (raw, after) ← Text.cutChar? '|' piped
    return (⟨.normal, some (Text.unquote raw)⟩, after)
  | _ => return (⟨kind, none⟩, rest)

/-- The connector at the front of the text, and what follows it. -/
def scan? (s : Text) : Option (Connector × Text) :=
  (scanAround? s).or (scanBehind? s)

/-- The written form. A text is put between bars behind the default arrow, and quoted if it holds a
bar or a quote. -/
def render (c : Connector) : Text :=
  match c.text with
  | none => c.arrow.token
  | some text =>
    let written := if text.contains '|' || text.contains '"' then Text.quote text else text
    Arrow.normal.token ++ '|' :: written ++ ['|']

end Connector

/-- A line that holds two node tokens and a connector. -/
structure LinkLine where
  /-- The blanks in front of the source token. -/
  lead : Text
  source : NodeToken
  /-- The characters between the two tokens: the connector and the blanks around it. -/
  between : Text
  connector : Connector
  target : NodeToken
  /-- What stands behind the target token: blanks and at most one semicolon. -/
  tail : Text
deriving DecidableEq, Repr

namespace LinkLine

/-- The link on the line. -/
def ofLine? (line : Text) : Option LinkLine := do
  let (source, afterSource) ← NodeToken.scan? (Text.trimStart line)
  guard (!source.isKeyword)
  let (connector, afterConnector) ← Connector.scan? (Text.trimStart afterSource)
  let atTarget := Text.trimStart afterConnector
  let (target, tail) ← NodeToken.scan? atTarget
  guard (isStatementEnd tail)
  return ⟨Text.indent line, source, Text.before afterSource atTarget, connector, target, tail⟩

/-- The line made of the pieces. -/
def toLine (l : LinkLine) : Text :=
  l.lead ++ l.source.text ++ l.between ++ l.target.text ++ l.tail

/-- Where the source token starts. -/
def sourceStart (l : LinkLine) : Nat :=
  l.lead.length

/-- Where the characters between the tokens start. -/
def betweenStart (l : LinkLine) : Nat :=
  l.sourceStart + l.source.text.length

/-- Where the target token starts. -/
def targetStart (l : LinkLine) : Nat :=
  l.betweenStart + l.between.length

/-- The link starts or ends at `id`. -/
def touches (id : Text) (l : LinkLine) : Bool :=
  l.source.id = id || l.target.id = id

/-- The written form of a link between two tokens. -/
def render (indent source : Text) (connector : Connector) (target : Text) : Text :=
  indent ++ source ++ ' ' :: connector.render ++ ' ' :: target

end LinkLine

end DiagramEditor.Flowchart
