import DiagramEditor.Flowchart.Shape
import DiagramEditor.Identifier.Basic

/-!
# Node tokens

A node token is one mention of a node in a line: its id, then perhaps a definition in the classic
or the advanced form, then perhaps a class name behind three colons. The recognizer (`scan?`) reads
one token at the front of a text and returns what is left, and the token keeps the very characters
that it was read from.

A label between delimiters is read in one of two ways. If it starts with a double quote it goes to
the next double quote, and the closing delimiter has to follow. Otherwise it goes to the first
closing delimiter, and is refused if the last character of that delimiter occurs in it.
-/

namespace DiagramEditor.Flowchart

/-- The words that begin other lines than links and node lines. -/
def statementKeywords : List Text :=
  ["flowchart", "graph", "subgraph", "end", "direction", "style", "linkStyle", "class",
    "classDef", "click"].map String.toList

/-- The rest of a line after its statement: blank, or a semicolon. -/
def isStatementEnd (rest : Text) : Bool :=
  let rest := Text.trim rest
  rest.isEmpty || rest = [';']

/-- One mention of a node. -/
structure NodeToken where
  id : Text
  definition : Option NodeDefinition
  /-- The class name behind three colons. -/
  classSuffix : Option Text
  /-- The characters of the token. -/
  text : Text
deriving DecidableEq, Repr

namespace NodeToken

/-- The label in front of the closing delimiter, as it is written, and what follows the
delimiter. -/
def scanLabel? (closing : Text) (s : Text) : Option (Text × Text) :=
  match Text.trimStart s with
  | '"' :: inner => do
    let (_, afterQuote) ← Text.cutChar? '"' inner
    let atClose := Text.trimStart afterQuote
    let rest ← Text.stripFront? closing atClose
    return (Text.before s atClose, rest)
  | _ => do
    let (raw, rest) ← Text.cutText? closing s
    let last ← closing.getLast?
    guard (!raw.contains last)
    return (raw, rest)

/-- The first of the shapes that fits, with the label as it is written and what follows. -/
def scanShape? (s : Text) : Option (NodeShape × Text × Text) :=
  NodeShape.all.findSome? fun shape => do
    let inner ← Text.stripFront? shape.opening s
    let (raw, rest) ← scanLabel? shape.closing inner
    return (shape, raw, rest)

/-- What opens the entries of an advanced definition. -/
def entriesOpening : Text :=
  ['@', '{']

/-- The definition at the front, if there is one, and what follows. Entries that are opened and
never closed make the whole token unreadable. -/
def scanDefinition? (s : Text) : Option (Option NodeDefinition × Text) :=
  match Text.stripFront? entriesOpening s with
  | some inner => (Text.cutOutside? ['}'] inner).map fun (body, rest) =>
      (some (NodeDefinition.ofEntries body), rest)
  | none =>
    match scanShape? s with
    | some (shape, raw, rest) =>
      some (some ⟨.classic shape, some raw, some (Text.unquote raw)⟩, rest)
    | none => some (none, s)

/-- What stands between a token and its class name. -/
def classMark : Text :=
  [':', ':', ':']

/-- A character of a class name behind a token. -/
def isClassChar (c : Char) : Bool :=
  Identifier.isIdentChar c || c == '-'

/-- The class name at the front, if there is one, and what follows. -/
def scanClass (s : Text) : Option Text × Text :=
  match Text.stripFront? classMark s with
  | some rest =>
    let name := rest.takeWhile isClassChar
    if name.isEmpty then (none, s) else (some name, rest.dropWhile isClassChar)
  | none => (none, s)

/-- The token at the front of the text, and what follows it. -/
def scan? (s : Text) : Option (NodeToken × Text) := do
  let id := s.takeWhile Identifier.isIdentChar
  guard (!id.isEmpty)
  let (definition, afterDefinition) ← scanDefinition? (s.dropWhile Identifier.isIdentChar)
  let (classSuffix, rest) := scanClass afterDefinition
  return (⟨id, definition, classSuffix, Text.before s rest⟩, rest)

/-- A keyword without a definition, which begins a line of another kind. -/
def isKeyword (t : NodeToken) : Bool :=
  t.definition.isNone && statementKeywords.contains t.id

end NodeToken

/-- A line that holds nothing but one node token. -/
structure NodeLine where
  /-- The blanks in front of the token. -/
  lead : Text
  token : NodeToken
  /-- What stands behind the token: blanks and at most one semicolon. -/
  tail : Text
deriving DecidableEq, Repr

/-- The single node token of the line: a definition, or a bare mention. -/
def NodeLine.ofLine? (line : Text) : Option NodeLine := do
  let (token, tail) ← NodeToken.scan? (Text.trimStart line)
  guard (isStatementEnd tail)
  guard (!token.isKeyword)
  return ⟨Text.indent line, token, tail⟩

end DiagramEditor.Flowchart
