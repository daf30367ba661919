import DiagramEditor.EntityRelation.Attribute
import DiagramEditor.Identifier.Basic
import DiagramEditor.Source.Block
import DiagramEditor.Text.Span

/-!
# Entities

An entity is declared by a line with its name, perhaps followed by a title in brackets. The line
may end there, or open a block of attribute lines with a brace, or hold all attributes between
braces.
-/

namespace DiagramEditor.EntityRelation

/-- The trimmed line opens a block. -/
def isBlockOpen (trimmed : Text) : Bool :=
  Text.endsWith ['{'] trimmed && !Text.startsWith ['%', '%'] trimmed

/-- The trimmed line closes a block. -/
def isBlockClose (trimmed : Text) : Bool :=
  trimmed = ['}']

/-- How blocks nest in an entity diagram. -/
def blockRules : BlockRules :=
  ⟨isBlockOpen, isBlockClose⟩

/-- What follows the name of an entity. -/
inductive EntityForm where
  /-- Nothing. -/
  | bare
  /-- A brace that opens a block of lines. -/
  | blockOpen
  /-- All attributes between braces. -/
  | inline (attributes : List Attribute)
deriving DecidableEq, Repr

/-- The line that declares an entity. -/
structure EntityHeader where
  name : Text
  /-- Where the name starts in the line. -/
  nameStart : Nat
  title : Option Text
  form : EntityForm
deriving DecidableEq, Repr

namespace EntityHeader

/-- Where the name is written in the line. -/
def nameSpan (h : EntityHeader) : Span :=
  .ofLength h.nameStart h.name.length

/-- The title in brackets at the front, if there is one, and what follows it. -/
def scanTitle? (s : Text) : Option (Option Text × Text) :=
  match s with
  | '[' :: after => (Text.cutChar? ']' after).map fun (title, rest) =>
      (some (Text.unquote title), Text.trimStart rest)
  | _ => some (none, s)

/-- The form that the rest of the line has. -/
def form? (rest : Text) : Option EntityForm :=
  if rest.isEmpty then some .bare
  else if rest = ['{'] then some .blockOpen
  else do
    let body ← (Text.stripFront? ['{'] rest).bind (Text.stripEnd? ['}'])
    return .inline (← Attribute.ofWords? (Text.wordsOutside (Text.trim body)))

/-- The header on the line. -/
def ofLine? (line : Text) : Option EntityHeader := do
  let trimmed := Text.trim line
  let name := trimmed.takeWhile Identifier.isEntityChar
  guard (isWord name)
  let (title, rest) ← scanTitle? (Text.trimStart (trimmed.dropWhile Identifier.isEntityChar))
  return ⟨name, (Text.indent line).length, title, ← form? rest⟩

end EntityHeader

/-- The lines of a block with these attributes. -/
def renderBlock (indent name : Text) (attributes : List Attribute) : List Text :=
  [indent ++ name ++ [' ', '{']] ++
    attributes.map (fun a => indent ++ "    ".toList ++ a.render) ++ [indent ++ ['}']]

end DiagramEditor.EntityRelation
