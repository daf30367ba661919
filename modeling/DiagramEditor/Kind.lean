import DiagramEditor.Source.Block

/-!
# Kinds of diagrams

A source declares its kind by the first word of its first line of content. Blank lines, comments
and directives (`%%`) and one block of front matter between two `---` lines may stand before it.
-/

namespace DiagramEditor

/-- The kinds of diagrams that can be edited. -/
inductive Kind where
  | flowchart
  | sequence
  | er
deriving DecidableEq, Repr

namespace Kind

/-- All kinds. -/
def all : List Kind :=
  [flowchart, sequence, er]

/-- The name of the kind. -/
def name : Kind → Text
  | flowchart => "flowchart".toList
  | sequence => "sequence".toList
  | er => "er".toList

/-- The kind with this name. -/
def ofName? (name : Text) : Option Kind :=
  all.find? (·.name = name)

/-- The words that declare a kind. -/
def keywords : List (Text × Kind) :=
  [("flowchart".toList, flowchart), ("flowchart-elk".toList, flowchart),
    ("graph".toList, flowchart), ("sequenceDiagram".toList, sequence), ("erDiagram".toList, er)]

/-- The kind that the word declares. -/
def ofKeyword? (word : Text) : Option Kind :=
  keywords.lookup word

/-- The line that declares the kind in a new source. -/
def declaration : Kind → Text
  | flowchart => "flowchart TD".toList
  | sequence => "sequenceDiagram".toList
  | er => "erDiagram".toList

/-- A small diagram to start from. -/
def template : Kind → Text
  | flowchart => "flowchart TD\n    A[\"Start\"] --> B[\"End\"]\n".toList
  | sequence =>
    ("sequenceDiagram\n    participant p1 as Alice\n    participant p2 as Bob\n" ++
      "    p1->>p2: Hello\n").toList
  | er =>
    ("erDiagram\n    CUSTOMER \x7b\n        string id PK\n    \x7d\n    ORDER \x7b\n" ++
      "        string id PK\n    \x7d\n    CUSTOMER ||--o\x7b ORDER : places\n").toList

end Kind

/-- The text shown to the user when a source declares no kind. -/
def unknownKindMessage : Text :=
  "expected 'flowchart', 'graph', 'sequenceDiagram' or 'erDiagram' declaration".toList

/-- A comment or directive, or nothing at all: such a line says nothing about the diagram. -/
def isSilent (trimmed : Text) : Bool :=
  trimmed.isEmpty || Text.startsWith "%%".toList trimmed

namespace Source

/-- The line that fences front matter. -/
def frontMatterFence : Text :=
  "---".toList

/-- The declaration among the lines from number `index` on: its line and its kind. `inside` says
whether the lines so far leave front matter open, and `fenced` whether there was any. -/
def declarationFrom? : (index : Nat) → (inside fenced : Bool) → List Text → Option (Nat × Kind)
  | _, _, _, [] => none
  | index, inside, fenced, line :: rest =>
    let trimmed := Text.trim line
    if trimmed = frontMatterFence && (!fenced || inside) then
      declarationFrom? (index + 1) (!inside) true rest
    else if inside || isSilent trimmed then declarationFrom? (index + 1) inside fenced rest
    else (Kind.ofKeyword? (Text.firstWord trimmed)).map fun kind => (index, kind)

/-- The line that declares the kind, with the kind. -/
def declaration? (s : Source) : Option (Nat × Kind) :=
  declarationFrom? 0 false false s.lines

/-- The kind that the source declares. -/
def kind? (s : Source) : Option Kind :=
  s.declaration?.map Prod.snd

/-- The line that declares this very kind. -/
def declarationOf? (kind : Kind) (s : Source) : Option Nat :=
  (s.declaration?.filter fun d => d.2 = kind).map Prod.fst

/-- The lines behind the declaration of this kind with their numbers; all lines if it is not
declared. -/
def body (kind : Kind) (s : Source) : List (Nat × Text) :=
  s.numberedFrom ((s.declarationOf? kind).elim 0 (· + 1))

end Source

end DiagramEditor
