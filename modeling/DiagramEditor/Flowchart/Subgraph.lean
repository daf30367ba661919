import DiagramEditor.Source.Block
import DiagramEditor.Flowchart.Token

/-!
# Subgraphs

A subgraph is a block of lines from a header `subgraph <id> [<label>]` to a line `end`. The header
may also name a label without brackets, or nothing but a quoted title, which then is id and label
at once.

Nesting is decided by two tests on the trimmed line (`blockRules`), and the header is read by a
recognizer of its own (`SubgraphHeader.ofLine?`).
-/

namespace DiagramEditor.Flowchart

/-- The word that opens a subgraph. -/
def subgraphWord : Text :=
  "subgraph".toList

/-- The trimmed line opens a subgraph. -/
def isSubgraphOpen (trimmed : Text) : Bool :=
  trimmed = subgraphWord || Text.startsWith (subgraphWord ++ [' ']) trimmed

/-- The word that closes a block. -/
def endWord : Text :=
  "end".toList

/-- The trimmed line closes a subgraph. -/
def isBlockEnd (trimmed : Text) : Bool :=
  trimmed = endWord || trimmed = endWord ++ [';']

/-- How blocks nest in a flowchart. -/
def blockRules : BlockRules :=
  ⟨isSubgraphOpen, isBlockEnd⟩

/-- The line that opens a subgraph. -/
structure SubgraphHeader where
  id : Text
  label : Option Text
  /-- Where the id starts in the line. -/
  idStart : Nat
  /-- How many characters name the subgraph: those of the id, or the whole quoted title. -/
  idLength : Nat
deriving DecidableEq, Repr

namespace SubgraphHeader

/-- The label that is written behind the id. -/
def labelOf (rest : Text) : Option Text :=
  let after := Text.trim rest
  match (Text.stripFront? ['['] after).bind (Text.stripEnd? [']']) with
  | some inner => some (Text.unquote inner)
  | none => if after.isEmpty then none else some (Text.unquote after)

/-- The header on the line. -/
def ofLine? (line : Text) : Option SubgraphHeader := do
  let rest ← Text.stripFront? subgraphWord (Text.trimStart line)
  guard (Text.startsWithSpace rest)
  let atId := Text.trimStart rest
  let start := line.length - atId.length
  let body := Text.trimEnd atId
  if body.head? = some '"' then
    let title := Text.unquote body
    return ⟨title, some title, start, body.length⟩
  let id := body.takeWhile Identifier.isIdentChar
  guard (!id.isEmpty)
  return ⟨id, labelOf (body.dropWhile Identifier.isIdentChar), start, id.length⟩

/-- The written form of a header. -/
def render (indent id : Text) (label : Option Text) : Text :=
  indent ++ subgraphWord ++ ' ' :: id ++
    match label with
    | some label => ' ' :: '[' :: Text.quote label ++ [']']
    | none => []

end SubgraphHeader

end DiagramEditor.Flowchart
