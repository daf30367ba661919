import DiagramEditor.Flowchart.Link
import DiagramEditor.Flowchart.Subgraph
import DiagramEditor.Text.Span

/-!
# References to ids

A line of a flowchart refers to nodes and subgraphs by their ids: a header to its subgraph, `style`,
`class` and `click` to the ids they name, a link to its two ends and a node line to its node. The
references of a line (`IdReference.ofLine`) are listed from left to right and do not overlap, and
`renameIds` writes other ids in their place. Labels and texts are never touched.
-/

namespace DiagramEditor.Flowchart

/-- An id together with the place where it is written. -/
structure IdReference where
  /-- Where the id starts in the line. -/
  start : Nat
  /-- How many characters it takes. -/
  length : Nat
  id : Text
deriving DecidableEq, Repr

namespace IdReference

/-- The stretch of the line that names the id. -/
def span (r : IdReference) : Span :=
  .ofLength r.start r.length

/-- The ids at position `start`, the first at the very front: one id, or a list with commas if
`many` is set. The count is the length of what is left to read. -/
def idList (many : Bool) : (fuel start : Nat) → Text → List IdReference
  | 0, _, _ => []
  | fuel + 1, start, s =>
    let id := s.takeWhile Identifier.isIdentChar
    if id.isEmpty then []
    else ⟨start, id.length, id⟩ ::
      match many, s.dropWhile Identifier.isIdentChar with
      | true, ',' :: rest => idList many fuel (start + id.length + 1) rest
      | _, _ => []

/-- The ids that follow the keyword at the start of the line. -/
def ofKeyword? (keyword : Text) (many : Bool) (line : Text) : Option (List IdReference) := do
  let rest ← Text.stripFront? keyword (Text.trimStart line)
  guard (Text.startsWithSpace rest)
  let atId := Text.trimStart rest
  return idList many (atId.length + 1) (line.length - atId.length) atId

/-- The reference to the subgraph that the header opens. -/
def ofHeader (h : SubgraphHeader) : IdReference :=
  ⟨h.idStart, h.idLength, h.id⟩

/-- The reference of a token that starts at `start`. -/
def ofToken (start : Nat) (t : NodeToken) : IdReference :=
  ⟨start, t.id.length, t.id⟩

/-- The references of the line from left to right. -/
def ofLine (line : Text) : List IdReference :=
  match SubgraphHeader.ofLine? line with
  | some header => [ofHeader header]
  | none =>
    match (ofKeyword? "style".toList false line).or ((ofKeyword? "class".toList true line).or
        (ofKeyword? "click".toList false line)) with
    | some references => references
    | none =>
      match LinkLine.ofLine? line with
      | some l => [ofToken l.sourceStart l.source, ofToken l.targetStart l.target]
      | none =>
        match NodeLine.ofLine? line with
        | some n => [ofToken n.lead.length n.token]
        | none => []

end IdReference

/-- The text, which stands at position `start` of its line, with each of the references in it
replaced by the id that `map` gives for it; an id without an image stays. -/
def renameFrom (map : List (Text × Text)) : (start : Nat) → (s : Text) → List IdReference → Text
  | _, s, [] => s
  | start, s, r :: rest =>
    let gap := r.start - start
    s.take gap ++ ((map.lookup r.id).getD ((s.drop gap).take r.length)) ++
      renameFrom map (r.start + r.length) (s.drop (gap + r.length)) rest

/-- The line with every referenced id replaced by its image under `map`. -/
def renameIds (map : List (Text × Text)) (line : Text) : Text :=
  renameFrom map 0 line (IdReference.ofLine line)

end DiagramEditor.Flowchart
