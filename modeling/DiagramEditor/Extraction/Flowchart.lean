import DiagramEditor.Extraction.Basic
import DiagramEditor.Flowchart.View
import DiagramEditor.Text.Numeral

/-!
# Objects of rendered flowcharts

The ids of rendered edges, and the nodes, edges and subgraphs in the markup of a flowchart.
-/

namespace DiagramEditor.Extraction

open Markup Flowchart

/-!
## Ids of rendered edges

An edge is drawn with the id `L_<source>_<target>` or, behind one more underscore, with a number that
counts the edges between the same two ends; an older form has dashes for the underscores. The ids of
the ends may hold the separator themselves, so the known ids of the source decide where the id is
cut: first where both parts are known, else where the first one is, else at the first separator.

A last part that is a numeral is the number of the edge, unless only the reading that keeps it in the
id of the target cuts the id into two known parts.
-/

/-- What the id of a rendered edge says. -/
structure EdgeId where
  source : Text
  target : Text
  /-- The number among the edges between the same ends. -/
  ordinal : Nat
deriving DecidableEq, Repr

namespace EdgeId

/-- The separator and the rest of the id behind its first letter. -/
def body? : Text → Option (Char × Text)
  | 'L' :: '_' :: body => some ('_', body)
  | 'L' :: '-' :: body => some ('-', body)
  | _ => none

/-- The parts up to number `k`, and those from there on, as ids. -/
def cut (sep : Char) (parts : List Text) (k : Nat) : Text × Text :=
  (Text.join [sep] (parts.take k), Text.join [sep] (parts.drop k))

/-- The first place inside of the list where `p` holds of the two ids. -/
def findCut? (sep : Char) (p : Text × Text → Bool) (parts : List Text) : Option Nat :=
  ((List.range parts.length).drop 1).find? fun k => p (cut sep parts k)

/-- The first place that cuts the parts into two known ids. -/
def knownCut? (sep : Char) (known : List Text) (parts : List Text) : Option Nat :=
  findCut? sep (fun ends => known.contains ends.1 && known.contains ends.2) parts

/-- The parts that make up the two ids, and the number of the edge. -/
def splitOrdinal (sep : Char) (known parts : List Text) : List Text × Nat :=
  match parts.getLast?.bind Text.readIndex? with
  | none => (parts, 0)
  | some ordinal =>
    let head := parts.dropLast
    -- With two parts the numeral is the id of the target.
    if parts.length < 3 then (parts, 0)
    else if (knownCut? sep known head).isNone && (knownCut? sep known parts).isSome then (parts, 0)
    else (head, ordinal)

/-- What the id of a rendered edge says, where these ids are known. -/
def ofText? (known : List Text) (id : Text) : Option EdgeId := do
  let (sep, body) ← body? id
  let parts := Text.splitOn sep body
  guard (2 ≤ parts.length)
  let (parts, ordinal) := splitOrdinal sep known parts
  let place := (knownCut? sep known parts).or
    (findCut? sep (fun ends => known.contains ends.1) parts)
  let (source, target) := cut sep parts (place.getD 1)
  return ⟨source, target, ordinal⟩

/-- The two edges have the same ends. -/
def sameEnds (e f : EdgeId) : Bool :=
  e.source = f.source && e.target = f.target

/-- The position of an edge among those with the same ends, by their numbers. Numbers may be left
out, so the number itself is no position. -/
def rank (all : List EdgeId) (e : EdgeId) : Nat :=
  all.countP fun f => f.sameEnds e && f.ordinal < e.ordinal

end EdgeId

/-!
## Objects in rendered flowcharts

Every object of a flowchart is drawn with an id. Its class, or for edges the id, says what the object
is (`Role.ofElement`), and the id holds the one of the source: the renderer puts `flowchart-` in
front of the id of a node and a counter behind it, and may put something in front of the id of a
subgraph. An id that is drawn twice counts once.

An edge is paired with the link of the source that has the same ends and the same position among
those.
-/

/-- What an element of a flowchart stands for. -/
inductive Role where
  | subgraph
  | node
  | edge
  | other
deriving DecidableEq, Repr

/-- What the element with this id stands for. Of several answers the first in this order counts. -/
def Role.ofElement (id : Text) (e : Element) : Role :=
  if e.tag.hasClass "cluster" then .subgraph
  else if e.tag.hasClass "node" then .node
  else if (EdgeId.body? id).isSome || e.tag.hasClass "flowchart-link" then .edge
  else .other

/-- The id of the node in the source. Without what the renderer puts in front it may be a known id;
otherwise it loses its counter too. -/
def nodeCoreId (v : Flowchart.View) (id : Text) : Text :=
  let body := (Text.cutText? "flowchart-".toList id).elim id Prod.snd
  if (v.node? body).isSome then body
  else match Text.cutLastChar? '-' body with
    | some (head, counter) => if !head.isEmpty && counter.all Char.isDigit then head else body
    | none => body

/-- The drawn id belongs to the subgraph with this id. -/
def isDrawnSubgraph (drawn id : Text) : Bool :=
  drawn = id || ((Text.stripEnd? id drawn).bind List.getLast?).any fun c => c == '-' || c == '_'

/-- The id of the subgraph in the source, or the drawn id if there is none. -/
def subgraphCoreId (v : Flowchart.View) (id : Text) : Text :=
  ((v.subgraphs.find? fun g => isDrawnSubgraph id g.id).map (·.id)).getD id

/-- The node object of an element. -/
def nodeObject (v : Flowchart.View) (id : Text) (e : Element) : NodeObject :=
  let coreId := nodeCoreId v id
  let record := v.node? coreId
  { id, coreId
    label := record.elim (if e.text.isEmpty then coreId else e.text) (·.label)
    shape := (record.bind (·.definition)).bind (·.shapeName)
    style := (v.styleFor? coreId).elim [] fun d => Properties.lastValues d.2.properties }

/-- The subgraph object of an element. -/
def subgraphObject (v : Flowchart.View) (id : Text) (e : Element) : SubgraphObject :=
  let coreId := subgraphCoreId v id
  let record := v.subgraph? coreId
  { id, coreId
    label := record.elim e.text (·.display)
    startLine := record.map (·.span.start)
    endLine := record.map (·.span.stop)
    members := record.elim [] (·.members) }

/-- The edge object of an element, where `all` are the drawn edges. -/
def edgeObject (v : Flowchart.View) (label : Text → Text) (all : List EdgeId) (id : Text)
    (e : EdgeId) : EdgeObject :=
  let links := v.links.filter fun l => l.link.source.id = e.source && l.link.target.id = e.target
  let link := links[EdgeId.rank all e]?
  { id
    sourceCoreId := e.source
    targetCoreId := e.target
    sourceLabel := label e.source
    targetLabel := label e.target
    arrow := link.map (·.link.connector.arrow)
    text := link.bind (·.link.connector.text)
    linkIndex := link.map (·.index) }

/-- The objects of a rendered flowchart. -/
def flowchart (tree : Tree) (source : Source) : Objects :=
  let v := View.ofSource source
  let drawn := firstOfEach Prod.fst tree.identified
  let withRole := fun role => drawn.filter fun p => Role.ofElement p.1 p.2 = role
  let objects : Objects :=
    { nodes := (withRole .node).map fun p => nodeObject v p.1 p.2
      subgraphs := (withRole .subgraph).map fun p => subgraphObject v p.1 p.2 }
  -- The ends of edges are labelled with the nodes of the same rendering.
  let edges := (withRole .edge).map fun p => (p.1, EdgeId.ofText? v.ids p.1)
  let all := edges.filterMap Prod.snd
  { objects with
    edges := edges.filterMap fun p => p.2.map (edgeObject v objects.nodeLabel all p.1)
    others := (withRole .other).map (fun p => otherObject p.1 p.2) ++
      (edges.filter (·.2.isNone)).map fun p => ⟨p.1, none⟩ }

end DiagramEditor.Extraction
