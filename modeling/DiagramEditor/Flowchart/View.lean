import DiagramEditor.Flowchart.Directive
import DiagramEditor.Flowchart.Link
import DiagramEditor.Flowchart.Subgraph
import DiagramEditor.Kind

/-!
# The view of a flowchart

What a source says about its flowchart: the nodes with all their mentions, the links in document
order, the subgraphs and the directives. The view is read off the lines behind the declaration in
one pass (`View.ofSource`). Each line is first classified (`Statement.ofLine`), and each statement
then adds to the view in one step (`Reader.step`); a line that is no statement adds nothing.

A node exists as soon as a line mentions it. Of its definitions the richest counts, and the first
of these if there are several. It belongs to the innermost subgraph that is open where it is first
mentioned inside of one. An id that names a subgraph is no node.
-/

namespace DiagramEditor.Flowchart

/-! ## Statements -/

/-- What a line of a flowchart says. -/
inductive Statement where
  /-- A blank line or a comment. -/
  | silent
  | subgraphOpen (header : SubgraphHeader)
  | blockEnd
  | nodeStyle (d : NodeStyle)
  | linkStyle (d : LinkStyle)
  | classUse (d : ClassUse)
  | classDef (d : ClassDef)
  | link (l : LinkLine)
  | node (n : NodeLine)
  /-- A line that is carried through without being understood. -/
  | other
deriving DecidableEq, Repr

/-- What the line says. Of several readings the first in this order counts. -/
def Statement.ofLine (line : Text) : Statement :=
  let trimmed := Text.trim line
  if isSilent trimmed then .silent
  else match SubgraphHeader.ofLine? line with
    | some header => .subgraphOpen header
    | none =>
      if isBlockEnd trimmed then .blockEnd
      else match NodeStyle.ofLine? line with
        | some d => .nodeStyle d
        | none =>
          match LinkStyle.ofLine? line with
          | some d => .linkStyle d
          | none =>
            match ClassUse.ofLine? line with
            | some d => .classUse d
            | none =>
              match ClassDef.ofLine? line with
              | some d => .classDef d
              | none =>
                match LinkLine.ofLine? line with
                | some l => .link l
                | none =>
                  match NodeLine.ofLine? line with
                  | some n => .node n
                  | none => .other

/-! ## Records -/

/-- One place where a node is written. -/
structure Mention where
  line : Nat
  /-- Where the token starts in the line. -/
  start : Nat
  /-- How many characters the token takes. -/
  length : Nat
  /-- The line holds nothing but this token. -/
  standalone : Bool
  /-- The token has a definition. -/
  defines : Bool
deriving DecidableEq, Repr

/-- A node with everything that the source says about it. -/
structure NodeRecord where
  id : Text
  /-- The richest definition, the first one if there are several. -/
  definition : Option NodeDefinition := none
  /-- The line of that definition. -/
  definitionLine : Option Nat := none
  mentions : List Mention := []
  /-- The subgraph that the node belongs to. -/
  subgraph : Option Text := none
deriving DecidableEq, Repr

namespace NodeRecord

/-- The label, or the id of a node without one. -/
def label (n : NodeRecord) : Text :=
  (n.definition.bind (·.label)).getD n.id

/-- The line that holds the node alone: the first that defines it, or else the first at all. -/
def standaloneLine? (n : NodeRecord) : Option Nat :=
  ((n.mentions.find? fun m => m.standalone && m.defines).or
    (n.mentions.find? (·.standalone))).map (·.line)

/-- The line that carries the text of the node: the one of its definition, else one that holds it
alone, else its first mention. -/
def anchorLine? (n : NodeRecord) : Option Nat :=
  n.definitionLine.or (n.standaloneLine?.or (n.mentions.head?.map (·.line)))

/-- The node with one more mention, written as the token `t` inside `container`. -/
def addMention (m : Mention) (t : NodeToken) (container : Option Text) (n : NodeRecord) :
    NodeRecord :=
  -- Of equally rich definitions the first one stays.
  let richer := match t.definition, n.definition with
    | none, _ => false
    | some _, none => true
    | some new, some old => old.richness < new.richness
  { n with
    mentions := n.mentions ++ [m]
    definition := if richer then t.definition else n.definition
    definitionLine := if richer then some m.line else n.definitionLine
    subgraph := n.subgraph.or container }

end NodeRecord

/-- A link with its position. -/
structure LinkRecord where
  /-- The position among all links of the document. -/
  index : Nat
  line : Nat
  link : LinkLine
deriving DecidableEq, Repr

/-- A subgraph with its lines and members. -/
structure SubgraphRecord where
  id : Text
  label : Option Text
  span : BlockSpan
  /-- The id of the subgraph around it. -/
  parent : Option Text
  /-- The nodes mentioned directly inside. -/
  members : List Text
deriving DecidableEq, Repr

namespace SubgraphRecord

/-- The label, or the id of a subgraph without one. -/
def display (g : SubgraphRecord) : Text :=
  g.label.getD g.id

/-- The subgraph with one more member. -/
def addMember (id : Text) (g : SubgraphRecord) : SubgraphRecord :=
  if g.members.contains id then g else { g with members := g.members ++ [id] }

end SubgraphRecord

/-! ## The view -/

/-- Everything that a source says about its flowchart. Directives come with their lines. -/
structure View where
  declarationLine : Option Nat := none
  nodes : List NodeRecord := []
  links : List LinkRecord := []
  subgraphs : List SubgraphRecord := []
  styles : List (Nat × NodeStyle) := []
  linkStyles : List (Nat × LinkStyle) := []
  classes : List (Nat × ClassUse) := []
  classDefs : List (Nat × ClassDef) := []
deriving DecidableEq, Repr

namespace View

/-- The node with this id. -/
def node? (v : View) (id : Text) : Option NodeRecord :=
  v.nodes.find? (·.id = id)

/-- The link at this position. -/
def link? (v : View) (index : Nat) : Option LinkRecord :=
  v.links[index]?

/-- The first subgraph with this id. -/
def subgraph? (v : View) (id : Text) : Option SubgraphRecord :=
  v.subgraphs.find? (·.id = id)

/-- The ids of all nodes and subgraphs. -/
def ids (v : View) : List Text :=
  v.nodes.map (·.id) ++ v.subgraphs.map (·.id)

/-- A node or a subgraph has this id. -/
def hasId (v : View) (id : Text) : Bool :=
  v.ids.contains id

/-- The links that start or end at `id`. -/
def linksTouching (v : View) (id : Text) : List LinkRecord :=
  v.links.filter (·.link.touches id)

/-- The first style directive for `id`, with its line. -/
def styleFor? (v : View) (id : Text) : Option (Nat × NodeStyle) :=
  v.styles.find? (·.2.target = id)

/-- The subgraph ids from `start` outwards through the parents, at most `fuel` of them. -/
def chainIn (v : View) : (fuel : Nat) → (start : Option Text) → List Text
  | 0, _ => []
  | _, none => []
  | fuel + 1, some id => id :: v.chainIn fuel ((v.subgraph? id).bind (·.parent))

/-- The ids of the subgraphs around the node, the innermost first. The first record of a parent
stands before the first record of its child, so the chain is no longer than the list of
subgraphs. -/
def ancestors (v : View) (nodeId : Text) : List Text :=
  v.chainIn v.subgraphs.length ((v.node? nodeId).bind (·.subgraph))

/-- The innermost subgraph that has the line strictly inside. -/
def innermost? (v : View) (line : Nat) : Option SubgraphRecord :=
  ((v.subgraphs.filter fun g => g.span.start < line && line < g.span.stop).foldl
    (fun best g => match best with
      | some b => if g.span.start < b.span.start then some b else some g
      | none => some g) none)

/-- The node with this id changed by `f`; a new node if there is none. -/
def alterNode (id : Text) (f : NodeRecord → NodeRecord) : List NodeRecord → List NodeRecord
  | [] => [f { id }]
  | n :: rest => if n.id = id then f n :: rest else n :: alterNode id f rest

/-- The view with one more mention, inside the subgraph number `container` if there is one. -/
def addMention (m : Mention) (t : NodeToken) (container : Option Nat) (v : View) : View :=
  let containerId := container.bind fun i => (v.subgraphs[i]?).map (·.id)
  { v with
    subgraphs := match container with
      | some i => v.subgraphs.modify i (·.addMember t.id)
      | none => v.subgraphs
    nodes := alterNode t.id (·.addMention m t containerId) v.nodes }

/-- The view in which ids of subgraphs are no nodes and no members. -/
def dropSubgraphIds (v : View) : View :=
  let isSubgraph := fun id => (v.subgraphs.map (·.id)).contains id
  { v with
    nodes := v.nodes.filter fun n => !isSubgraph n.id
    subgraphs := v.subgraphs.map fun g =>
      { g with members := g.members.filter fun id => !isSubgraph id } }

end View

/-! ## Reading -/

/-- The view of the lines read so far, with the subgraphs that are still open. -/
structure Reader where
  view : View
  /-- The open subgraphs by their number, the innermost first. -/
  openBlocks : List Nat := []

namespace Reader

/-- The view with the last line of one subgraph moved. -/
def closeAt (i line : Nat) (v : View) : View :=
  { v with subgraphs := v.subgraphs.modify i fun g => { g with span := ⟨g.span.start, line⟩ } }

/-- One more statement, read on the line with this number. -/
def step (r : Reader) (line : Nat) : Statement → Reader
  | .silent => r
  | .subgraphOpen header =>
    let parent := r.openBlocks.head?.bind fun i => (r.view.subgraphs[i]?).map (·.id)
    let record : SubgraphRecord :=
      { id := header.id, label := header.label, span := .single line, parent, members := [] }
    { view := { r.view with subgraphs := r.view.subgraphs ++ [record] }
      openBlocks := r.view.subgraphs.length :: r.openBlocks }
  | .blockEnd =>
    match r.openBlocks with
    | [] => r
    | i :: outer => ⟨closeAt i line r.view, outer⟩
  | .nodeStyle d => { r with view := { r.view with styles := r.view.styles ++ [(line, d)] } }
  | .linkStyle d =>
    { r with view := { r.view with linkStyles := r.view.linkStyles ++ [(line, d)] } }
  | .classUse d => { r with view := { r.view with classes := r.view.classes ++ [(line, d)] } }
  | .classDef d =>
    { r with view := { r.view with classDefs := r.view.classDefs ++ [(line, d)] } }
  | .link l =>
    let mention := fun start (t : NodeToken) =>
      View.addMention ⟨line, start, t.text.length, false, t.definition.isSome⟩ t
        r.openBlocks.head?
    -- The source token stands in front, so its mention is read first.
    let view := mention l.targetStart l.target (mention l.sourceStart l.source r.view)
    { r with view := { view with links := view.links ++ [⟨view.links.length, line, l⟩] } }
  | .node n =>
    let mention : Mention :=
      ⟨line, n.lead.length, n.token.text.length, true, n.token.definition.isSome⟩
    { r with view := r.view.addMention mention n.token r.openBlocks.head? }
  | .other => r

/-- The view when the source of `length` lines ends: subgraphs that are still open reach to its
last line. -/
def finish (length : Nat) (r : Reader) : View :=
  (r.openBlocks.foldl (fun v i => closeAt i (length - 1) v) r.view).dropSubgraphIds

end Reader

/-- What the source says about its flowchart. -/
def View.ofSource (s : Source) : View :=
  let start : Reader := { view := { declarationLine := s.declarationOf? .flowchart } }
  ((s.body .flowchart).foldl (fun r (i, line) => r.step i (.ofLine line)) start).finish s.length

end DiagramEditor.Flowchart
