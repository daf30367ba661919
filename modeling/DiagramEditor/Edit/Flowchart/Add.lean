import DiagramEditor.Edit.Basic
import DiagramEditor.Flowchart.View

/-!
# Adding to a flowchart

New nodes, links and subgraphs are written at the end of the source. A new node or subgraph gets the
id that is asked for, which has to be an identifier that the flowchart does not use yet, or a fresh
one; and if the source does not declare a flowchart it does so afterwards.
-/

namespace DiagramEditor.Edit.Flowchart

open DiagramEditor.Flowchart

/-- The id names nothing in the flowchart yet and is an identifier. -/
def requireNewId (v : View) (id : Text) : Except EditError Unit := do
  requireIdentifier (Identifier.checkNode id) id
  if v.hasId id then throw (.alreadyExists id)

/-- The flowchart has a node or subgraph with this id. -/
def requireId (v : View) (id : Text) : Except EditError Unit :=
  if v.hasId id then .ok () else .error (.nodeNotFound id)

/-- The node with this id. -/
def requireNode (v : View) (id : Text) : Except EditError NodeRecord :=
  match v.node? id with
  | some node => .ok node
  | none => .error (.nodeNotFound id)

/-- The first subgraph with this id. -/
def requireSubgraph (v : View) (id : Text) : Except EditError SubgraphRecord :=
  match v.subgraph? id with
  | some g => .ok g
  | none => .error (.subgraphNotFound id)

/-- The link at this position. -/
def requireLink (v : View) (index : Nat) : Except EditError LinkRecord :=
  match v.link? index with
  | some l => .ok l
  | none => .error (.linkNotFound index)

/-- The source with a node `id` written at its end. -/
def writeNode (id : Text) (shape : NodeShape) (label : Text) (s : Source) :
    Except EditError Edited := do
  let (s, declaration) ← ensureDeclaration .flowchart (View.ofSource s).declarationLine s
  let indent := bodyIndent (some declaration) s
  return ⟨s.pushLine (indent ++ (NodeDefinition.classic shape label).render id), some (.node id)⟩

/-- A new node. -/
def addNode (id : Option Text) (shape : NodeShape) (label : Text) (s : Source)
    (ids : IdAllocator) : Except EditError Edited × IdAllocator :=
  let v := View.ofSource s
  match id with
  | some id => ((requireNewId v id).bind fun _ => writeNode id shape label s, ids)
  | none =>
    let (id, ids) := ids.freshNode v.ids
    (writeNode id shape label s, ids)

/-- A new link with the default arrow between two ids of the flowchart. -/
def addEdge (source target : Text) (text : Option Text) (s : Source) : Except EditError Edited := do
  let v := View.ofSource s
  requireId v source
  requireId v target
  let connector : Connector := ⟨.normal, text.bind nonBlank?⟩
  let indent := bodyIndent v.declarationLine s
  return ⟨s.pushLine (LinkLine.render indent source connector target),
    some (.edge source target (some v.links.length))⟩

/-- The source with an empty subgraph `id` written at its end. -/
def writeSubgraph (id label : Text) (s : Source) : Except EditError Edited := do
  let (s, declaration) ← ensureDeclaration .flowchart (View.ofSource s).declarationLine s
  let indent := bodyIndent (some declaration) s
  return ⟨(s.pushLine (SubgraphHeader.render indent id (some label))).pushLine (indent ++ endWord),
    some (.subgraph id)⟩

/-- A new subgraph with nothing inside. -/
def addSubgraph (id : Option Text) (label : Text) (s : Source) (ids : IdAllocator) :
    Except EditError Edited × IdAllocator :=
  let v := View.ofSource s
  match id with
  | some id => ((requireNewId v id).bind fun _ => writeSubgraph id label s, ids)
  | none =>
    let (id, ids) := ids.freshSubgraph v.ids
    (writeSubgraph id label s, ids)

end DiagramEditor.Edit.Flowchart
