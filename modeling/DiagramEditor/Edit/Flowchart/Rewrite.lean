import DiagramEditor.Edit.Flowchart.Add
import DiagramEditor.Edit.Flowchart.Duplicate

/-!
# Lines written anew

Edits that change what a line of a flowchart says about one object, and leave the rest of the line
and of the source as it is.
-/

namespace DiagramEditor.Edit.Flowchart

open DiagramEditor.Flowchart

/-!
## Labels and shapes

A node gets another label or shape in every mention that defines it, or in its first mention if none
does. Only the token changes; whatever else is on the line stays, and so does a class name behind
the token.
-/

/-- The mentions that are defined anew: those that define the node, or else the first one. The last
one in the source comes first, so a changed token moves no other one. -/
def redefinedMentions (n : NodeRecord) : List Mention :=
  let defining := n.mentions.filter (·.defines)
  let mentions := if defining.isEmpty then n.mentions.take 1 else defining
  mentions.mergeSort fun a b => b.line < a.line || (b.line = a.line && b.start ≤ a.start)

/-- The line with the token at `start` defined anew. -/
def redefineToken? (id : Text) (rebuild : Option NodeDefinition → NodeDefinition) (start : Nat)
    (line : Text) : Option Text :=
  (NodeToken.scan? (line.drop start)).map fun (token, rest) =>
    line.take start ++ withClass ((rebuild token.definition).render id) token.classSuffix ++ rest

/-- The source with one mention of the node defined anew. -/
def redefineMention (id : Text) (rebuild : Option NodeDefinition → NodeDefinition) (s : Source)
    (m : Mention) : Except EditError Source := do
  let line ← lineAt m.line s
  match redefineToken? id rebuild m.start line with
  | some text => replaceLine m.line text s
  | none => .error (.nodeNotFound id)

/-- The source with the node defined anew. -/
def redefine (id : Text) (rebuild : Option NodeDefinition → NodeDefinition) (s : Source) :
    Except EditError Edited := do
  let node ← requireNode (View.ofSource s) id
  let s ← (redefinedMentions node).foldlM (redefineMention id rebuild) s
  return ⟨s, some (.node id)⟩

/-- The flowchart with another label for a node. A mention without a definition becomes a
rectangle. -/
def editLabel (id label : Text) (s : Source) : Except EditError Edited :=
  redefine id (fun
    | some d => d.withLabel label
    | none => .classic .rect label) s

/-- The flowchart with another shape for a node. -/
def setNodeShape (id : Text) (shape : NodeShape) (s : Source) : Except EditError Edited := do
  let node ← requireNode (View.ofSource s) id
  redefine id (fun _ => .classic shape node.label) s

/-- The flowchart with another label for a subgraph. A subgraph whose id is its quoted title takes
the label as its id. -/
def editSubgraphLabel (id label : Text) (s : Source) : Except EditError Edited := do
  let g ← requireSubgraph (View.ofSource s) id
  let indent := Text.indent (← lineAt g.span.start s)
  let (text, newId) :=
    if (Identifier.checkNode id).isOk then (SubgraphHeader.render indent id (some label), id)
    else (indent ++ subgraphWord ++ ' ' :: Text.quote label, label)
  return ⟨← replaceLine g.span.start text s, some (.subgraph newId)⟩

/-!
## Arrows, texts and directions of links

A link changes on its line: its connector is written anew between the two tokens (`relink`), or the
two tokens change places (`swapEdge`).
-/

/-- The link line with another connector. Everything before the end of the source token and behind
the start of the target token stays. -/
def withConnector (c : Connector) (l : LinkLine) : Text :=
  l.lead ++ l.source.text ++ ' ' :: c.render ++ ' ' :: l.target.text ++ l.tail

/-- The link line with its tokens in each other's place. -/
def swapped (l : LinkLine) : Text :=
  l.lead ++ l.target.text ++ l.between ++ l.source.text ++ l.tail

/-- The source with another connector for a link. -/
def relink (r : LinkRecord) (c : Connector) (s : Source) : Except EditError Edited := do
  let s ← replaceLine r.line (withConnector c r.link) s
  return ⟨s, some (.edge r.link.source.id r.link.target.id (some r.index))⟩

/-- The flowchart with another arrow for a link. A link with a text keeps the default arrow. -/
def setEdgeArrow (index : Nat) (arrow : Arrow) (s : Source) : Except EditError Edited := do
  let r ← requireLink (View.ofSource s) index
  if r.link.connector.text.isSome && arrow ≠ .normal then throw (.arrowTextConflict index arrow)
  relink r ⟨arrow, r.link.connector.text⟩ s

/-- The flowchart with another text for a link, or with none. A text brings the default arrow. -/
def setEdgeText (index : Nat) (text : Option Text) (s : Source) : Except EditError Edited := do
  let r ← requireLink (View.ofSource s) index
  match text.bind nonBlank? with
  | some text => relink r ⟨.normal, some text⟩ s
  | none => relink r ⟨r.link.connector.arrow, none⟩ s

/-- The flowchart with a link turned around. -/
def swapEdge (index : Nat) (s : Source) : Except EditError Edited := do
  let r ← requireLink (View.ofSource s) index
  let s ← replaceLine r.line (swapped r.link) s
  return ⟨s, some (.edge r.link.target.id r.link.source.id (some index))⟩

/-!
## Styles and classes

One property is set or removed in the directive that is about exactly the object in question. If
there is none, a new directive is written at the end of the source; a directive that loses its last
property is deleted.
-/

/-- The source with one property set or removed: in the directive with these properties on its
line, or in a new one. -/
def setProperty (existing : Option (Nat × Properties)) (render : (indent : Text) → Properties → Text)
    (key : Text) (value : Option Text) (v : View) (s : Source) : Except EditError Source :=
  match existing with
  | some (line, properties) =>
    let properties := properties.set key value
    if properties.isEmpty then deleteLines line 1 s
    else do
      let indent := Text.indent (← lineAt line s)
      replaceLine line (render indent properties) s
  | none =>
    let properties := Properties.set key value []
    if properties.isEmpty then .ok s
    else .ok (s.pushLine (render (bodyIndent v.declarationLine s) properties))

/-- The flowchart with a property of a node or subgraph set or removed. -/
def setNodeStyle (id key : Text) (value : Option Text) (s : Source) : Except EditError Edited := do
  let v := View.ofSource s
  requireId v id
  let existing := (v.styleFor? id).map fun (line, d) => (line, d.properties)
  let render := fun indent properties => NodeStyle.render indent ⟨id, properties⟩
  return { source := ← setProperty existing render key value v s }

/-- The flowchart with a property of a link set or removed. A directive that names several links
is left alone. -/
def setLinkStyle (index : Nat) (key : Text) (value : Option Text) (s : Source) :
    Except EditError Edited := do
  let v := View.ofSource s
  let _ ← requireLink v index
  let existing := (v.linkStyles.find? (·.2.target.positions = [index])).map fun (line, d) =>
    (line, d.properties)
  let render := fun indent properties => LinkStyle.render indent [index] properties
  return { source := ← setProperty existing render key value v s }

/-- The flowchart with a property of a class set or removed. A definition of several classes is
left alone. -/
def setClassStyle (className key : Text) (value : Option Text) (s : Source) :
    Except EditError Edited := do
  requireIdentifier (Identifier.checkNode className) className
  let v := View.ofSource s
  let existing := (v.classDefs.find? (·.2.names = [className])).map fun (line, d) =>
    (line, d.properties)
  let render := fun indent properties => ClassDef.render indent className properties
  return { source := ← setProperty existing render key value v s }

/-- The flowchart with a class given to some nodes or subgraphs. -/
def applyClass (ids : List Text) (className : Text) (s : Source) : Except EditError Edited := do
  let v := View.ofSource s
  requireIdentifier (Identifier.checkNode className) className
  ids.forM (requireId v)
  if ids.isEmpty then return { source := s }
  return { source := s.pushLine (ClassUse.render (bodyIndent v.declarationLine s) ⟨ids, className⟩) }

end DiagramEditor.Edit.Flowchart
