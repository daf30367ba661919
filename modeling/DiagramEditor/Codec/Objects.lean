import DiagramEditor.Codec.Attribute
import DiagramEditor.Flowchart.Property
import DiagramEditor.Objects.Basic

/-!
# Objects as JSON

The objects of a diagram as records. An optional field that is absent is left out, and so is an
empty style.
-/

namespace DiagramEditor

open Flowchart EntityRelation Sequence

namespace NodeObject

/-- The node as JSON. -/
def toJson (o : NodeObject) : Json :=
  let style := if o.style.isEmpty then []
    else [("style", Json.object (o.style.map fun (key, value) => (key, .string value)))]
  .ofMembers ([("id", .string o.id), ("core_id", .string o.coreId), ("label", .string o.label)] ++
    Json.memberOf "shape" .string o.shape ++ style)

/-- The node that the JSON value is. -/
def ofJson? (j : Json) : Option NodeObject := do
  let r ← j.record? ["id", "core_id", "label", "shape", "style"]
  return {
    id := ← r.text? "id"
    coreId := ← r.text? "core_id"
    label := ← r.text? "label"
    shape := ← r.textOption? "shape"
    style := Properties.lastValues (← r.default? "style" (Json.pairs? Json.text?) []) }

end NodeObject

namespace EdgeObject

/-- The edge as JSON. -/
def toJson (o : EdgeObject) : Json :=
  .ofMembers ([("id", .string o.id), ("source_core_id", .string o.sourceCoreId),
    ("target_core_id", .string o.targetCoreId), ("source_label", .string o.sourceLabel),
    ("target_label", .string o.targetLabel)] ++
    Json.memberOf "arrow" (fun a => .string a.name) o.arrow ++ Json.memberOf "text" .string o.text ++
    Json.memberOf "link_index" .ofNat o.linkIndex)

/-- The edge that the JSON value is. -/
def ofJson? (j : Json) : Option EdgeObject := do
  let r ← j.record? ["id", "source_core_id", "target_core_id", "source_label", "target_label",
    "arrow", "text", "link_index"]
  return {
    id := ← r.text? "id"
    sourceCoreId := ← r.text? "source_core_id"
    targetCoreId := ← r.text? "target_core_id"
    sourceLabel := ← r.text? "source_label"
    targetLabel := ← r.text? "target_label"
    arrow := ← r.choiceOption? "arrow" Arrow.ofName?
    text := ← r.textOption? "text"
    linkIndex := ← r.indexOption? "link_index" }

end EdgeObject

namespace SubgraphObject

/-- The subgraph as JSON. -/
def toJson (o : SubgraphObject) : Json :=
  .ofMembers ([("id", .string o.id), ("core_id", .string o.coreId), ("label", .string o.label)] ++
    Json.memberOf "start_line" .ofNat o.startLine ++ Json.memberOf "end_line" .ofNat o.endLine ++
    [("members", .ofList .string o.members)])

/-- The subgraph that the JSON value is. -/
def ofJson? (j : Json) : Option SubgraphObject := do
  let r ← j.record? ["id", "core_id", "label", "start_line", "end_line", "members"]
  return {
    id := ← r.text? "id"
    coreId := ← r.text? "core_id"
    label := ← r.text? "label"
    startLine := ← r.indexOption? "start_line"
    endLine := ← r.indexOption? "end_line"
    members := ← r.list? "members" Json.text? }

end SubgraphObject

namespace EntityObject

/-- The entity as JSON. -/
def toJson (o : EntityObject) : Json :=
  .ofMembers ([("id", .string o.id), ("name", .string o.name), ("label", .string o.label),
    ("attributes", .ofList Attribute.toObjectJson o.attributes)] ++
    Json.memberOf "line_index" .ofNat o.line)

/-- The entity that the JSON value is. -/
def ofJson? (j : Json) : Option EntityObject := do
  let r ← j.record? ["id", "name", "label", "attributes", "line_index"]
  return {
    id := ← r.text? "id"
    name := ← r.text? "name"
    label := ← r.text? "label"
    attributes := ← r.list? "attributes" (Attribute.ofJson? false)
    line := ← r.indexOption? "line_index" }

end EntityObject

namespace RelationshipObject

/-- The relationship as JSON. -/
def toJson (o : RelationshipObject) : Json :=
  let r := o.relationship
  .ofMembers [("id", .string o.id), ("index", .ofNat o.index), ("entity1", .string r.entity1),
    ("cardinality1", .string r.cardinality1.name),
    ("identification", .string r.identification.name),
    ("cardinality2", .string r.cardinality2.name), ("entity2", .string r.entity2),
    ("label", .string r.label), ("line_index", .ofNat o.line)]

/-- The relationship that the JSON value is. -/
def ofJson? (j : Json) : Option RelationshipObject := do
  let r ← j.record? ["id", "index", "entity1", "cardinality1", "identification", "cardinality2",
    "entity2", "label", "line_index"]
  return {
    id := ← r.text? "id"
    index := ← r.index? "index"
    relationship := {
      entity1 := ← r.text? "entity1"
      cardinality1 := ← r.choice? "cardinality1" Cardinality.ofName?
      identification := ← r.choice? "identification" Identification.ofName?
      cardinality2 := ← r.choice? "cardinality2" Cardinality.ofName?
      entity2 := ← r.text? "entity2"
      label := ← r.text? "label" }
    line := ← r.index? "line_index" }

end RelationshipObject

namespace ParticipantObject

/-- The participant as JSON. -/
def toJson (o : ParticipantObject) : Json :=
  .ofMembers ([("id", .string o.id), ("alias", .string o.name), ("label", .string o.label),
    ("participant_type", .string o.type.name)] ++ Json.memberOf "line_index" .ofNat o.line)

/-- The participant that the JSON value is. -/
def ofJson? (j : Json) : Option ParticipantObject := do
  let r ← j.record? ["id", "alias", "label", "participant_type", "line_index"]
  return {
    id := ← r.text? "id"
    name := ← r.text? "alias"
    label := ← r.text? "label"
    type := ← r.choice? "participant_type" ParticipantType.ofName?
    line := ← r.indexOption? "line_index" }

end ParticipantObject

namespace MessageObject

/-- The message as JSON. -/
def toJson (o : MessageObject) : Json :=
  .ofMembers [("id", .string o.id), ("index", .ofNat o.index), ("from", .string o.sender),
    ("to", .string o.receiver), ("arrow", .string o.arrow.name), ("text", .string o.text),
    ("line_index", .ofNat o.line)]

/-- The message that the JSON value is. -/
def ofJson? (j : Json) : Option MessageObject := do
  let r ← j.record? ["id", "index", "from", "to", "arrow", "text", "line_index"]
  return {
    id := ← r.text? "id"
    index := ← r.index? "index"
    sender := ← r.text? "from"
    receiver := ← r.text? "to"
    arrow := ← r.choice? "arrow" MessageArrow.ofName?
    text := ← r.text? "text"
    line := ← r.index? "line_index" }

end MessageObject

namespace NoteObject

/-- The note as JSON. -/
def toJson (o : NoteObject) : Json :=
  .ofMembers [("id", .string o.id), ("index", .ofNat o.index),
    ("placement", .string o.placement.name), ("participants", .ofList .string o.participants),
    ("text", .string o.text), ("line_index", .ofNat o.line)]

/-- The note that the JSON value is. -/
def ofJson? (j : Json) : Option NoteObject := do
  let r ← j.record? ["id", "index", "placement", "participants", "text", "line_index"]
  return {
    id := ← r.text? "id"
    index := ← r.index? "index"
    placement := ← r.choice? "placement" NotePlacement.ofName?
    participants := ← r.texts? "participants"
    text := ← r.text? "text"
    line := ← r.index? "line_index" }

end NoteObject

namespace FragmentObject

/-- The fragment as JSON. -/
def toJson (o : FragmentObject) : Json :=
  .ofMembers [("id", .string o.id), ("index", .ofNat o.index), ("kind", .string o.kind.keyword),
    ("label", .string o.label), ("start_line", .ofNat o.startLine), ("end_line", .ofNat o.endLine)]

/-- The fragment that the JSON value is. -/
def ofJson? (j : Json) : Option FragmentObject := do
  let r ← j.record? ["id", "index", "kind", "label", "start_line", "end_line"]
  return {
    id := ← r.text? "id"
    index := ← r.index? "index"
    kind := ← r.choice? "kind" FragmentKind.ofKeyword?
    label := ← r.text? "label"
    startLine := ← r.index? "start_line"
    endLine := ← r.index? "end_line" }

end FragmentObject

namespace OtherObject

/-- The element as JSON. -/
def toJson (o : OtherObject) : Json :=
  .ofMembers ([("id", .string o.id)] ++ Json.memberOf "class" .string o.cssClass)

/-- The element that the JSON value is. -/
def ofJson? (j : Json) : Option OtherObject := do
  let r ← j.record? ["id", "class"]
  return { id := ← r.text? "id", cssClass := ← r.textOption? "class" }

end OtherObject

namespace Objects

/-- The objects as JSON. -/
def toJson (o : Objects) : Json :=
  .ofMembers [("nodes", .ofList NodeObject.toJson o.nodes),
    ("edges", .ofList EdgeObject.toJson o.edges),
    ("subgraphs", .ofList SubgraphObject.toJson o.subgraphs),
    ("entities", .ofList EntityObject.toJson o.entities),
    ("relationships", .ofList RelationshipObject.toJson o.relationships),
    ("participants", .ofList ParticipantObject.toJson o.participants),
    ("messages", .ofList MessageObject.toJson o.messages),
    ("notes", .ofList NoteObject.toJson o.notes),
    ("fragments", .ofList FragmentObject.toJson o.fragments),
    ("others", .ofList OtherObject.toJson o.others)]

/-- The objects that the JSON value is. -/
def ofJson? (j : Json) : Option Objects := do
  let r ← j.record? ["nodes", "edges", "subgraphs", "entities", "relationships", "participants",
    "messages", "notes", "fragments", "others"]
  return {
    nodes := ← r.list? "nodes" NodeObject.ofJson?
    edges := ← r.list? "edges" EdgeObject.ofJson?
    subgraphs := ← r.list? "subgraphs" SubgraphObject.ofJson?
    entities := ← r.list? "entities" EntityObject.ofJson?
    relationships := ← r.list? "relationships" RelationshipObject.ofJson?
    participants := ← r.list? "participants" ParticipantObject.ofJson?
    messages := ← r.list? "messages" MessageObject.ofJson?
    notes := ← r.list? "notes" NoteObject.ofJson?
    fragments := ← r.list? "fragments" FragmentObject.ofJson?
    others := ← r.list? "others" OtherObject.ofJson? }

end Objects

end DiagramEditor
