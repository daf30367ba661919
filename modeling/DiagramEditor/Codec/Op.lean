import DiagramEditor.Codec.Attribute
import DiagramEditor.Edit.Op

/-!
# Edits as JSON

An edit is an object with one member, which is named for the kind of diagram and holds a record that
says in `op` which edit it is. An option that is absent is written as `null` and may be left out when
read; so may the parts of a relationship or a message that an edit leaves as they are.
-/

namespace DiagramEditor

open Flowchart EntityRelation Sequence

/-! ## Edits of a flowchart -/

namespace FlowchartOp

/-- The name of the edit. -/
def name : FlowchartOp → String
  | addNode .. => "add_node"
  | addEdge .. => "add_edge"
  | addSubgraph .. => "add_subgraph"
  | deleteNode .. => "delete_node"
  | deleteEdge .. => "delete_edge"
  | deleteSubgraph .. => "delete_subgraph"
  | duplicateNode .. => "duplicate_node"
  | duplicateSubgraph .. => "duplicate_subgraph"
  | moveNode .. => "move_node"
  | editLabel .. => "edit_label"
  | editSubgraphLabel .. => "edit_subgraph_label"
  | setNodeShape .. => "set_node_shape"
  | setNodeStyle .. => "set_node_style"
  | setLinkStyle .. => "set_link_style"
  | setEdgeArrow .. => "set_edge_arrow"
  | setEdgeText .. => "set_edge_text"
  | swapEdge .. => "swap_edge"
  | applyClass .. => "apply_class"
  | setClassStyle .. => "set_class_style"

/-- The fields of the edit in their order. -/
def fields : FlowchartOp → List (String × Json)
  | addNode id shape label =>
    [("id", .ofTextOption id), ("shape", .string shape.name), ("label", .string label)]
  | addEdge source target text =>
    [("from", .string source), ("to", .string target), ("text", .ofTextOption text)]
  | addSubgraph id label => [("id", .ofTextOption id), ("label", .string label)]
  | deleteNode id | duplicateNode id | duplicateSubgraph id => [("id", .string id)]
  | deleteEdge index | swapEdge index => [("index", .ofNat index)]
  | deleteSubgraph id mode => [("id", .string id), ("mode", .string mode.name)]
  | moveNode id into => [("id", .string id), ("into", .ofTextOption into)]
  | editLabel id label | editSubgraphLabel id label =>
    [("id", .string id), ("label", .string label)]
  | setNodeShape id shape => [("id", .string id), ("shape", .string shape.name)]
  | setNodeStyle id key value =>
    [("id", .string id), ("key", .string key), ("value", .ofTextOption value)]
  | setLinkStyle index key value =>
    [("index", .ofNat index), ("key", .string key), ("value", .ofTextOption value)]
  | setEdgeArrow index arrow => [("index", .ofNat index), ("arrow", .string arrow.name)]
  | setEdgeText index text => [("index", .ofNat index), ("text", .ofTextOption text)]
  | applyClass ids className =>
    [("ids", .ofList .string ids), ("class_name", .string className)]
  | setClassStyle className key value =>
    [("class_name", .string className), ("key", .string key), ("value", .ofTextOption value)]

/-- The edit as JSON. -/
def toJson (op : FlowchartOp) : Json :=
  .ofMembers (("op", .string op.name.toList) :: op.fields)

/-- The fields of the edit with this name, in their order. -/
def fieldNames? (name : Text) : Option (List String) :=
  match String.ofList name with
  | "add_node" => some ["id", "shape", "label"]
  | "add_edge" => some ["from", "to", "text"]
  | "add_subgraph" => some ["id", "label"]
  | "delete_node" | "duplicate_node" | "duplicate_subgraph" => some ["id"]
  | "delete_edge" | "swap_edge" => some ["index"]
  | "delete_subgraph" => some ["id", "mode"]
  | "move_node" => some ["id", "into"]
  | "edit_label" | "edit_subgraph_label" => some ["id", "label"]
  | "set_node_shape" => some ["id", "shape"]
  | "set_node_style" => some ["id", "key", "value"]
  | "set_link_style" => some ["index", "key", "value"]
  | "set_edge_arrow" => some ["index", "arrow"]
  | "set_edge_text" => some ["index", "text"]
  | "apply_class" => some ["ids", "class_name"]
  | "set_class_style" => some ["class_name", "key", "value"]
  | _ => none

/-- The edit with this name and these fields. -/
def ofRecord? (name : Text) (r : Json.Record) : Option FlowchartOp := do
  match String.ofList name with
  | "add_node" =>
    return .addNode (← r.textOption? "id") (← r.choiceD? "shape" NodeShape.ofName? .rect)
      (← r.text? "label")
  | "add_edge" =>
    return .addEdge (← r.text? "from") (← r.text? "to") (← r.textOption? "text")
  | "add_subgraph" => return .addSubgraph (← r.textOption? "id") (← r.text? "label")
  | "delete_node" => return .deleteNode (← r.text? "id")
  | "delete_edge" => return .deleteEdge (← r.index? "index")
  | "delete_subgraph" =>
    return .deleteSubgraph (← r.text? "id")
      (← r.choiceD? "mode" SubgraphDeleteMode.ofName? .everything)
  | "duplicate_node" => return .duplicateNode (← r.text? "id")
  | "duplicate_subgraph" => return .duplicateSubgraph (← r.text? "id")
  | "move_node" => return .moveNode (← r.text? "id") (← r.textOption? "into")
  | "edit_label" => return .editLabel (← r.text? "id") (← r.text? "label")
  | "edit_subgraph_label" => return .editSubgraphLabel (← r.text? "id") (← r.text? "label")
  | "set_node_shape" =>
    return .setNodeShape (← r.text? "id") (← r.choice? "shape" NodeShape.ofName?)
  | "set_node_style" =>
    return .setNodeStyle (← r.text? "id") (← r.text? "key") (← r.textOption? "value")
  | "set_link_style" =>
    return .setLinkStyle (← r.index? "index") (← r.text? "key") (← r.textOption? "value")
  | "set_edge_arrow" =>
    return .setEdgeArrow (← r.index? "index") (← r.choice? "arrow" Arrow.ofName?)
  | "set_edge_text" => return .setEdgeText (← r.index? "index") (← r.textOption? "text")
  | "swap_edge" => return .swapEdge (← r.index? "index")
  | "apply_class" => return .applyClass (← r.texts? "ids") (← r.text? "class_name")
  | "set_class_style" =>
    return .setClassStyle (← r.text? "class_name") (← r.text? "key") (← r.textOption? "value")
  | _ => none

/-- The edit that the JSON value is. -/
def ofJson? : Json → Option FlowchartOp :=
  Json.tagged? "op" fieldNames? ofRecord?

end FlowchartOp

/-! ## Edits of an entity diagram -/

namespace RelationshipPatch

/-- The patch as JSON. -/
def toJson (p : RelationshipPatch) : Json :=
  .ofMembers [("entity1", .ofTextOption p.entity1),
    ("cardinality1", .ofTextOption (p.cardinality1.map Cardinality.name)),
    ("identification", .ofTextOption (p.identification.map Identification.name)),
    ("cardinality2", .ofTextOption (p.cardinality2.map Cardinality.name)),
    ("entity2", .ofTextOption p.entity2), ("label", .ofTextOption p.label)]

/-- The patch that the JSON value is, as part of an edit. -/
def ofJson? (j : Json) : Option RelationshipPatch := do
  let names :=
    ["entity1", "cardinality1", "identification", "cardinality2", "entity2", "label"]
  let r ← j.record? names true
  return {
    entity1 := ← r.textOption? "entity1"
    cardinality1 := ← r.choiceOption? "cardinality1" Cardinality.ofName?
    identification := ← r.choiceOption? "identification" Identification.ofName?
    cardinality2 := ← r.choiceOption? "cardinality2" Cardinality.ofName?
    entity2 := ← r.textOption? "entity2"
    label := ← r.textOption? "label" }

end RelationshipPatch

namespace EntityOp

/-- The name of the edit. -/
def name : EntityOp → String
  | addEntity .. => "add_entity"
  | renameEntity .. => "rename_entity"
  | deleteEntity .. => "delete_entity"
  | addAttribute .. => "add_attribute"
  | updateAttribute .. => "update_attribute"
  | deleteAttribute .. => "delete_attribute"
  | addRelationship .. => "add_relationship"
  | updateRelationship .. => "update_relationship"
  | deleteRelationship .. => "delete_relationship"

/-- The fields of the edit in their order. -/
def fields : EntityOp → List (String × Json)
  | addEntity name => [("name", .ofTextOption name)]
  | renameEntity name newName => [("name", .string name), ("new_name", .string newName)]
  | deleteEntity name => [("name", .string name)]
  | addAttribute entity new => [("entity", .string entity), ("attribute", new.toJson)]
  | updateAttribute entity name new =>
    [("entity", .string entity), ("attribute_name", .string name), ("attribute", new.toJson)]
  | deleteAttribute entity name => [("entity", .string entity), ("attribute_name", .string name)]
  | addRelationship r =>
    [("entity1", .string r.entity1), ("cardinality1", .string r.cardinality1.name),
      ("identification", .string r.identification.name),
      ("cardinality2", .string r.cardinality2.name), ("entity2", .string r.entity2),
      ("label", .string r.label)]
  | updateRelationship index patch => [("index", .ofNat index), ("patch", patch.toJson)]
  | deleteRelationship index => [("index", .ofNat index)]

/-- The edit as JSON. -/
def toJson (op : EntityOp) : Json :=
  .ofMembers (("op", .string op.name.toList) :: op.fields)

/-- The fields of the edit with this name, in their order. -/
def fieldNames? (name : Text) : Option (List String) :=
  match String.ofList name with
  | "add_entity" | "delete_entity" => some ["name"]
  | "rename_entity" => some ["name", "new_name"]
  | "add_attribute" => some ["entity", "attribute"]
  | "update_attribute" => some ["entity", "attribute_name", "attribute"]
  | "delete_attribute" => some ["entity", "attribute_name"]
  | "add_relationship" =>
    some ["entity1", "cardinality1", "identification", "cardinality2", "entity2", "label"]
  | "update_relationship" => some ["index", "patch"]
  | "delete_relationship" => some ["index"]
  | _ => none

/-- The edit with this name and these fields. -/
def ofRecord? (name : Text) (r : Json.Record) : Option EntityOp := do
  match String.ofList name with
  | "add_entity" => return .addEntity (← r.textOption? "name")
  | "rename_entity" => return .renameEntity (← r.text? "name") (← r.text? "new_name")
  | "delete_entity" => return .deleteEntity (← r.text? "name")
  | "add_attribute" =>
    return .addAttribute (← r.text? "entity") (← r.required? "attribute" (Attribute.ofJson? true))
  | "update_attribute" =>
    return .updateAttribute (← r.text? "entity") (← r.text? "attribute_name")
      (← r.required? "attribute" (Attribute.ofJson? true))
  | "delete_attribute" =>
    return .deleteAttribute (← r.text? "entity") (← r.text? "attribute_name")
  | "add_relationship" =>
    return .addRelationship {
      entity1 := ← r.text? "entity1"
      cardinality1 := ← r.choice? "cardinality1" Cardinality.ofName?
      identification := ← r.choice? "identification" Identification.ofName?
      cardinality2 := ← r.choice? "cardinality2" Cardinality.ofName?
      entity2 := ← r.text? "entity2"
      label := ← r.text? "label" }
  | "update_relationship" =>
    return .updateRelationship (← r.index? "index")
      (← r.required? "patch" RelationshipPatch.ofJson?)
  | "delete_relationship" => return .deleteRelationship (← r.index? "index")
  | _ => none

/-- The edit that the JSON value is. -/
def ofJson? : Json → Option EntityOp :=
  Json.tagged? "op" fieldNames? ofRecord?

end EntityOp

/-! ## Edits of a sequence diagram -/

namespace MessagePatch

/-- The patch as JSON. -/
def toJson (p : MessagePatch) : Json :=
  .ofMembers [("from", .ofTextOption p.sender), ("to", .ofTextOption p.receiver),
    ("arrow", .ofTextOption (p.arrow.map MessageArrow.name)), ("text", .ofTextOption p.text)]

/-- The patch that the JSON value is, as part of an edit. -/
def ofJson? (j : Json) : Option MessagePatch := do
  let r ← j.record? ["from", "to", "arrow", "text"] true
  return {
    sender := ← r.textOption? "from"
    receiver := ← r.textOption? "to"
    arrow := ← r.choiceOption? "arrow" MessageArrow.ofName?
    text := ← r.textOption? "text" }

end MessagePatch

namespace SequenceOp

/-- The name of the edit. -/
def name : SequenceOp → String
  | addParticipant .. => "add_participant"
  | updateParticipant .. => "update_participant"
  | deleteParticipant .. => "delete_participant"
  | addMessage .. => "add_message"
  | updateMessage .. => "update_message"
  | deleteMessage .. => "delete_message"
  | addNote .. => "add_note"
  | addFragment .. => "add_fragment"
  | addBox .. => "add_box"
  | toggleAutonumber => "toggle_autonumber"

/-- The fields of the edit in their order. -/
def fields : SequenceOp → List (String × Json)
  | addParticipant name label type =>
    [("alias", .ofTextOption name), ("label", .string label),
      ("participant_type", .string type.name)]
  | updateParticipant name label type =>
    [("alias", .string name), ("label", .ofTextOption label),
      ("participant_type", .ofTextOption (type.map ParticipantType.name))]
  | deleteParticipant name => [("alias", .string name)]
  | addMessage sender receiver arrow text =>
    [("from", .string sender), ("to", .string receiver), ("arrow", .string arrow.name),
      ("text", .string text)]
  | updateMessage index patch => [("index", .ofNat index), ("patch", patch.toJson)]
  | deleteMessage index => [("index", .ofNat index)]
  | addNote placement participants text =>
    [("placement", .string placement.name), ("participants", .ofList .string participants),
      ("text", .string text)]
  | addFragment kind label => [("kind", .string kind.keyword), ("label", .string label)]
  | addBox label color participants =>
    [("label", .string label), ("color", .ofTextOption color),
      ("participants", .ofList .string participants)]
  | toggleAutonumber => []

/-- The edit as JSON. -/
def toJson (op : SequenceOp) : Json :=
  .ofMembers (("op", .string op.name.toList) :: op.fields)

/-- The fields of the edit with this name, in their order. -/
def fieldNames? (name : Text) : Option (List String) :=
  match String.ofList name with
  | "add_participant" | "update_participant" => some ["alias", "label", "participant_type"]
  | "delete_participant" => some ["alias"]
  | "add_message" => some ["from", "to", "arrow", "text"]
  | "update_message" => some ["index", "patch"]
  | "delete_message" => some ["index"]
  | "add_note" => some ["placement", "participants", "text"]
  | "add_fragment" => some ["kind", "label"]
  | "add_box" => some ["label", "color", "participants"]
  | "toggle_autonumber" => some []
  | _ => none

/-- The edit with this name and these fields. -/
def ofRecord? (name : Text) (r : Json.Record) : Option SequenceOp := do
  match String.ofList name with
  | "add_participant" =>
    return .addParticipant (← r.textOption? "alias") (← r.text? "label")
      (← r.choice? "participant_type" ParticipantType.ofName?)
  | "update_participant" =>
    return .updateParticipant (← r.text? "alias") (← r.textOption? "label")
      (← r.choiceOption? "participant_type" ParticipantType.ofName?)
  | "delete_participant" => return .deleteParticipant (← r.text? "alias")
  | "add_message" =>
    return .addMessage (← r.text? "from") (← r.text? "to")
      (← r.choice? "arrow" MessageArrow.ofName?) (← r.text? "text")
  | "update_message" =>
    return .updateMessage (← r.index? "index") (← r.required? "patch" MessagePatch.ofJson?)
  | "delete_message" => return .deleteMessage (← r.index? "index")
  | "add_note" =>
    return .addNote (← r.choice? "placement" NotePlacement.ofName?) (← r.texts? "participants")
      (← r.text? "text")
  | "add_fragment" =>
    return .addFragment (← r.choice? "kind" FragmentKind.ofKeyword?) (← r.text? "label")
  | "add_box" =>
    return .addBox (← r.text? "label") (← r.textOption? "color") (← r.texts? "participants")
  | "toggle_autonumber" => return .toggleAutonumber
  | _ => none

/-- The edit that the JSON value is. -/
def ofJson? : Json → Option SequenceOp :=
  Json.tagged? "op" fieldNames? ofRecord?

end SequenceOp

/-! ## Edits of any diagram -/

namespace Op

/-- The edit as JSON. -/
def toJson : Op → Json
  | flowchart op => .ofMembers [("flow", op.toJson)]
  | er op => .ofMembers [("er", op.toJson)]
  | sequence op => .ofMembers [("seq", op.toJson)]

/-- The edit that the JSON value is. -/
def ofJson? : Json → Option Op
  | .object [(name, value)] =>
    match String.ofList name with
    | "flow" => (FlowchartOp.ofJson? value).map .flowchart
    | "er" => (EntityOp.ofJson? value).map .er
    | "seq" => (SequenceOp.ofJson? value).map .sequence
    | _ => none
  | _ => none

end Op

end DiagramEditor
