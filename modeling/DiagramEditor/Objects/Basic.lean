import DiagramEditor.EntityRelation.Relationship
import DiagramEditor.Flowchart.Link
import DiagramEditor.Sequence.Fragment
import DiagramEditor.Sequence.Message
import DiagramEditor.Sequence.Participant

/-!
# Rendered objects

The objects that were found in a rendered diagram, in one bucket for each kind. Each has the id of
its element in the markup, which changes from one rendering to the next, and what the source says
about it.
-/

namespace DiagramEditor

open Flowchart EntityRelation Sequence

/-- The kinds of rendered objects. -/
inductive ObjectKind where
  | node
  | edge
  | subgraph
  | entity
  | relationship
  | participant
  | message
  | note
  | fragment
  | other
deriving DecidableEq, Repr

namespace ObjectKind

/-- All kinds. -/
def all : List ObjectKind :=
  [node, edge, subgraph, entity, relationship, participant, message, note, fragment, other]

/-- The name of the kind. -/
def name : ObjectKind → Text
  | node => "node".toList
  | edge => "edge".toList
  | subgraph => "subgraph".toList
  | entity => "entity".toList
  | relationship => "relationship".toList
  | participant => "participant".toList
  | message => "message".toList
  | note => "note".toList
  | fragment => "fragment".toList
  | other => "other".toList

/-- The kind with this name. -/
def ofName? (name : Text) : Option ObjectKind :=
  all.find? (·.name = name)

end ObjectKind

/-- A rendered node. -/
structure NodeObject where
  id : Text
  /-- The id in the source. -/
  coreId : Text
  label : Text
  /-- The name of the shape. -/
  shape : Option Text := none
  /-- The style properties, each key once. -/
  style : List (Text × Text) := []
deriving DecidableEq, Repr

/-- A rendered link. -/
structure EdgeObject where
  id : Text
  sourceCoreId : Text
  targetCoreId : Text
  sourceLabel : Text
  targetLabel : Text
  arrow : Option Arrow := none
  text : Option Text := none
  /-- The position among all links of the source, if the edge was paired with one. -/
  linkIndex : Option Nat := none
deriving DecidableEq, Repr

/-- A rendered subgraph. -/
structure SubgraphObject where
  id : Text
  coreId : Text
  label : Text
  startLine : Option Nat := none
  endLine : Option Nat := none
  members : List Text := []
deriving DecidableEq, Repr

/-- A rendered entity. -/
structure EntityObject where
  id : Text
  name : Text
  label : Text
  attributes : List Attribute := []
  line : Option Nat := none
deriving DecidableEq, Repr

/-- A rendered relationship. -/
structure RelationshipObject where
  id : Text
  index : Nat
  relationship : Relationship
  line : Nat
deriving DecidableEq, Repr

/-- A rendered participant. -/
structure ParticipantObject where
  id : Text
  name : Text
  label : Text
  type : ParticipantType
  line : Option Nat := none
deriving DecidableEq, Repr

/-- A rendered message. -/
structure MessageObject where
  id : Text
  index : Nat
  sender : Text
  receiver : Text
  arrow : MessageArrow
  text : Text
  line : Nat
deriving DecidableEq, Repr

/-- A rendered note. -/
structure NoteObject where
  id : Text
  index : Nat
  placement : NotePlacement
  participants : List Text
  text : Text
  line : Nat
deriving DecidableEq, Repr

/-- A rendered fragment. -/
structure FragmentObject where
  id : Text
  index : Nat
  kind : FragmentKind
  label : Text
  startLine : Nat
  endLine : Nat
deriving DecidableEq, Repr

/-- An element with an id that is none of the objects above. -/
structure OtherObject where
  id : Text
  /-- The class attribute of the element. -/
  cssClass : Option Text := none
deriving DecidableEq, Repr

/-- The objects of one rendering. -/
structure Objects where
  nodes : List NodeObject := []
  edges : List EdgeObject := []
  subgraphs : List SubgraphObject := []
  entities : List EntityObject := []
  relationships : List RelationshipObject := []
  participants : List ParticipantObject := []
  messages : List MessageObject := []
  notes : List NoteObject := []
  fragments : List FragmentObject := []
  others : List OtherObject := []
deriving DecidableEq, Repr

namespace Objects

/-- The id and the kind of each object, bucket by bucket. -/
def ids (o : Objects) : List (Text × ObjectKind) :=
  o.nodes.map (fun x => (x.id, .node)) ++ o.edges.map (fun x => (x.id, .edge)) ++
    o.subgraphs.map (fun x => (x.id, .subgraph)) ++ o.entities.map (fun x => (x.id, .entity)) ++
    o.relationships.map (fun x => (x.id, .relationship)) ++
    o.participants.map (fun x => (x.id, .participant)) ++
    o.messages.map (fun x => (x.id, .message)) ++ o.notes.map (fun x => (x.id, .note)) ++
    o.fragments.map (fun x => (x.id, .fragment)) ++ o.others.map (fun x => (x.id, .other))

/-- The kind of the first object with this id. -/
def kindOf? (o : Objects) (id : Text) : Option ObjectKind :=
  o.ids.lookup id

/-- There is an object with this id and this kind. -/
def contains (o : Objects) (id : Text) (kind : ObjectKind) : Bool :=
  o.ids.contains (id, kind)

/-- The number of objects. -/
def size (o : Objects) : Nat :=
  o.ids.length

/-- There is no object. -/
def isEmpty (o : Objects) : Bool :=
  o.ids.isEmpty

/-- The node with this id in the source. -/
def nodeByCoreId? (o : Objects) (coreId : Text) : Option NodeObject :=
  o.nodes.find? (·.coreId = coreId)

/-- The label of the node with this id in the source, or the id. -/
def nodeLabel (o : Objects) (coreId : Text) : Text :=
  (o.nodeByCoreId? coreId).elim coreId (·.label)

end Objects

end DiagramEditor
