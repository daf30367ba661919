import DiagramEditor.EntityRelation.Relationship
import DiagramEditor.Flowchart.Link
import DiagramEditor.Kind
import DiagramEditor.Sequence.Fragment
import DiagramEditor.Sequence.Message
import DiagramEditor.Sequence.Participant

/-!
# Edits

The edits that a user can make, for each kind of diagram. An edit names the parts of the diagram by
their ids or by their positions, and an absent option leaves a choice to the editor or a part as it
is.
-/

namespace DiagramEditor

open Flowchart EntityRelation Sequence

/-- What is deleted with a subgraph. -/
inductive SubgraphDeleteMode where
  /-- The block with every node that is defined inside. -/
  | everything
  /-- The lines that open and close the block; what is inside moves out. -/
  | containerOnly
deriving DecidableEq, Repr

namespace SubgraphDeleteMode

/-- The name of the mode. -/
def name : SubgraphDeleteMode → Text
  | everything => "everything".toList
  | containerOnly => "container_only".toList

/-- The mode with this name. -/
def ofName? (name : Text) : Option SubgraphDeleteMode :=
  [everything, containerOnly].find? (·.name = name)

end SubgraphDeleteMode

/-- Edits of a flowchart. -/
inductive FlowchartOp where
  | addNode (id : Option Text) (shape : NodeShape) (label : Text)
  | addEdge (source target : Text) (text : Option Text)
  | addSubgraph (id : Option Text) (label : Text)
  | deleteNode (id : Text)
  | deleteEdge (index : Nat)
  | deleteSubgraph (id : Text) (mode : SubgraphDeleteMode)
  | duplicateNode (id : Text)
  | duplicateSubgraph (id : Text)
  /-- Without a target the node goes to the top level. -/
  | moveNode (id : Text) (into : Option Text)
  | editLabel (id label : Text)
  | editSubgraphLabel (id label : Text)
  | setNodeShape (id : Text) (shape : NodeShape)
  | setNodeStyle (id key : Text) (value : Option Text)
  | setLinkStyle (index : Nat) (key : Text) (value : Option Text)
  | setEdgeArrow (index : Nat) (arrow : Arrow)
  | setEdgeText (index : Nat) (text : Option Text)
  | swapEdge (index : Nat)
  | applyClass (ids : List Text) (className : Text)
  | setClassStyle (className key : Text) (value : Option Text)
deriving DecidableEq, Repr

/-- The parts of a relationship that change. -/
structure RelationshipPatch where
  entity1 : Option Text := none
  cardinality1 : Option Cardinality := none
  identification : Option Identification := none
  cardinality2 : Option Cardinality := none
  entity2 : Option Text := none
  label : Option Text := none
deriving DecidableEq, Repr

/-- Edits of an entity diagram. -/
inductive EntityOp where
  | addEntity (name : Option Text)
  | renameEntity (name newName : Text)
  | deleteEntity (name : Text)
  | addAttribute (entity : Text) (new : Attribute)
  | updateAttribute (entity attributeName : Text) (new : Attribute)
  | deleteAttribute (entity attributeName : Text)
  | addRelationship (new : Relationship)
  | updateRelationship (index : Nat) (patch : RelationshipPatch)
  | deleteRelationship (index : Nat)
deriving DecidableEq, Repr

/-- The parts of a message that change. -/
structure MessagePatch where
  sender : Option Text := none
  receiver : Option Text := none
  arrow : Option MessageArrow := none
  text : Option Text := none
deriving DecidableEq, Repr

/-- Edits of a sequence diagram. -/
inductive SequenceOp where
  | addParticipant (name : Option Text) (label : Text) (type : ParticipantType)
  | updateParticipant (name : Text) (label : Option Text) (type : Option ParticipantType)
  | deleteParticipant (name : Text)
  | addMessage (sender receiver : Text) (arrow : MessageArrow) (text : Text)
  | updateMessage (index : Nat) (patch : MessagePatch)
  | deleteMessage (index : Nat)
  | addNote (placement : NotePlacement) (participants : List Text) (text : Text)
  | addFragment (kind : FragmentKind) (label : Text)
  | addBox (label : Text) (color : Option Text) (participants : List Text)
  | toggleAutonumber
deriving DecidableEq, Repr

/-- An edit of any diagram. -/
inductive Op where
  | flowchart (op : FlowchartOp)
  | er (op : EntityOp)
  | sequence (op : SequenceOp)
deriving DecidableEq, Repr

/-- The kind of diagram that the edit is for. -/
def Op.kind : Op → Kind
  | flowchart _ => .flowchart
  | er _ => .er
  | sequence _ => .sequence

end DiagramEditor
