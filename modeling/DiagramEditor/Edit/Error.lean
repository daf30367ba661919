import DiagramEditor.Flowchart.Link
import DiagramEditor.Identifier.Basic
import DiagramEditor.Kind

/-!
# Refused edits

Why an edit or a batch of edits is refused, and what the user reads about it.
-/

namespace DiagramEditor

/-- Why a batch of edits is refused. -/
inductive EditError where
  /-- The batch was made for another revision than the current one. -/
  | conflict (baseRev currentRev : Nat)
  /-- The edit is for another kind of diagram. -/
  | kindMismatch (diagram op : Kind)
  | nodeNotFound (id : Text)
  | subgraphNotFound (id : Text)
  | linkNotFound (index : Nat)
  | entityNotFound (name : Text)
  | attributeNotFound (entity name : Text)
  | relationshipNotFound (index : Nat)
  | participantNotFound (name : Text)
  | participantAlreadyBoxed (name : Text)
  | messageNotFound (index : Nat)
  | alreadyExists (id : Text)
  | invalidIdentifier (id : Text) (reason : IdentifierError)
  /-- The link has a text, which goes with the default arrow only. -/
  | arrowTextConflict (index : Nat) (arrow : Flowchart.Arrow)
  /-- No line holds the node alone, so no line can be moved. -/
  | nodeNotMovable (id : Text)
  | source (e : SourceError)
deriving DecidableEq, Repr

namespace EditError

/-- The family of edits for a kind of diagram, as messages name it. -/
def opKindName : Kind → Text
  | .flowchart => "Flow".toList
  | .er => "Er".toList
  | .sequence => "Seq".toList

/-- The arrow, as messages name it. -/
def arrowName : Flowchart.Arrow → Text
  | .normal => "Arrow".toList
  | .open => "Open".toList
  | .dotted => "Dotted".toList
  | .thick => "Thick".toList
  | .bidirectional => "Bidirectional".toList
  | .circleEnd => "CircleEnd".toList
  | .circleBoth => "CircleBoth".toList
  | .crossEnd => "CrossEnd".toList
  | .crossBoth => "CrossBoth".toList

/-- The text shown to the user. -/
def message : EditError → Text
  | conflict baseRev currentRev =>
    "stale base_rev (base_rev=".toList ++ Text.ofNat baseRev ++ ", current_rev=".toList ++
      Text.ofNat currentRev ++ [')']
  | kindMismatch diagram op =>
    "op kind mismatch (diagram_kind=".toList ++ diagram.name ++ ", op_kind=".toList ++
      opKindName op ++ [')']
  | nodeNotFound id => "node '".toList ++ id ++ "' has no definition in the source".toList
  | subgraphNotFound id => "subgraph '".toList ++ id ++ "' not found".toList
  | linkNotFound index => "link #".toList ++ Text.ofNat index ++ " not found".toList
  | entityNotFound name => "entity '".toList ++ name ++ "' not found".toList
  | attributeNotFound entity name =>
    "attribute '".toList ++ name ++ "' not found on entity '".toList ++ entity ++ ['\'']
  | relationshipNotFound index => "relationship #".toList ++ Text.ofNat index ++ " not found".toList
  | participantNotFound name => "participant '".toList ++ name ++ "' not found".toList
  | participantAlreadyBoxed name =>
    "participant '".toList ++ name ++ "' already belongs to a box".toList
  | messageNotFound index => "message #".toList ++ Text.ofNat index ++ " not found".toList
  | alreadyExists id => '\'' :: id ++ "' already exists".toList
  | invalidIdentifier id reason =>
    "invalid identifier '".toList ++ id ++ "': ".toList ++ reason.message
  | arrowTextConflict index arrow =>
    "link #".toList ++ Text.ofNat index ++
      " has text; only the default arrow supports inline text (got ".toList ++ arrowName arrow ++
      [')']
  | nodeNotMovable id =>
    "node '".toList ++ id ++ "' has no standalone line that could be moved".toList
  | source e => e.message

/-- The text of the error behind this one, if there is one. -/
def cause? : EditError → Option Text
  | invalidIdentifier _ reason => some reason.message
  | source e => some e.message
  | _ => none

end EditError

end DiagramEditor
