import DiagramEditor.Text.Basic

/-!
# Handles

The ids of rendered objects change with each rendering. A handle names an object by what stays: the
id of a node in the source, the name of an entity, the name of a participant, or the position
among the objects of its kind. An edit answers with the handle of the object that it made or
changed, so that the object can be selected once it is rendered.
-/

namespace DiagramEditor

/-- What names an object across renderings. -/
inductive Handle where
  /-- A link between two ids, with its position among all links if that is known. -/
  | edge (source target : Text) (linkIndex : Option Nat)
  | node (id : Text)
  | subgraph (id : Text)
  | entity (name : Text)
  | relationship (index : Nat)
  | participant (name : Text)
  | message (index : Nat)
  | note (index : Nat)
  | fragment (index : Nat)
deriving DecidableEq, Repr

end DiagramEditor
