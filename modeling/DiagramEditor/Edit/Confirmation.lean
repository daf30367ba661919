import DiagramEditor.Edit.Op
import DiagramEditor.Flowchart.View

/-!
# Confirmations

What the user is asked before a link or a subgraph is deleted.
-/

namespace DiagramEditor

/-- The question before a link is deleted. -/
structure EdgeDeleteConfirmation where
  index : Nat
  sourceLabel : Text
  targetLabel : Text
  prompt : Text
deriving DecidableEq, Repr

/-- One way to delete a subgraph, with the text on its button. -/
structure DeleteChoice where
  mode : SubgraphDeleteMode
  label : Text
deriving DecidableEq, Repr

/-- The question before a subgraph is deleted. -/
structure SubgraphDeleteChoices where
  subgraphId : Text
  label : Text
  prompt : Text
  choices : List DeleteChoice
deriving DecidableEq, Repr

namespace Flowchart.View

/-- The label of the node with this id, or the id. -/
def labelOf (v : View) (id : Text) : Text :=
  (v.node? id).elim id (·.label)

/-- The question before the link at this position is deleted. -/
def edgeDeleteConfirmation? (v : View) (index : Nat) : Option EdgeDeleteConfirmation :=
  (v.link? index).map fun r =>
    let source := v.labelOf r.link.source.id
    let target := v.labelOf r.link.target.id
    ⟨index, source, target, "Delete the connection from \"".toList ++ source ++
      "\" to \"".toList ++ target ++ "\"?".toList⟩

/-- The question before the subgraph with this id is deleted. -/
def subgraphDeleteChoices? (v : View) (id : Text) : Option SubgraphDeleteChoices :=
  (v.subgraph? id).map fun g =>
    ⟨id, g.display, "Delete \"".toList ++ g.display ++
      "\" and everything inside it, or only the container?".toList,
      [⟨.everything, "Delete Everything".toList⟩,
        ⟨.containerOnly, "Delete Container Only".toList⟩]⟩

end Flowchart.View

end DiagramEditor
