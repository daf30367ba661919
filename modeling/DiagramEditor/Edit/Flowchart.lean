import DiagramEditor.Edit.Flowchart.Delete
import DiagramEditor.Edit.Flowchart.Move
import DiagramEditor.Edit.Flowchart.Rewrite

/-!
# Edits of flowcharts

One edit applied to the source of a flowchart. Fresh ids are taken from the allocator, which moves
on also when the edit is refused afterwards.
-/

namespace DiagramEditor.Edit.Flowchart

/-- The source after the edit, and the allocator. -/
def apply (op : FlowchartOp) (s : Source) (ids : IdAllocator) :
    Except EditError Edited × IdAllocator :=
  match op with
  | .addNode id shape label => addNode id shape label s ids
  | .addEdge source target text => (addEdge source target text s, ids)
  | .addSubgraph id label => addSubgraph id label s ids
  | .deleteNode id => (deleteNode id s, ids)
  | .deleteEdge index => (deleteEdge index s, ids)
  | .deleteSubgraph id mode => (deleteSubgraph id mode s, ids)
  | .duplicateNode id => (duplicateNode id s, ids)
  | .duplicateSubgraph id => duplicateSubgraph id s ids
  | .moveNode id into => (moveNode id into s, ids)
  | .editLabel id label => (editLabel id label s, ids)
  | .editSubgraphLabel id label => (editSubgraphLabel id label s, ids)
  | .setNodeShape id shape => (setNodeShape id shape s, ids)
  | .setNodeStyle id key value => (setNodeStyle id key value s, ids)
  | .setLinkStyle index key value => (setLinkStyle index key value s, ids)
  | .setEdgeArrow index arrow => (setEdgeArrow index arrow s, ids)
  | .setEdgeText index text => (setEdgeText index text s, ids)
  | .swapEdge index => (swapEdge index s, ids)
  | .applyClass targets className => (applyClass targets className s, ids)
  | .setClassStyle className key value => (setClassStyle className key value s, ids)

end DiagramEditor.Edit.Flowchart
