import DiagramEditor.Edit.Flowchart.Add

/-!
# Moving a node

A node moves by moving the line that holds it alone. Into a subgraph it goes to the end of the block;
a node that only links mention is mentioned there. Out of all subgraphs it goes right below the
declaration, and every other line in a subgraph that holds it alone is deleted; a node that has no
such line cannot be moved out.
-/

namespace DiagramEditor.Edit.Flowchart

open DiagramEditor.Flowchart

/-- The line of a block member before the line `stop` that ends the block. -/
def memberLine (endIndent text : Text) : Text :=
  endIndent ++ indentStep ++ text

/-- The source with the node at the end of the subgraph. -/
def moveInto (node : NodeRecord) (target : Text) (v : View) (s : Source) :
    Except EditError Source := do
  let g ← requireSubgraph v target
  let endIndent := Text.indent (← lineAt g.span.stop s)
  match node.standaloneLine? with
  | none => insertLines g.span.stop [memberLine endIndent node.id] s
  | some line =>
    if (v.innermost? line).any (·.id = target) then return s
    let text := Text.trim (← lineAt line s)
    let s ← deleteLines line 1 s
    -- The deleted line pulls the end of the block up if it stood above it.
    let slot := if line < g.span.stop then g.span.stop - 1 else g.span.stop
    insertLines slot [memberLine endIndent text] s

/-- The source with the node outside of all subgraphs. -/
def moveOut (node : NodeRecord) (v : View) (s : Source) : Except EditError Source := do
  let nested := node.mentions.filter fun m => m.standalone && (v.innermost? m.line).isSome
  -- A line that defines the node moves rather than one that only names it.
  match (nested.find? (·.defines)).or nested.head? with
  | none => .error (.nodeNotMovable node.id)
  | some moved =>
    let text := Text.trim (← lineAt moved.line s)
    let s := s.deleteLineSet (nested.map (·.line))
    insertLines (v.declarationLine.elim 0 (· + 1)) [bodyIndent v.declarationLine s ++ text] s

/-- The flowchart with a node in another subgraph, or in none. -/
def moveNode (id : Text) (into : Option Text) (s : Source) : Except EditError Edited := do
  let v := View.ofSource s
  let node ← requireNode v id
  let s ← match into with
    | some target => moveInto node target v s
    | none => moveOut node v s
  return ⟨s, some (.node id)⟩

end DiagramEditor.Edit.Flowchart
