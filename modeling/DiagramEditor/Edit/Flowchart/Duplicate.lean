import DiagramEditor.Edit.Flowchart.Add
import DiagramEditor.Flowchart.Reference

/-!
# Duplicating in a flowchart

The copy of a node is written right below the line that carries its text, and the copies of the
directives about it right below each of them.

The copy of a subgraph is the block of its lines, written right below it with other ids: the
subgraphs that start inside and the nodes that are first mentioned inside get new ones, and all
other ids stay. Directives about these ids that stand outside of the block are copied to the end
of the source.
-/

namespace DiagramEditor.Edit.Flowchart

open DiagramEditor.Flowchart

/-- The text of a node with a class name behind it, if there is one. -/
def withClass (text : Text) : Option Text → Text
  | none => text
  | some name => text ++ NodeToken.classMark ++ name

/-- The class name behind the first of the node's mentions on the line. -/
def classSuffixOn (line : Nat) (text : Text) (n : NodeRecord) : Option Text :=
  ((n.mentions.filter (·.line = line)).findSome? fun m =>
    (NodeToken.scan? (text.drop m.start)).map Prod.fst).bind (·.classSuffix)

/-- The style directives of `id`, each written for `copy` and with its line. -/
def copiedStyles (id copy : Text) (v : View) (s : Source) :
    Except EditError (List (Nat × Text)) :=
  (v.styles.filter (·.2.target = id)).mapM fun (i, d) => do
    let line ← lineAt i s
    return (i, NodeStyle.render (Text.indent line) { d with target := copy })

/-- The `class` directives that name `id`, each written for `copy` and with its line. -/
def copiedClasses (id copy : Text) (v : View) (s : Source) :
    Except EditError (List (Nat × Text)) :=
  (v.classes.filter (·.2.ids.contains id)).mapM fun (i, d) => do
    let line ← lineAt i s
    return (i, ClassUse.render (Text.indent line) { d with ids := [copy] })

/-- The source with each text written right below its line, the lowest first. -/
def insertBelow (inserts : List (Nat × Text)) (s : Source) : Except EditError Source :=
  (inserts.mergeSort fun a b => b.1 ≤ a.1).foldlM (fun s (i, text) => insertLines (i + 1) [text] s) s

/-- The flowchart with a copy of a node. -/
def duplicateNode (id : Text) (s : Source) : Except EditError Edited := do
  let v := View.ofSource s
  let node ← requireNode v id
  let anchor ← match node.anchorLine? with
    | some line => .ok line
    | none => .error (.nodeNotFound id)
  -- Subgraphs count as well, so the copy meets no other object.
  let copy := Fresh.suffixed id v.ids
  let anchorText ← lineAt anchor s
  let definition := node.definition.getD (.classic .rect node.label)
  let text := Text.indent anchorText ++
    withClass (definition.render copy) (classSuffixOn anchor anchorText node)
  let styles ← copiedStyles id copy v s
  let classes ← copiedClasses id copy v s
  return ⟨← insertBelow ((anchor, text) :: styles ++ classes) s, some (.node copy)⟩

/-! ## Subgraphs -/

/-- New ids for old ones. -/
abbrev Renaming := List (Text × Text)

namespace Renaming

/-- The renaming with a new id for `old`, in place of the one it may have. -/
def insert (old new : Text) : Renaming → Renaming
  | [] => [(old, new)]
  | (k, v) :: rest => if k = old then (k, new) :: rest else (k, v) :: insert old new rest

/-- The ids that are in use: those of the flowchart and the new ones. -/
def taken (v : View) (map : Renaming) : List Text :=
  v.ids ++ map.map Prod.snd

/-- The renaming with a new id for a subgraph. A title that is no identifier gets a fresh id. -/
def addSubgraph (v : View) (state : Renaming × IdAllocator) (g : SubgraphRecord) :
    Renaming × IdAllocator :=
  let (map, ids) := state
  if (Identifier.checkNode g.id).isOk then
    (map.insert g.id (Fresh.suffixed g.id (map.taken v)), ids)
  else
    let (new, ids) := ids.freshSubgraph (map.taken v)
    (map.insert g.id new, ids)

/-- The renaming with a new id for a node. -/
def addNode (v : View) (map : Renaming) (n : NodeRecord) : Renaming :=
  map.insert n.id (Fresh.suffixed n.id (map.taken v))

/-- New ids for the subgraphs that start in the block and the nodes that are first mentioned in
it. -/
def ofBlock (v : View) (span : BlockSpan) (ids : IdAllocator) : Renaming × IdAllocator :=
  let (map, ids) := (v.subgraphs.filter fun g => span.contains g.span.start).foldl (addSubgraph v)
    ([], ids)
  -- The subgraphs have their new ids by now, and nodes keep clear of those too.
  ((v.nodes.filter fun n => n.mentions.head?.any fun m => span.contains m.line).foldl (addNode v)
    map, ids)

end Renaming

/-- The line with the new ids. A header is written anew. -/
def copyLine (map : Renaming) (line : Text) : Text :=
  match SubgraphHeader.ofLine? line with
  | some h => SubgraphHeader.render (Text.indent line) ((map.lookup h.id).getD h.id) h.label
  | none => renameIds map line

/-- The number that a line has after `count` lines were inserted behind the line `after`. -/
def shifted (after count line : Nat) : Nat :=
  if after < line then line + count else line

/-- The style directive copied to the end of the source, if its id has a new one. -/
def copyStyle (map : Renaming) (span : BlockSpan) (s : Source) (p : Nat × NodeStyle) :
    Except EditError Source :=
  match map.lookup p.2.target with
  | none => .ok s
  | some new => do
    -- The directive has moved down if it stands behind the block.
    let line ← lineAt (shifted span.stop span.length p.1) s
    return s.pushLine (NodeStyle.render (Text.indent line) { p.2 with target := new })

/-- The `class` directive copied to the end of the source for those of its ids that have new
ones. -/
def copyClass (map : Renaming) (span : BlockSpan) (s : Source) (p : Nat × ClassUse) :
    Except EditError Source :=
  let mapped := p.2.ids.filterMap fun id => map.lookup id
  if mapped.isEmpty then .ok s
  else do
    let line ← lineAt (shifted span.stop span.length p.1) s
    return s.pushLine (ClassUse.render (Text.indent line) { p.2 with ids := mapped })

/-- The source with a copy of the block under the new ids. -/
def writeCopy (g : SubgraphRecord) (map : Renaming) (v : View) (s : Source) :
    Except EditError Edited := do
  let lines := s.slice g.span.start g.span.length
  let s ← insertLines (g.span.stop + 1) (lines.map (copyLine map)) s
  let s ← (v.styles.filter fun p => !g.span.contains p.1).foldlM (copyStyle map g.span) s
  let s ← (v.classes.filter fun p => !g.span.contains p.1).foldlM (copyClass map g.span) s
  return ⟨s, some (.subgraph ((map.lookup g.id).getD []))⟩

/-- The flowchart with a copy of a subgraph. -/
def duplicateSubgraph (id : Text) (s : Source) (ids : IdAllocator) :
    Except EditError Edited × IdAllocator :=
  let v := View.ofSource s
  match requireSubgraph v id with
  | .error e => (.error e, ids)
  | .ok g =>
    let (map, ids) := Renaming.ofBlock v g.span ids
    (writeCopy g map v s, ids)

end DiagramEditor.Edit.Flowchart
