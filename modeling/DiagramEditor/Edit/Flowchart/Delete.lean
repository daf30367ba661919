import DiagramEditor.Edit.Flowchart.Add
import DiagramEditor.Edit.Op
import DiagramEditor.Flowchart.Reference

/-!
# Deleting from a flowchart

Deleting some ids and some lines (`deleteCascade`) takes away every line that is about one of the
ids: the lines that hold it alone, its links, its styles and its clicks. An id is struck from the
`class` lines that name it, and the links that stay get new numbers in the `linkStyle` lines, since
those name links by position.

What stays may have lost something with those lines, and is mended in two phases. A neighbor whose
only definition is gone is defined anew, right below the declaration, as it was before. A neighbor
that dropped out of a subgraph is mentioned there again, at its end.
-/

namespace DiagramEditor.Edit.Flowchart

open DiagramEditor.Flowchart

/-- The line is a `click` line for one of the ids. -/
def isClickOn (targets : List Text) (line : Text) : Bool :=
  Text.startsWith "click ".toList (Text.trimStart line) &&
    match IdReference.ofLine line with
    | [] => false
    | r :: _ => targets.contains r.id

/-- The lines that are about one of the ids and go with it, `class` and `linkStyle` lines apart. -/
def linesAbout (targets : List Text) (v : View) (s : Source) : List Nat :=
  (v.nodes.filter fun n => targets.contains n.id).flatMap (fun n =>
      (n.mentions.filter (·.standalone)).map (·.line)) ++
    (v.links.filter fun r => targets.contains r.link.source.id ||
      targets.contains r.link.target.id).map (·.line) ++
    (v.styles.filter fun p => targets.contains p.2.target).map Prod.fst ++
    ((s.numberedFrom 0).filter fun p => isClickOn targets p.2).map Prod.fst

/-- What becomes of a directive line. -/
inductive Fate where
  | keep
  | remove
  | change (text : Text)
deriving DecidableEq, Repr

/-- The new text of the line, if it has one. -/
def Fate.text? : Fate → Option Text
  | change text => some text
  | _ => none

/-- A `class` line without the deleted ids. -/
def classFate (targets : List Text) (indent : Text) (d : ClassUse) : Fate :=
  let kept := d.ids.filter fun id => !targets.contains id
  if kept.isEmpty then .remove
  else if kept.length = d.ids.length then .keep
  else .change (ClassUse.render indent { d with ids := kept })

/-- The position of a link that stays, once the links at the `removed` positions are gone. -/
def renumber (removed : List Nat) (index : Nat) : Nat :=
  index - (removed.filter (· < index)).length

/-- A `linkStyle` line without the deleted links, the others at their new positions. -/
def linkStyleFate (removed : List Nat) (indent : Text) (d : LinkStyle) : Fate :=
  match d.target with
  | .default => .keep
  | .indices positions =>
    let kept := (positions.filter fun i => !removed.contains i).map (renumber removed)
    if kept.isEmpty then .remove
    else if kept = positions then .keep
    else .change (LinkStyle.render indent kept d.properties)

/-- The fates of directives, each on its line. -/
def fates {α : Type} (fate : (indent : Text) → α → Fate) (s : Source) (ds : List (Nat × α)) :
    Except EditError (List (Nat × Fate)) :=
  ds.mapM fun (i, d) => (lineAt i s).map fun line => (i, fate (Text.indent line) d)

/-- The lines that go and the lines that change. -/
structure Removal where
  lines : List Nat
  changes : List (Nat × Text)
deriving DecidableEq, Repr

/-- What deleting the ids and the extra lines does to the lines of the source. -/
def Removal.plan (targets : List Text) (extra : List Nat) (v : View) (s : Source) :
    Except EditError Removal := do
  let classes ← fates (classFate targets) s v.classes
  let lines := extra ++ linesAbout targets v s ++
    (classes.filter fun p => p.2 = .remove).map Prod.fst
  -- The `linkStyle` lines come last, since they count the links on the other lines that go.
  let removedLinks := (v.links.filter fun r => lines.contains r.line).map (·.index)
  let linkStyles ← fates (linkStyleFate removedLinks) s
    (v.linkStyles.filter fun p => !lines.contains p.1)
  let lines := lines ++ (linkStyles.filter fun p => p.2 = .remove).map Prod.fst
  -- A line that goes for another reason is not written anew before.
  let changes := (classes ++ linkStyles).filterMap fun (i, fate) =>
    if lines.contains i then none else fate.text?.map fun text => (i, text)
  return ⟨lines, changes⟩

/-- The source after the lines have gone and changed. -/
def Removal.apply (r : Removal) (s : Source) : Except EditError Source := do
  let s ← r.changes.foldlM (fun s (i, text) => replaceLine i text s) s
  return s.deleteLineSet r.lines

/-- The nodes that lose a mention with the lines and are not deleted themselves. -/
def neighbors (targets : List Text) (lines : List Nat) (v : View) : List NodeRecord :=
  v.nodes.filter fun n => !targets.contains n.id && n.mentions.any fun m => lines.contains m.line

/-- The source with the definitions of those of the nodes that have lost theirs. -/
def restoreDefinitions (nodes : List NodeRecord) (s : Source) : Except EditError Source :=
  let after := View.ofSource s
  let indent := bodyIndent after.declarationLine s
  let lines := nodes.filterMap fun n => do
    let definition ← n.definition
    -- A poorer definition that is still there is kept.
    guard !((after.node? n.id).any (·.definition.isSome))
    return indent ++ definition.render n.id
  if lines.isEmpty then .ok s else insertLines (after.declarationLine.elim 0 (· + 1)) lines s

/-- The source with `id` mentioned at the end of the subgraph, unless it is a member or the
subgraph is gone. -/
def restoreMember (id : Text) (s : Source) (subgraph : Text) : Except EditError Source :=
  match (View.ofSource s).subgraph? subgraph with
  | none => .ok s
  | some g =>
    if g.members.contains id then .ok s
    else do
      let endLine ← lineAt g.span.stop s
      insertLines g.span.stop [Text.indent endLine ++ indentStep ++ id] s

/-- The source with each of the nodes mentioned in the subgraphs that it was a member of. -/
def restoreMembership (before : View) (nodes : List NodeRecord) (s : Source) :
    Except EditError Source :=
  nodes.foldlM (fun s n =>
    ((before.subgraphs.filter fun g => g.members.contains n.id).map (·.id)).foldlM
      (restoreMember n.id) s) s

/-- The source without the ids and the extra lines, and with the neighbors mended. -/
def deleteCascade (targets : List Text) (extra : List Nat) (v : View) (s : Source) :
    Except EditError Source := do
  let removal ← Removal.plan targets extra v s
  let nodes := neighbors targets removal.lines v
  let s ← removal.apply s
  -- The lines have moved, so both phases read the source anew.
  let s ← restoreDefinitions nodes s
  restoreMembership v nodes s

/-- The flowchart without a node. -/
def deleteNode (id : Text) (s : Source) : Except EditError Edited := do
  let v := View.ofSource s
  let _ ← requireNode v id
  return { source := ← deleteCascade [id] [] v s }

/-- The flowchart without a link. -/
def deleteEdge (index : Nat) (s : Source) : Except EditError Edited := do
  let v := View.ofSource s
  let record ← requireLink v index
  return { source := ← deleteCascade [] [record.line] v s }

/-- The numbers of the lines of a block. -/
def blockLines (b : BlockSpan) : List Nat :=
  (List.range b.length).map (b.start + ·)

/-- The flowchart without a subgraph. With everything inside, the nodes go whose text is inside and
the subgraphs that start inside; a link into the block goes with its line, but not the node outside
that it starts at. -/
def deleteSubgraph (id : Text) (mode : SubgraphDeleteMode) (s : Source) :
    Except EditError Edited := do
  let v := View.ofSource s
  let g ← requireSubgraph v id
  match mode with
  | .containerOnly =>
    return { source := ← deleteCascade [g.id] [g.span.start, g.span.stop] v s }
  | .everything =>
    let nodes := (v.nodes.filter fun n => n.anchorLine?.any g.span.contains).map (·.id)
    let nested := (v.subgraphs.filter fun sg => g.span.contains sg.span.start).map (·.id)
    return { source := ← deleteCascade (nodes ++ nested) (blockLines g.span) v s }

end DiagramEditor.Edit.Flowchart
