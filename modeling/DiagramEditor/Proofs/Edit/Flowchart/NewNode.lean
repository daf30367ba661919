import DiagramEditor.Proofs.Edit.Batch
import DiagramEditor.Proofs.Edit.Declared
import DiagramEditor.Proofs.Edit.Flowchart.Connect
import DiagramEditor.Proofs.Edit.Flowchart.Flat
import DiagramEditor.Proofs.Flowchart.Definition
import DiagramEditor.Proofs.Flowchart.Growth
import DiagramEditor.Proofs.Flowchart.Member
import DiagramEditor.Proofs.Identifier.Fresh

/-!
# Nodes that are added

A new node is a line at the end of the source, below a declaration that is put on top if there is none.
It is read as the node that was asked for, whatever its shape is and whatever label it has without the
entity that stands for a quote (`exists_writeNode`). So the view has this node behind all others and
is the same otherwise, if every subgraph is closed (`AddsNode`, `applyOps_addNode`). A subgraph that is
not closed reaches to the end of the source: it ends on the new line, and the innermost one takes the
node in.
-/

namespace DiagramEditor.Edit.Flowchart

open DiagramEditor.Flowchart Source Text
open NodeToken (IsIdent)

variable {s s₁ s' : Source} {x label w : Text} {shape : NodeShape} {ids ids' : IdAllocator}

/-! ## The line of a node -/

/-- The line of a node with a quoted label. -/
def classicLine (w x : Text) (shape : NodeShape) (label : Text) : NodeLine :=
  ⟨w, .written x (.classic shape label) none, []⟩

theorem ofLine?_classicLine (hw : IsBlank w) (hx : IsIdent x) (hlabel : ¬quoteEntity <:+: label)
    (shape : NodeShape) : NodeLine.ofLine? (w ++ (NodeDefinition.classic shape label).render x) =
      some (classicLine w x shape label) := by
  have hreads := (NodeDefinition.isFaithful_classic (unquote_quote hlabel) shape).readsBack
  have hnone : ∀ name ∈ (none : Option Text), NodeToken.IsClassName name := nofun
  have hread := NodeLine.ofLine?_render hreads hw hx hnone
  rwa [NodeToken.classText, List.append_nil] at hread

/-- A source with a declaration says the same, on the lines where it is then. -/
theorem statements_ground (h : IsGround .flowchart s s₁) :
    statements s₁ = (statements s).map (Prod.map (· + topLines .flowchart s) id) := by
  rw [statements, statements, h.body, List.map_map, List.map_map]
  rfl

/-- A node can always be written, and its line comes last. -/
theorem exists_writeNode (hx : IsIdent x) (hlabel : ¬quoteEntity <:+: label) (shape : NodeShape)
    (s : Source) : ∃ s' w, writeNode x shape label s = .ok ⟨s', some (.node x)⟩ ∧
      statements s' = (statements s).map (Prod.map (· + topLines .flowchart s) id) ++
        [(s.length + topLines .flowchart s, .node (classicLine w x shape label))] ∧
      s'.length = s.length + topLines .flowchart s + 1 ∧
      s'.declarationOf? .flowchart = some ((s.declarationOf? .flowchart).getD 0) ∧
      (isBalanced .flowchart s = true → isBalanced .flowchart s' = true) := by
  obtain ⟨s₁, hensure, hground⟩ := exists_ensureDeclaration .flowchart s
  obtain ⟨front, line, hdecl⟩ := exists_declares_of_declarationOf? hground.declaration
  have hw := isBlank_bodyIndent (some ((s.declarationOf? .flowchart).getD 0)) s₁
  generalize hwrite : bodyIndent (some ((s.declarationOf? .flowchart).getD 0)) s₁ = w at hw
  have hread := ofLine?_classicLine hw hx hlabel shape
  have hsame := (pushLine_declares hdecl (w ++ (NodeDefinition.classic shape label).render x)
    ).declarationOf?.trans hdecl.declarationOf?.symm
  refine ⟨s₁.pushLine _, w, ?_, ?_, ?_, hsame.trans hground.declaration, ?_⟩
  · rw [writeNode, View.declarationLine_ofSource, hensure, ← hwrite]
    rfl
  · rw [statements_pushLine hsame, Statement.ofLine_of_node hread, statements_ground hground,
      hground.length]
  · rw [← hground.length]
    exact List.length_append
  · rw [isBalanced_iff, isBalanced_iff]
    intro hbalance
    exact (checkBalance_pushLine (beginsWithNode_of_node hread).blockStep_eq s₁).trans
      (hground.balance hbalance)

/-! ## The edit -/

/-- The second source has one more node and is the first one otherwise, up to a declaration on top. The
subgraphs that no line closes end on the line of the node, and the innermost one has it as a member. -/
structure AddsNode (x : Text) (shape : NodeShape) (label : Text) (s s' : Source) : Prop where
  fresh : x ∉ (View.ofSource s).ids
  declaration : (View.ofSource s').declarationLine =
    some ((View.ofSource s).declarationLine.getD 0)
  nodes : ∃ start length, (View.ofSource s').nodes =
    (View.ofSource s).nodes.map (·.moved (· + topLines .flowchart s)) ++
      [{ id := x
         definition := some (.classic shape label)
         definitionLine := some (s.length + topLines .flowchart s)
         mentions := [⟨s.length + topLines .flowchart s, start, length, true, true⟩]
         subgraph := (openAtEnd s).head?.bind fun i => ((View.ofSource s).subgraphs[i]?).map (·.id) }]
  links : (View.ofSource s').links =
    (View.ofSource s).links.map (·.moved (· + topLines .flowchart s))
  subgraphs : (View.ofSource s').subgraphs =
    (View.ofSource s).subgraphs.mapIdx (SubgraphRecord.grown (· + topLines .flowchart s) (openAtEnd s)
      (s.length + topLines .flowchart s) x)
  closed : ClosesAll s → (View.ofSource s').subgraphs =
    (View.ofSource s).subgraphs.map (·.moved (· + topLines .flowchart s))
  styles : (View.ofSource s').styles =
    (View.ofSource s).styles.map (Prod.map (· + topLines .flowchart s) id)
  linkStyles : (View.ofSource s').linkStyles =
    (View.ofSource s).linkStyles.map (Prod.map (· + topLines .flowchart s) id)
  classes : (View.ofSource s').classes =
    (View.ofSource s).classes.map (Prod.map (· + topLines .flowchart s) id)
  classDefs : (View.ofSource s').classDefs =
    (View.ofSource s).classDefs.map (Prod.map (· + topLines .flowchart s) id)
  reloads : s.IsFlat → Text.IsFlat label → Reloads s'

/-- A new id is written as a new node. -/
theorem exists_addsNode (hx : IsIdent x) (hlabel : ¬quoteEntity <:+: label) (shape : NodeShape)
    (hnew : x ∉ (View.ofSource s).ids) : ∃ s', writeNode x shape label s = .ok ⟨s', some (.node x)⟩ ∧
      (isBalanced .flowchart s = true → isBalanced .flowchart s' = true) ∧
        AddsNode x shape label s s' := by
  obtain ⟨s', w, hwrite, hsts, hlength, hdecl, hbalance⟩ := exists_writeNode hx hlabel shape s
  have hsubgraphs := View.subgraphs_of_newNode hsts hlength hnew
  refine ⟨s', hwrite, hbalance, hnew, ?_, ⟨_, _, View.nodes_of_newNode hsts hnew⟩,
    View.links_of_newNode hsts, hsubgraphs, fun hcloses => ?_,
    View.isRead_styles.of_newNode hsts (fun _ => rfl) rfl,
    View.isRead_linkStyles.of_newNode hsts (fun _ => rfl) rfl,
    View.isRead_classes.of_newNode hsts (fun _ => rfl) rfl,
    View.isRead_classDefs.of_newNode hsts (fun _ => rfl) rfl, fun hs hflat => ?_⟩
  · rw [View.declarationLine_ofSource, View.declarationLine_ofSource, hdecl]
  · have hopen : openAtEnd s = [] := hcloses.openBlocks_eq_nil
    rw [hsubgraphs, hopen, List.mapIdx_eq_iff]
    intro i
    rw [List.getElem?_map]
    rfl
  · exact (writeNode_isFlat hs hx.isFlat hflat shape _ hwrite).reloads

/-- An id that is accepted and that is not in use is written. -/
theorem addNode_some_eq (hcheck : Identifier.checkNode x = .ok ()) (hnew : x ∉ (View.ofSource s).ids)
    (shape : NodeShape) (label : Text) (ids : IdAllocator) :
    addNode (some x) shape label s ids = (writeNode x shape label s, ids) := by
  have hrequire : requireNewId (View.ofSource s) x = .ok () := by
    simp [requireNewId, requireIdentifier_eq_ok_iff.2 hcheck, View.hasId, hnew, bind, Except.bind, pure,
      Except.pure]
  rw [addNode, hrequire]
  rfl

/-- An edit that writes a new node is accepted, and reports it. -/
theorem applyOps_of_addNode_eq {x? : Option Text} (hx : IsIdent x) (hlabel : ¬quoteEntity <:+: label)
    (hnew : x ∉ (View.ofSource s).ids)
    (hadd : addNode x? shape label s ids = (writeNode x shape label s, ids'))
    (earlier : Option Handle) :
    ∃ e, (applyOps .flowchart [.flowchart (.addNode x? shape label)] ⟨s, earlier⟩ ids).1 = .ok e ∧
      e.handle = some (.node x) ∧ AddsNode x shape label s e.source := by
  obtain ⟨s', hwrite, hbalance, hadds⟩ := exists_addsNode hx hlabel shape hnew
  have hop : applyOp .flowchart (.flowchart (.addNode x? shape label)) s ids =
      (.ok ⟨s', some (.node x)⟩, ids') := hadd.trans (congrArg (·, ids') hwrite)
  exact ⟨_, congrArg Prod.fst (applyOps_singleton_of_isBalanced hop hbalance earlier), rfl, hadds⟩

/-- To every source a node can be added that has an accepted and unused id, or one of the allocator as
long as there is a free one. The view has the new node behind the other ones, and only the subgraphs
that no line closes are different apart from it. -/
theorem applyOps_addNode (hlabel : ¬quoteEntity <:+: label) (shape : NodeShape) (s : Source)
    (earlier : Option Handle) (ids : IdAllocator) :
    (∀ x, Identifier.checkNode x = .ok () → x ∉ (View.ofSource s).ids →
      ∃ e, (applyOps .flowchart [.flowchart (.addNode (some x) shape label)] ⟨s, earlier⟩ ids).1 =
          .ok e ∧ e.handle = some (.node x) ∧ AddsNode x shape label s e.source) ∧
    ((∃ k, Fresh.next ids.nodes ≤ k ∧ k ≤ Fresh.lastSerial ∧
        Fresh.numberedName IdAllocator.nodeStem k ∉ (View.ofSource s).ids) →
      ∃ x e, (applyOps .flowchart [.flowchart (.addNode none shape label)] ⟨s, earlier⟩ ids).1 =
          .ok e ∧ e.handle = some (.node x) ∧ AddsNode x shape label s e.source) := by
  constructor
  · intro x hcheck hnew
    exact applyOps_of_addNode_eq (isIdent_of_checkNode hcheck) hlabel hnew
      (addNode_some_eq hcheck hnew shape label ids) earlier
  · intro hfree
    have hnew : (ids.freshNode (View.ofSource s).ids).1 ∉ (View.ofSource s).ids :=
      Fresh.firstFree_notMem_of_exists (Fresh.numberedName_injective _) (Nat.min_le_right _ _) hfree
    exact ⟨_, applyOps_of_addNode_eq (isIdent_freshNode _ ids) hlabel hnew rfl earlier⟩

/-- A source without a declaration, with a subgraph that no line closes, in which the first names of the
allocator are taken. -/
theorem applyOps_addNode_undeclared :
    let s : Source := .ofText "N1 --> N2\nsubgraph N3\nN1".toList
    let x : Text := "style_1".toList
    let label : Text := "] --> \"#quot".toList
    ¬quoteEntity <:+: label ∧ Identifier.checkNode x = .ok () ∧ x ∉ (View.ofSource s).ids ∧
      (∃ e, (applyOps .flowchart [.flowchart (.addNode (some x) .hexagon label)] ⟨s, none⟩ {}).1 =
          .ok e ∧ e.handle = some (.node x) ∧ AddsNode x .hexagon label s e.source) ∧
      (∃ k, Fresh.next 0 ≤ k ∧ k ≤ Fresh.lastSerial ∧
        Fresh.numberedName IdAllocator.nodeStem k ∉ (View.ofSource s).ids) ∧
      ∃ x e, (applyOps .flowchart [.flowchart (.addNode none .hexagon label)] ⟨s, none⟩ {}).1 =
          .ok e ∧ e.handle = some (.node x) ∧ AddsNode x .hexagon label s e.source := by
  intro s x label
  have hlabel : ¬quoteEntity <:+: label := by decide +kernel
  have hcheck : Identifier.checkNode x = .ok () := by decide +kernel
  have hnew : x ∉ (View.ofSource s).ids := by decide +kernel
  have hfree : ∃ k, Fresh.next 0 ≤ k ∧ k ≤ Fresh.lastSerial ∧
      Fresh.numberedName IdAllocator.nodeStem k ∉ (View.ofSource s).ids :=
    ⟨4, by decide, by decide, by decide +kernel⟩
  obtain ⟨hchosen, hallocated⟩ := applyOps_addNode hlabel .hexagon s none {}
  exact ⟨hlabel, hcheck, hnew, hchosen x hcheck hnew, hfree, hallocated hfree⟩

/-- The new line is the last one of a subgraph that no line closes, and the new node a member of it. -/
theorem not_applyOps_addNode :
    let s : Source := .ofText "flowchart TD\nsubgraph s\nA".toList
    let s' : Source := .ofText "flowchart TD\nsubgraph s\nA\nN[\"x\"]".toList
    ¬quoteEntity <:+: ['x'] ∧ Identifier.checkNode ['N'] = .ok () ∧ ['N'] ∉ (View.ofSource s).ids ∧
      s.declarationOf? .flowchart = some 0 ∧
      (applyOps .flowchart [.flowchart (.addNode (some ['N']) .rect ['x'])] ⟨s, none⟩ {}).1 =
        .ok ⟨s', some (.node ['N'])⟩ ∧
      (View.ofSource s).subgraphs = [⟨['s'], none, ⟨1, 2⟩, none, [['A']]⟩] ∧
      (View.ofSource s').subgraphs = [⟨['s'], none, ⟨1, 3⟩, none, [['A'], ['N']]⟩] := by
  decide +kernel

end DiagramEditor.Edit.Flowchart
