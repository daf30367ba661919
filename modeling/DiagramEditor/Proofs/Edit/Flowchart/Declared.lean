import DiagramEditor.Edit.Flowchart
import DiagramEditor.Proofs.Edit.Declared
import DiagramEditor.Proofs.Edit.Flowchart.Duplicate
import DiagramEditor.Proofs.Edit.Flowchart.Removal

/-!
# The declaration of a flowchart

The lines that a flowchart edit goes by are lines of statements, so they stand behind the
declaration, and no edit touches the declaration itself (`apply_declares`). A deletion may take
`click` lines out of the prelude; every other edit leaves the prelude as it is.
-/

namespace DiagramEditor.Edit.Flowchart

open DiagramEditor.Flowchart Text Source

variable {s : Source} {front : List Text} {line id : Text} {index i : Nat} {n : NodeRecord}

/-! ## Lines of the view -/

/-- The lines that the view remembers stand behind the declaration. -/
theorem isWithin_of_declares (h : Declares .flowchart front line s) :
    (View.ofSource s).IsWithin (front.length < ·) :=
  (View.isWithin_ofSource s).mono fun _ ⟨_, hmem⟩ => h.lt_of_mem_body hmem

theorem mem_nodes_of_requireNode (hn : requireNode (View.ofSource s) id = .ok n) :
    n ∈ (View.ofSource s).nodes :=
  List.mem_of_find?_eq_some (requireNode_eq_ok hn)

theorem mem_subgraphs_of_requireSubgraph {g : SubgraphRecord}
    (hg : requireSubgraph (View.ofSource s) id = .ok g) : g ∈ (View.ofSource s).subgraphs :=
  List.mem_of_find?_eq_some (requireSubgraph_eq_ok hg)

theorem mem_links_of_requireLink {r : LinkRecord}
    (hr : requireLink (View.ofSource s) index = .ok r) : r ∈ (View.ofSource s).links :=
  List.mem_of_getElem? (requireLink_eq_ok hr)

/-! ## Adding -/

theorem writeNode_declares {shape : NodeShape} {label : Text} (h : Declares .flowchart front line s) :
    LeavesDeclared .flowchart front line (writeNode id shape label s) := by
  rw [writeNode, View.declarationLine_ofSource, ensureDeclaration_of_declares h]
  exact .ok (pushLine_declares h _)

theorem addNode_declares {shape : NodeShape} {label : Text} (h : Declares .flowchart front line s)
    (id : Option Text) (ids : IdAllocator) :
    LeavesDeclared .flowchart front line (addNode id shape label s ids).1 := by
  cases id with
  | some id => exact .after fun _ _ => writeNode_declares h
  | none => exact writeNode_declares h

theorem addEdge_declares {source target : Text} {text : Option Text}
    (h : Declares .flowchart front line s) :
    LeavesDeclared .flowchart front line (addEdge source target text s) :=
  .after fun _ _ => .after fun _ _ => .ok (pushLine_declares h _)

theorem writeSubgraph_declares {label : Text} (h : Declares .flowchart front line s) :
    LeavesDeclared .flowchart front line (writeSubgraph id label s) := by
  rw [writeSubgraph, View.declarationLine_ofSource, ensureDeclaration_of_declares h]
  exact .ok (pushLine_declares (pushLine_declares h _) _)

theorem addSubgraph_declares {label : Text} (h : Declares .flowchart front line s)
    (id : Option Text) (ids : IdAllocator) :
    LeavesDeclared .flowchart front line (addSubgraph id label s ids).1 := by
  cases id with
  | some id => exact .after fun _ _ => writeSubgraph_declares h
  | none => exact writeSubgraph_declares h

/-! ## Deleting -/

theorem restoreDefinitions_declares {nodes : List NodeRecord} (h : Declares .flowchart front line s) :
    Ensures (restoreDefinitions nodes s) (Declares .flowchart front line) := by
  rw [restoreDefinitions, View.declarationLine_ofSource, h.declarationOf?]
  split
  · exact .ok h
  · exact insertLines_declares h (Nat.lt_succ_self _)

theorem restoreMember_declares (h : Declares .flowchart front line s) (subgraph : Text) :
    Ensures (restoreMember id s subgraph) (Declares .flowchart front line) := by
  rw [restoreMember]
  split
  · exact .ok h
  · next g hg =>
    have hg : g ∈ (View.ofSource s).subgraphs := List.mem_of_find?_eq_some hg
    split
    · exact .ok h
    · exact .after fun _ _ => insertLines_declares h ((isWithin_of_declares h).subgraphs g hg).2

theorem restoreMembership_declares {before : View} {nodes : List NodeRecord}
    (h : Declares .flowchart front line s) :
    Ensures (restoreMembership before nodes s) (Declares .flowchart front line) :=
  .foldlM h fun _ _ _ hs => .foldlM hs fun g _ _ hs => restoreMember_declares hs g

theorem deleteCascade_declares {targets : List Text} {extra : List Nat}
    (h : Declares .flowchart front line s) (hextra : ∀ i ∈ extra, front.length < i) :
    Ensures (deleteCascade targets extra (View.ofSource s) s) fun s' =>
      ∃ front', front'.Sublist front ∧ Declares .flowchart front' line s' := by
  obtain ⟨body, hdecl⟩ := h
  refine .after fun removal hplan => .after fun removed happly => ?_
  -- Lines of front matter may go, and what is restored later on goes behind the declaration again.
  obtain ⟨front', hfront, hremoved⟩ := isDeclared_apply hdecl hextra hplan happly
  refine .bind (restoreDefinitions_declares hremoved.declares) fun defined hdefined => ?_
  exact (restoreMembership_declares hdefined).mono fun _ hs => ⟨front', hfront, hs⟩

theorem deleteNode_declares (h : Declares .flowchart front line s) :
    LeavesDeclaration .flowchart front line (deleteNode id s) :=
  .after fun _ _ => (deleteCascade_declares h (List.forall_mem_nil _)).bind fun _ hs => .ok hs

theorem deleteEdge_declares (h : Declares .flowchart front line s) :
    LeavesDeclaration .flowchart front line (deleteEdge index s) := by
  refine .after fun r hr => (deleteCascade_declares h ?_).bind fun _ hs => .ok hs
  exact List.forall_mem_singleton.2 ((isWithin_of_declares h).links _ (mem_links_of_requireLink hr))

theorem start_le_of_mem_blockLines {b : BlockSpan} (hi : i ∈ blockLines b) : b.start ≤ i := by
  obtain ⟨k, -, rfl⟩ := List.mem_map.1 hi
  exact Nat.le_add_right ..

theorem deleteSubgraph_declares (h : Declares .flowchart front line s) (mode : SubgraphDeleteMode) :
    LeavesDeclaration .flowchart front line (deleteSubgraph id mode s) := by
  refine .after fun g hg => ?_
  obtain ⟨hstart, hstop⟩ := (isWithin_of_declares h).subgraphs g (mem_subgraphs_of_requireSubgraph hg)
  cases mode with
  | containerOnly =>
    have hextra : ∀ i ∈ [g.span.start, g.span.stop], front.length < i :=
      List.forall_mem_cons.2 ⟨hstart, List.forall_mem_singleton.2 hstop⟩
    exact (deleteCascade_declares h hextra).bind fun _ hs => .ok hs
  | everything =>
    have hextra : ∀ i ∈ blockLines g.span, front.length < i := fun _ hi =>
      Nat.lt_of_lt_of_le hstart (start_le_of_mem_blockLines hi)
    exact (deleteCascade_declares h hextra).bind fun _ hs => .ok hs

/-! ## Duplicating -/

theorem insertBelow_declares {inserts : List (Nat × Text)} (h : Declares .flowchart front line s)
    (hinserts : ∀ p ∈ inserts, front.length < p.1) :
    Ensures (insertBelow inserts s) (Declares .flowchart front line) :=
  .foldlM h fun p hp _ hs =>
    insertLines_declares hs (Nat.lt_succ_of_lt (hinserts p (List.mem_mergeSort.1 hp)))

theorem copiedStyles_behind {copy : Text} (h : Declares .flowchart front line s) :
    Ensures (copiedStyles id copy (View.ofSource s) s) fun out => ∀ p ∈ out, front.length < p.1 :=
  .mapM fun _ hp => .after fun _ _ => .ok ((isWithin_of_declares h).styles _ (List.mem_filter.1 hp).1)

theorem copiedClasses_behind {copy : Text} (h : Declares .flowchart front line s) :
    Ensures (copiedClasses id copy (View.ofSource s) s) fun out => ∀ p ∈ out, front.length < p.1 :=
  .mapM fun _ hp => .after fun _ _ => .ok ((isWithin_of_declares h).classes _ (List.mem_filter.1 hp).1)

theorem duplicateNode_declares (h : Declares .flowchart front line s) :
    LeavesDeclared .flowchart front line (duplicateNode id s) := by
  refine .after fun n hn => ?_
  have hn := mem_nodes_of_requireNode hn
  cases hanchor : n.anchorLine? with
  | none => exact .after fun _ hnone => nomatch hnone
  | some anchor =>
    obtain ⟨m, hm, rfl⟩ := exists_mention_of_anchorLine? hn hanchor
    refine .after fun anchor hok => .after fun _ _ => ?_
    cases hok
    refine (copiedStyles_behind h).bind fun styles hstyles => ?_
    refine (copiedClasses_behind h).bind fun classes hclasses => ?_
    refine .bind (insertBelow_declares h ?_) fun _ hs => .ok hs
    exact List.forall_mem_append.2
      ⟨List.forall_mem_cons.2 ⟨(isWithin_of_declares h).mentions n hn m hm, hstyles⟩, hclasses⟩

theorem copyStyle_declares {map : Renaming} {span : BlockSpan} {p : Nat × NodeStyle}
    (h : Declares .flowchart front line s) :
    Ensures (copyStyle map span s p) (Declares .flowchart front line) := by
  rw [copyStyle]
  split
  · exact .ok h
  · exact .after fun _ _ => .ok (pushLine_declares h _)

theorem copyClass_declares {map : Renaming} {span : BlockSpan} {p : Nat × ClassUse}
    (h : Declares .flowchart front line s) :
    Ensures (copyClass map span s p) (Declares .flowchart front line) := by
  rw [copyClass]
  split
  · exact .ok h
  · exact .after fun _ _ => .ok (pushLine_declares h _)

theorem duplicateSubgraph_declares (h : Declares .flowchart front line s) (ids : IdAllocator) :
    LeavesDeclared .flowchart front line (duplicateSubgraph id s ids).1 := by
  rw [duplicateSubgraph]
  split
  · exact .error _
  · next g hg =>
    have hstop := ((isWithin_of_declares h).subgraphs g (mem_subgraphs_of_requireSubgraph hg)).2
    refine (insertLines_declares h (Nat.lt_succ_of_lt hstop)).bind fun s hs => ?_
    refine .bind (.foldlM hs fun _ _ _ => copyStyle_declares) fun s hs => ?_
    exact .bind (.foldlM hs fun _ _ _ => copyClass_declares) fun s hs => .ok hs

/-! ## Moving -/

theorem moveInto_declares {target : Text} (h : Declares .flowchart front line s)
    (hn : n ∈ (View.ofSource s).nodes) :
    Ensures (moveInto n target (View.ofSource s) s) (Declares .flowchart front line) := by
  refine .after fun g hg => .after fun _ _ => ?_
  have hstop := ((isWithin_of_declares h).subgraphs g (mem_subgraphs_of_requireSubgraph hg)).2
  dsimp only
  split
  · exact insertLines_declares h hstop
  · next own hown =>
    obtain ⟨m, hm, -, rfl⟩ := exists_mention_of_standaloneLine? hown
    have hlt := (isWithin_of_declares h).mentions n hn m hm
    split
    · exact .ok h
    · -- If the line was above the end of the block, this end has moved up by one.
      refine .after fun _ _ => (deleteLines_declares h hlt).bind fun s hs => ?_
      refine insertLines_declares hs ?_
      split
      · omega
      · exact hstop

theorem moveOut_declares (h : Declares .flowchart front line s) (hn : n ∈ (View.ofSource s).nodes) :
    Ensures (moveOut n (View.ofSource s) s) (Declares .flowchart front line) := by
  rw [moveOut]
  dsimp only
  split
  · exact .error _
  · rw [View.declarationLine_ofSource, h.declarationOf?]
    refine .after fun _ _ => insertLines_declares (deleteLineSet_declares h fun i hi => ?_)
      (Nat.lt_succ_self _)
    obtain ⟨m, hm, rfl⟩ := List.mem_map.1 hi
    exact (isWithin_of_declares h).mentions n hn m (List.mem_filter.1 hm).1

theorem moveNode_declares (h : Declares .flowchart front line s) (into : Option Text) :
    LeavesDeclared .flowchart front line (moveNode id into s) := by
  refine .after fun n hn => ?_
  have hn := mem_nodes_of_requireNode hn
  cases into with
  | some target => exact (moveInto_declares h hn).bind fun _ hs => .ok hs
  | none => exact (moveOut_declares h hn).bind fun _ hs => .ok hs

/-! ## Labels and shapes -/

theorem redefinedMentions_subset (n : NodeRecord) : redefinedMentions n ⊆ n.mentions := by
  intro m hm
  rw [redefinedMentions] at hm
  have hm := List.mem_mergeSort.1 hm
  split at hm
  · exact List.mem_of_mem_take hm
  · exact (List.mem_filter.1 hm).1

theorem redefine_declares {rebuild : Option NodeDefinition → NodeDefinition}
    (h : Declares .flowchart front line s) :
    LeavesDeclared .flowchart front line (redefine id rebuild s) := by
  -- The mentions are those of the old view; a replacement moves no line, so their numbers hold.
  refine .after fun n hn => .bind (.foldlM h fun m hm s' hs => ?_) fun s hs => .ok hs
  have hlt := (isWithin_of_declares h).mentions n (mem_nodes_of_requireNode hn) m
    (redefinedMentions_subset n hm)
  refine .after fun _ _ => ?_
  split
  · exact replaceLine_declares hs hlt
  · exact .error _

theorem setNodeShape_declares {shape : NodeShape} (h : Declares .flowchart front line s) :
    LeavesDeclared .flowchart front line (setNodeShape id shape s) :=
  .after fun _ _ => redefine_declares h

theorem editSubgraphLabel_declares {label : Text} (h : Declares .flowchart front line s) :
    LeavesDeclared .flowchart front line (editSubgraphLabel id label s) := by
  refine .after fun g hg => .after fun _ _ => ?_
  have hstart := ((isWithin_of_declares h).subgraphs g (mem_subgraphs_of_requireSubgraph hg)).1
  exact (replaceLine_declares h hstart).bind fun _ hs => .ok hs

/-! ## Links -/

theorem relink_declares {r : LinkRecord} {c : Connector} (h : Declares .flowchart front line s)
    (hr : r ∈ (View.ofSource s).links) : LeavesDeclared .flowchart front line (relink r c s) :=
  (replaceLine_declares h ((isWithin_of_declares h).links r hr)).bind fun _ hs => .ok hs

theorem setEdgeArrow_declares {arrow : Arrow} (h : Declares .flowchart front line s) :
    LeavesDeclared .flowchart front line (setEdgeArrow index arrow s) := by
  refine .after fun r hr => ?_
  split
  · exact .after fun _ h => nomatch h
  · exact relink_declares h (mem_links_of_requireLink hr)

theorem setEdgeText_declares {text : Option Text} (h : Declares .flowchart front line s) :
    LeavesDeclared .flowchart front line (setEdgeText index text s) := by
  refine .after fun r hr => ?_
  split
  · exact relink_declares h (mem_links_of_requireLink hr)
  · exact relink_declares h (mem_links_of_requireLink hr)

theorem swapEdge_declares (h : Declares .flowchart front line s) :
    LeavesDeclared .flowchart front line (swapEdge index s) := by
  refine .after fun r hr => ?_
  have hlt := (isWithin_of_declares h).links r (mem_links_of_requireLink hr)
  exact (replaceLine_declares h hlt).bind fun _ hs => .ok hs

/-! ## Styles and classes -/

theorem setProperty_declares {existing : Option (Nat × Properties)}
    {render : (indent : Text) → Properties → Text} {key : Text} {value : Option Text} {v : View}
    (h : Declares .flowchart front line s) (hexisting : ∀ p ∈ existing, front.length < p.1) :
    Ensures (setProperty existing render key value v s) (Declares .flowchart front line) := by
  cases existing with
  | some p =>
    have hlt := hexisting p rfl
    rw [setProperty]
    dsimp only
    split
    · exact deleteLines_declares h hlt
    · exact .after fun _ _ => replaceLine_declares h hlt
  | none =>
    rw [setProperty]
    split
    · exact .ok h
    · exact .ok (pushLine_declares h _)

theorem setNodeStyle_declares {key : Text} {value : Option Text}
    (h : Declares .flowchart front line s) :
    LeavesDeclared .flowchart front line (setNodeStyle id key value s) := by
  refine .after fun _ _ => (setProperty_declares h fun p hp => ?_).bind fun _ hs => .ok hs
  obtain ⟨q, hq, rfl⟩ := Option.map_eq_some_iff.1 hp
  exact (isWithin_of_declares h).styles q (List.mem_of_find?_eq_some hq)

theorem setLinkStyle_declares {key : Text} {value : Option Text}
    (h : Declares .flowchart front line s) :
    LeavesDeclared .flowchart front line (setLinkStyle index key value s) := by
  refine .after fun _ _ => (setProperty_declares h fun p hp => ?_).bind fun _ hs => .ok hs
  obtain ⟨q, hq, rfl⟩ := Option.map_eq_some_iff.1 hp
  exact (isWithin_of_declares h).linkStyles q (List.mem_of_find?_eq_some hq)

theorem setClassStyle_declares {key : Text} {value : Option Text}
    (h : Declares .flowchart front line s) :
    LeavesDeclared .flowchart front line (setClassStyle id key value s) := by
  refine .after fun _ _ => (setProperty_declares h fun p hp => ?_).bind fun _ hs => .ok hs
  obtain ⟨q, hq, rfl⟩ := Option.map_eq_some_iff.1 hp
  exact (isWithin_of_declares h).classDefs q (List.mem_of_find?_eq_some hq)

theorem applyClass_declares (h : Declares .flowchart front line s) (ids : List Text)
    (className : Text) : LeavesDeclared .flowchart front line (applyClass ids className s) := by
  refine .after fun _ _ => .after fun _ _ => ?_
  split
  · exact .ok h
  · exact .ok (pushLine_declares h _)

/-! ## All edits -/

/-- Every edit of a flowchart leaves the declaration the first line of content. -/
theorem apply_declares (h : Declares .flowchart front line s) (op : FlowchartOp) (ids : IdAllocator) :
    LeavesDeclaration .flowchart front line (apply op s ids).1 := by
  cases op with
  | addNode id => exact (addNode_declares h id ids).leavesDeclaration
  | addEdge => exact (addEdge_declares h).leavesDeclaration
  | addSubgraph id => exact (addSubgraph_declares h id ids).leavesDeclaration
  | deleteNode => exact deleteNode_declares h
  | deleteEdge => exact deleteEdge_declares h
  | deleteSubgraph id mode => exact deleteSubgraph_declares h mode
  | duplicateNode => exact (duplicateNode_declares h).leavesDeclaration
  | duplicateSubgraph => exact (duplicateSubgraph_declares h ids).leavesDeclaration
  | moveNode id into => exact (moveNode_declares h into).leavesDeclaration
  | editLabel => exact (redefine_declares h).leavesDeclaration
  | editSubgraphLabel => exact (editSubgraphLabel_declares h).leavesDeclaration
  | setNodeShape => exact (setNodeShape_declares h).leavesDeclaration
  | setNodeStyle => exact (setNodeStyle_declares h).leavesDeclaration
  | setLinkStyle => exact (setLinkStyle_declares h).leavesDeclaration
  | setEdgeArrow => exact (setEdgeArrow_declares h).leavesDeclaration
  | setEdgeText => exact (setEdgeText_declares h).leavesDeclaration
  | swapEdge => exact (swapEdge_declares h).leavesDeclaration
  | applyClass targets className => exact (applyClass_declares h targets className).leavesDeclaration
  | setClassStyle => exact (setClassStyle_declares h).leavesDeclaration

end DiagramEditor.Edit.Flowchart
