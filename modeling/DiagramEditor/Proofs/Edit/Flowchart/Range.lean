import DiagramEditor.Proofs.Edit.Flowchart.Declared
import DiagramEditor.Proofs.Edit.Range

/-!
# The lines of flowchart edits

Every line that a flowchart edit goes by is one that the view remembers, or is reckoned from one, and
it is there when the edit gets to it (`apply_inRange`). What the edit has inserted by then has only
moved lines down; what it has deleted is one line above the end of a block, whose number is taken
down by one (`moveInto_inRange`), or lines below the declaration, behind which the next one is
written (`moveOut_inRange`).
-/

namespace DiagramEditor.Edit.Flowchart

open DiagramEditor.Flowchart Text Source

variable {s : Source} {v : View} {id : Text} {index : Nat} {n : NodeRecord}

/-! ## What edits ask for -/

theorem requireId_inRange : InRange (requireId v id) := by
  rw [requireId]
  split
  exacts [.ok _, .error rfl]

theorem requireNewId_inRange : InRange (requireNewId v id) := by
  refine .bind requireIdentifier_inRange fun _ _ => ?_
  split
  exacts [.error rfl, .ok _]

theorem requireNode_inRange : InRange (requireNode v id) := by
  rw [requireNode]
  split
  exacts [.ok _, .error rfl]

theorem requireSubgraph_inRange : InRange (requireSubgraph v id) := by
  rw [requireSubgraph]
  split
  exacts [.ok _, .error rfl]

theorem requireLink_inRange : InRange (requireLink v index) := by
  rw [requireLink]
  split
  exacts [.ok _, .error rfl]

/-- The lines that the view remembers are there, below the declaration. -/
theorem isWithin_length (s : Source) :
    (View.ofSource s).IsWithin fun i => s.bodyIndex .flowchart ≤ i ∧ i < s.length :=
  (View.isWithin_ofSource s).mono fun _ => exists_mem_body_iff.1

/-- The line behind the declaration, or the first one. -/
theorem elim_declarationLine_le (s : Source) :
    (View.ofSource s).declarationLine.elim 0 (· + 1) ≤ s.length := by
  rw [View.declarationLine_ofSource]
  exact bodyIndex_le .flowchart s

/-! ## Adding -/

theorem writeNode_inRange {shape : NodeShape} {label : Text} :
    InRange (writeNode id shape label s) :=
  .bind ensureDeclaration_inRange fun _ _ => .ok _

theorem addNode_inRange {shape : NodeShape} {label : Text} (id : Option Text) (ids : IdAllocator) :
    InRange (addNode id shape label s ids).1 := by
  cases id with
  | some id => exact .bind requireNewId_inRange fun _ _ => writeNode_inRange
  | none => exact writeNode_inRange

theorem addEdge_inRange {source target : Text} {text : Option Text} :
    InRange (addEdge source target text s) :=
  .bind requireId_inRange fun _ _ => .bind requireId_inRange fun _ _ => .ok _

theorem writeSubgraph_inRange {label : Text} : InRange (writeSubgraph id label s) :=
  .bind ensureDeclaration_inRange fun _ _ => .ok _

theorem addSubgraph_inRange {label : Text} (id : Option Text) (ids : IdAllocator) :
    InRange (addSubgraph id label s ids).1 := by
  cases id with
  | some id => exact .bind requireNewId_inRange fun _ _ => writeSubgraph_inRange
  | none => exact writeSubgraph_inRange

/-! ## Deleting -/

theorem fates_inRange {α : Type} {fate : (indent : Text) → α → Fate} {ds : List (Nat × α)}
    (h : ∀ p ∈ ds, p.1 < s.length) : InRange (fates fate s ds) :=
  .mapM fun p hp => .map (lineAt_inRange (h p hp))

/-- The fate of a directive is decided on its line. -/
theorem lt_of_fates {α : Type} {fate : (indent : Text) → α → Fate} {ds : List (Nat × α)}
    (h : ∀ p ∈ ds, p.1 < s.length) : Ensures (fates fate s ds) fun out => ∀ p ∈ out, p.1 < s.length :=
  .mapM fun p hp => .map (P := fun _ => True) (fun _ _ => trivial) fun _ _ => h p hp

theorem plan_inRange (targets : List Text) (extra : List Nat) :
    InRange (Removal.plan targets extra (View.ofSource s) s) := by
  have hclasses : ∀ p ∈ (View.ofSource s).classes, p.1 < s.length :=
    fun p hp => ((isWithin_length s).classes p hp).2
  refine .bind (fates_inRange hclasses) fun _ _ => .bind (fates_inRange fun p hp => ?_) fun _ _ => .ok _
  exact ((isWithin_length s).linkStyles p (List.mem_filter.1 hp).1).2

/-- The lines that change are lines of directives. -/
theorem lt_of_mem_changes (targets : List Text) (extra : List Nat) :
    Ensures (Removal.plan targets extra (View.ofSource s) s) fun r =>
      ∀ p ∈ r.changes, p.1 < s.length := by
  have hclasses : ∀ p ∈ (View.ofSource s).classes, p.1 < s.length :=
    fun p hp => ((isWithin_length s).classes p hp).2
  refine .bind (lt_of_fates hclasses) fun classes hclasses => ?_
  refine .bind (lt_of_fates fun p hp => ?_) fun linkStyles hlinkStyles => .ok fun p hp => ?_
  · exact ((isWithin_length s).linkStyles p (List.mem_filter.1 hp).1).2
  · obtain ⟨q, hq, hchange⟩ := List.mem_filterMap.1 hp
    dsimp only at hchange
    split at hchange
    · cases hchange
    · obtain ⟨text, -, rfl⟩ := Option.map_eq_some_iff.1 hchange
      exact (List.mem_append.1 hq).elim (hclasses q) (hlinkStyles q)

theorem removalApply_inRange {r : Removal} (h : ∀ p ∈ r.changes, p.1 < s.length) :
    InRange (r.apply s) := by
  -- Changing a line moves no line, so the numbers of the later changes stay right.
  refine .bind (.foldlM (P := fun s' => s'.length = s.length) rfl fun p hp s' hs' => ?_)
    fun _ _ => .ok _
  exact ⟨replaceLine_inRange (hs' ▸ h p hp), fun _ h => (length_replaceLine h).trans hs'⟩

theorem restoreDefinitions_inRange {nodes : List NodeRecord} :
    InRange (restoreDefinitions nodes s) := by
  rw [restoreDefinitions]
  split
  · exact .ok _
  · exact insertLines_inRange (elim_declarationLine_le s)

theorem restoreMember_inRange {subgraph : Text} : InRange (restoreMember id s subgraph) := by
  rw [restoreMember]
  split
  · exact .ok _
  · next g hg =>
    have hstop := ((isWithin_length s).subgraphs g (List.mem_of_find?_eq_some hg)).2.2
    split
    · exact .ok _
    · exact .bind (lineAt_inRange hstop) fun _ _ => insertLines_inRange (Nat.le_of_lt hstop)

/-- Steps that are in range for any source. -/
theorem foldlM_inRange {α : Type} {f : Source → α → Except EditError Source} {l : List α}
    (hf : ∀ s a, InRange (f s a)) : InRange (l.foldlM f s) :=
  .foldlM (P := fun _ => True) trivial fun _ _ _ _ => ⟨hf _ _, fun _ _ => trivial⟩

theorem deleteCascade_inRange {targets : List Text} {extra : List Nat} :
    InRange (deleteCascade targets extra (View.ofSource s) s) := by
  refine .bind (plan_inRange targets extra) fun removal hplan => ?_
  refine .bind (removalApply_inRange (lt_of_mem_changes targets extra removal hplan)) fun _ _ => ?_
  refine .bind restoreDefinitions_inRange fun _ _ => foldlM_inRange fun _ _ => ?_
  exact foldlM_inRange fun _ _ => restoreMember_inRange

theorem deleteNode_inRange : InRange (deleteNode id s) :=
  .bind requireNode_inRange fun _ _ => .bind deleteCascade_inRange fun _ _ => .ok _

theorem deleteEdge_inRange : InRange (deleteEdge index s) :=
  .bind requireLink_inRange fun _ _ => .bind deleteCascade_inRange fun _ _ => .ok _

theorem deleteSubgraph_inRange (mode : SubgraphDeleteMode) : InRange (deleteSubgraph id mode s) := by
  refine .bind requireSubgraph_inRange fun g _ => ?_
  cases mode <;> exact .bind deleteCascade_inRange fun _ _ => .ok _

/-! ## Duplicating -/

theorem insertBelow_inRange {inserts : List (Nat × Text)} (h : ∀ p ∈ inserts, p.1 < s.length) :
    InRange (insertBelow inserts s) := by
  -- Each insertion leaves the lines above it and adds one, so no later slot falls out.
  refine .foldlM (P := fun s' => s.length ≤ s'.length) (Nat.le_refl _) fun p hp s' hs' => ?_
  have hlt := h p (List.mem_mergeSort.1 hp)
  refine ⟨insertLines_inRange (by omega), fun s'' hs'' => ?_⟩
  exact Nat.le_trans hs' (length_insertLines hs'' ▸ Nat.le_add_right ..)

theorem copiedStyles_inRange {copy : Text} : InRange (copiedStyles id copy (View.ofSource s) s) :=
  .mapM fun p hp =>
    .bind (lineAt_inRange ((isWithin_length s).styles p (List.mem_filter.1 hp).1).2) fun _ _ => .ok _

theorem copiedClasses_inRange {copy : Text} : InRange (copiedClasses id copy (View.ofSource s) s) :=
  .mapM fun p hp =>
    .bind (lineAt_inRange ((isWithin_length s).classes p (List.mem_filter.1 hp).1).2) fun _ _ => .ok _

theorem lt_of_copiedStyles {copy : Text} :
    Ensures (copiedStyles id copy (View.ofSource s) s) fun out => ∀ p ∈ out, p.1 < s.length :=
  .mapM fun p hp => .after fun _ _ => .ok ((isWithin_length s).styles p (List.mem_filter.1 hp).1).2

theorem lt_of_copiedClasses {copy : Text} :
    Ensures (copiedClasses id copy (View.ofSource s) s) fun out => ∀ p ∈ out, p.1 < s.length :=
  .mapM fun p hp => .after fun _ _ => .ok ((isWithin_length s).classes p (List.mem_filter.1 hp).1).2

theorem duplicateNode_inRange : InRange (duplicateNode id s) := by
  refine .bind requireNode_inRange fun n hn => ?_
  have hn := mem_nodes_of_requireNode hn
  cases hanchor : n.anchorLine? with
  | none => exact .bind (.error rfl) fun _ hnone => nomatch hnone
  | some anchor =>
    obtain ⟨m, hm, rfl⟩ := exists_mention_of_anchorLine? hn hanchor
    have hlt := ((isWithin_length s).mentions n hn m hm).2
    refine .bind (.ok _) fun anchor hok => ?_
    cases hok
    refine .bind (lineAt_inRange hlt) fun _ _ => ?_
    refine .bind copiedStyles_inRange fun styles hstyles => ?_
    refine .bind copiedClasses_inRange fun classes hclasses => ?_
    refine .bind (insertBelow_inRange ?_) fun _ _ => .ok _
    exact List.forall_mem_append.2 ⟨List.forall_mem_cons.2 ⟨hlt, lt_of_copiedStyles styles hstyles⟩,
      lt_of_copiedClasses classes hclasses⟩

theorem shifted_lt {after count line length : Nat} (h : line < length) :
    shifted after count line < length + count := by
  rw [shifted]
  split <;> omega

theorem copyStyle_inRange {map : Renaming} {span : BlockSpan} {p : Nat × NodeStyle}
    (h : shifted span.stop span.length p.1 < s.length) : InRange (copyStyle map span s p) := by
  rw [copyStyle]
  split
  · exact .ok _
  · exact .bind (lineAt_inRange h) fun _ _ => .ok _

theorem copyClass_inRange {map : Renaming} {span : BlockSpan} {p : Nat × ClassUse}
    (h : shifted span.stop span.length p.1 < s.length) : InRange (copyClass map span s p) := by
  rw [copyClass]
  dsimp only
  split
  · exact .ok _
  · exact .bind (lineAt_inRange h) fun _ _ => .ok _

theorem le_length_copyStyle {map : Renaming} {span : BlockSpan} {p : Nat × NodeStyle} {k : Nat}
    (h : k ≤ s.length) : Ensures (copyStyle map span s p) fun s' => k ≤ s'.length := by
  rw [copyStyle]
  split
  · exact .ok h
  · exact .after fun _ _ => .ok (length_pushLine .. ▸ Nat.le_succ_of_le h)

theorem le_length_copyClass {map : Renaming} {span : BlockSpan} {p : Nat × ClassUse} {k : Nat}
    (h : k ≤ s.length) : Ensures (copyClass map span s p) fun s' => k ≤ s'.length := by
  rw [copyClass]
  dsimp only
  split
  · exact .ok h
  · exact .after fun _ _ => .ok (length_pushLine .. ▸ Nat.le_succ_of_le h)

theorem writeCopy_inRange {g : SubgraphRecord} {map : Renaming}
    (hg : g ∈ (View.ofSource s).subgraphs) : InRange (writeCopy g map (View.ofSource s) s) := by
  obtain ⟨-, hle, hlt⟩ := View.spansWithin_ofSource s g hg
  refine .bind (insertLines_inRange (Nat.succ_le_of_lt hlt)) fun s₁ hs₁ => ?_
  -- The copy has as many lines as the block, by which the lines behind the block have moved.
  have hlength : s.length + g.span.length ≤ s₁.length := by
    rw [length_insertLines hs₁, List.length_map, Source.slice, List.length_take, List.length_drop]
    rw [Source.length] at hlt ⊢
    rw [BlockSpan.length]
    omega
  have hstyle : ∀ p ∈ (View.ofSource s).styles.filter fun p => !g.span.contains p.1,
      ∀ s', s.length + g.span.length ≤ s'.length → InRange (copyStyle map g.span s' p) ∧
        Ensures (copyStyle map g.span s' p) fun s'' => s.length + g.span.length ≤ s''.length :=
    fun p hp s' hs' =>
      ⟨copyStyle_inRange (Nat.lt_of_lt_of_le
        (shifted_lt ((isWithin_length s).styles p (List.mem_filter.1 hp).1).2) hs'),
        le_length_copyStyle hs'⟩
  have hclass : ∀ p ∈ (View.ofSource s).classes.filter fun p => !g.span.contains p.1,
      ∀ s', s.length + g.span.length ≤ s'.length → InRange (copyClass map g.span s' p) ∧
        Ensures (copyClass map g.span s' p) fun s'' => s.length + g.span.length ≤ s''.length :=
    fun p hp s' hs' =>
      ⟨copyClass_inRange (Nat.lt_of_lt_of_le
        (shifted_lt ((isWithin_length s).classes p (List.mem_filter.1 hp).1).2) hs'),
        le_length_copyClass hs'⟩
  refine .bind (.foldlM hlength hstyle) fun s₂ hs₂ => ?_
  have hlength : s.length + g.span.length ≤ s₂.length :=
    Ensures.foldlM (R := fun s' => s.length + g.span.length ≤ s'.length) hlength
      (fun p hp s' hs' => (hstyle p hp s' hs').2) s₂ hs₂
  exact .bind (.foldlM hlength hclass) fun _ _ => .ok _

theorem duplicateSubgraph_inRange (ids : IdAllocator) : InRange (duplicateSubgraph id s ids).1 := by
  rw [duplicateSubgraph]
  split
  · next e he => exact .of_eq_error requireSubgraph_inRange he
  · next g hg => exact writeCopy_inRange (mem_subgraphs_of_requireSubgraph hg)

/-! ## Moving -/

theorem moveInto_inRange {target : Text} (hn : n ∈ (View.ofSource s).nodes) :
    InRange (moveInto n target (View.ofSource s) s) := by
  refine .bind requireSubgraph_inRange fun g hg => ?_
  have hstop := ((isWithin_length s).subgraphs g (mem_subgraphs_of_requireSubgraph hg)).2.2
  refine .bind (lineAt_inRange hstop) fun _ _ => ?_
  dsimp only
  split
  · exact insertLines_inRange (Nat.le_of_lt hstop)
  · next own hown =>
    obtain ⟨m, hm, -, rfl⟩ := exists_mention_of_standaloneLine? hown
    have hlt := ((isWithin_length s).mentions n hn m hm).2
    split
    · exact .ok _
    · refine .bind (lineAt_inRange hlt) fun _ _ => ?_
      refine .bind (deleteLines_inRange (Nat.succ_le_of_lt hlt)) fun s' hs' => ?_
      have hlength := (le_length_deleteLines (Nat.le_of_lt hlt) hs').2
      refine insertLines_inRange ?_
      split <;> omega

theorem moveOut_inRange (hn : n ∈ (View.ofSource s).nodes) :
    InRange (moveOut n (View.ofSource s) s) := by
  rw [moveOut]
  dsimp only
  split
  · exact .error rfl
  · next moved hmoved =>
    have hmem : moved ∈ n.mentions := by
      rcases Option.or_eq_some_iff.1 hmoved with hmoved | ⟨-, hmoved⟩
      · exact (List.mem_filter.1 (List.mem_of_find?_eq_some hmoved)).1
      · exact (List.mem_filter.1 (List.mem_of_head? hmoved)).1
    refine .bind (lineAt_inRange ((isWithin_length s).mentions n hn moved hmem).2) fun _ _ => ?_
    refine insertLines_inRange (le_length_deleteLineSet (elim_declarationLine_le s) fun i hi => ?_)
    obtain ⟨m, hm, rfl⟩ := List.mem_map.1 hi
    rw [View.declarationLine_ofSource]
    exact ((isWithin_length s).mentions n hn m (List.mem_filter.1 hm).1).1

theorem moveNode_inRange (into : Option Text) : InRange (moveNode id into s) := by
  refine .bind requireNode_inRange fun n hn => ?_
  have hn := mem_nodes_of_requireNode hn
  cases into with
  | some target => exact .bind (moveInto_inRange hn) fun _ _ => .ok _
  | none => exact .bind (moveOut_inRange hn) fun _ _ => .ok _

/-! ## Labels and shapes -/

theorem length_redefineMention {rebuild : Option NodeDefinition → NodeDefinition} {m : Mention} :
    Ensures (redefineMention id rebuild s m) fun s' => s'.length = s.length := by
  refine .after fun _ _ => ?_
  split
  · exact fun _ hs' => length_replaceLine hs'
  · exact .error _

theorem redefine_inRange {rebuild : Option NodeDefinition → NodeDefinition} :
    InRange (redefine id rebuild s) := by
  refine .bind requireNode_inRange fun n hn => ?_
  have hn := mem_nodes_of_requireNode hn
  refine .bind (.foldlM (P := fun s' => s'.length = s.length) rfl fun m hm s' hs' => ?_)
    fun _ _ => .ok _
  have hlt : m.line < s'.length :=
    hs' ▸ ((isWithin_length s).mentions n hn m (redefinedMentions_subset n hm)).2
  refine ⟨.bind (lineAt_inRange hlt) fun _ _ => ?_, length_redefineMention.mono fun _ h => h.trans hs'⟩
  split
  exacts [replaceLine_inRange hlt, .error rfl]

theorem setNodeShape_inRange {shape : NodeShape} : InRange (setNodeShape id shape s) :=
  .bind requireNode_inRange fun _ _ => redefine_inRange

theorem editSubgraphLabel_inRange {label : Text} : InRange (editSubgraphLabel id label s) := by
  refine .bind requireSubgraph_inRange fun g hg => ?_
  have hstart := ((isWithin_length s).subgraphs g (mem_subgraphs_of_requireSubgraph hg)).1.2
  refine .bind (lineAt_inRange hstart) fun _ _ => ?_
  exact .bind (replaceLine_inRange hstart) fun _ _ => .ok _

/-! ## Links -/

theorem relink_inRange {r : LinkRecord} {c : Connector} (hr : r ∈ (View.ofSource s).links) :
    InRange (relink r c s) :=
  .bind (replaceLine_inRange ((isWithin_length s).links r hr).2) fun _ _ => .ok _

theorem setEdgeArrow_inRange {arrow : Arrow} : InRange (setEdgeArrow index arrow s) := by
  refine .bind requireLink_inRange fun r hr => ?_
  split
  · exact .error rfl
  · exact relink_inRange (mem_links_of_requireLink hr)

theorem setEdgeText_inRange {text : Option Text} : InRange (setEdgeText index text s) := by
  refine .bind requireLink_inRange fun r hr => ?_
  split <;> exact relink_inRange (mem_links_of_requireLink hr)

theorem swapEdge_inRange : InRange (swapEdge index s) := by
  refine .bind requireLink_inRange fun r hr => ?_
  have hlt := ((isWithin_length s).links r (mem_links_of_requireLink hr)).2
  exact .bind (replaceLine_inRange hlt) fun _ _ => .ok _

/-! ## Styles and classes -/

theorem setProperty_inRange {existing : Option (Nat × Properties)}
    {render : (indent : Text) → Properties → Text} {key : Text} {value : Option Text}
    (h : ∀ p ∈ existing, p.1 < s.length) : InRange (setProperty existing render key value v s) := by
  cases existing with
  | some p =>
    have hlt := h p rfl
    rw [setProperty]
    dsimp only
    split
    · exact deleteLines_inRange (Nat.succ_le_of_lt hlt)
    · exact .bind (lineAt_inRange hlt) fun _ _ => replaceLine_inRange hlt
  | none =>
    rw [setProperty]
    split <;> exact .ok _

theorem setNodeStyle_inRange {key : Text} {value : Option Text} :
    InRange (setNodeStyle id key value s) := by
  refine .bind requireId_inRange fun _ _ => .bind (setProperty_inRange fun p hp => ?_) fun _ _ => .ok _
  obtain ⟨q, hq, rfl⟩ := Option.map_eq_some_iff.1 hp
  exact ((isWithin_length s).styles q (List.mem_of_find?_eq_some hq)).2

theorem setLinkStyle_inRange {key : Text} {value : Option Text} :
    InRange (setLinkStyle index key value s) := by
  refine .bind requireLink_inRange fun _ _ => .bind (setProperty_inRange fun p hp => ?_) fun _ _ => .ok _
  obtain ⟨q, hq, rfl⟩ := Option.map_eq_some_iff.1 hp
  exact ((isWithin_length s).linkStyles q (List.mem_of_find?_eq_some hq)).2

theorem setClassStyle_inRange {key : Text} {value : Option Text} :
    InRange (setClassStyle id key value s) := by
  refine .bind requireIdentifier_inRange fun _ _ =>
    .bind (setProperty_inRange fun p hp => ?_) fun _ _ => .ok _
  obtain ⟨q, hq, rfl⟩ := Option.map_eq_some_iff.1 hp
  exact ((isWithin_length s).classDefs q (List.mem_of_find?_eq_some hq)).2

theorem applyClass_inRange (ids : List Text) (className : Text) :
    InRange (applyClass ids className s) := by
  refine .bind requireIdentifier_inRange fun _ _ => .bind (.forM fun _ _ => requireId_inRange) ?_
  intro _ _
  split <;> exact .ok _

/-! ## All edits -/

/-- No edit of a flowchart asks for a line that is not there. -/
theorem apply_inRange (op : FlowchartOp) (s : Source) (ids : IdAllocator) :
    InRange (apply op s ids).1 := by
  cases op with
  | addNode id => exact addNode_inRange id ids
  | addEdge => exact addEdge_inRange
  | addSubgraph id => exact addSubgraph_inRange id ids
  | deleteNode => exact deleteNode_inRange
  | deleteEdge => exact deleteEdge_inRange
  | deleteSubgraph id mode => exact deleteSubgraph_inRange mode
  | duplicateNode => exact duplicateNode_inRange
  | duplicateSubgraph => exact duplicateSubgraph_inRange ids
  | moveNode id into => exact moveNode_inRange into
  | editLabel => exact redefine_inRange
  | editSubgraphLabel => exact editSubgraphLabel_inRange
  | setNodeShape => exact setNodeShape_inRange
  | setNodeStyle => exact setNodeStyle_inRange
  | setLinkStyle => exact setLinkStyle_inRange
  | setEdgeArrow => exact setEdgeArrow_inRange
  | setEdgeText => exact setEdgeText_inRange
  | swapEdge => exact swapEdge_inRange
  | applyClass targets className => exact applyClass_inRange targets className
  | setClassStyle => exact setClassStyle_inRange

end DiagramEditor.Edit.Flowchart
