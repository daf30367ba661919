import DiagramEditor.Edit.Flowchart
import DiagramEditor.Proofs.Edit.Basic
import DiagramEditor.Proofs.Edit.Flowchart.Add
import DiagramEditor.Proofs.Flowchart.Flat

/-!
# Edits of flat flowcharts

Some texts of an edit are checked before they are written, or are found in the flowchart. The others
are written as they are given (`FlowchartOp.freeTexts`): labels, and the keys and values of styles.
If those have no line breaks, every edit of a flowchart leaves a flat source behind
(`apply_isFlat`).
-/

namespace DiagramEditor

/-- The texts that the edit writes without having checked them. -/
def FlowchartOp.freeTexts : FlowchartOp → List Text
  | addNode _ _ label => [label]
  | addEdge _ _ text => text.toList
  | addSubgraph _ label => [label]
  | editLabel _ label => [label]
  | editSubgraphLabel _ label => [label]
  | setNodeStyle _ key value => key :: value.toList
  | setLinkStyle _ key value => key :: value.toList
  | setEdgeText _ text => text.toList
  | setClassStyle _ key value => key :: value.toList
  | _ => []

namespace Edit.Flowchart

open DiagramEditor.Flowchart Text Source

variable {s : Source} {v : View} {id label : Text} {index : Nat}

/-! ## What is required -/

theorem isFlat_of_checkNode (h : requireIdentifier (Identifier.checkNode id) id = .ok ()) :
    Text.IsFlat id :=
  isFlat_of_requireIdentifier (by decide) (by decide) h

theorem requireNewId_isFlat : Ensures (requireNewId v id) fun _ => Text.IsFlat id :=
  .after fun _ h => fun _ _ => isFlat_of_checkNode h

theorem requireId_isFlat (hv : v.IsFlat) : Ensures (requireId v id) fun _ => Text.IsFlat id := by
  rw [requireId]
  split
  · next h =>
    refine .ok ?_
    rcases List.mem_append.1 (List.contains_iff_mem.1 h) with h | h
    · obtain ⟨n, hn, rfl⟩ := List.mem_map.1 h
      exact (hv.nodes n hn).1
    · obtain ⟨g, hg, rfl⟩ := List.mem_map.1 h
      exact hv.subgraphs g hg
  · exact .error _

theorem requireNode_isFlat (hv : v.IsFlat) : Ensures (requireNode v id) fun n =>
    n.id = id ∧ Text.IsFlat n.id ∧ ∀ d ∈ n.definition, d.IsFlat := by
  intro n hn
  have hfind := requireNode_eq_ok hn
  have hid : n.id = id := by simpa using List.find?_some hfind
  exact ⟨hid, hv.nodes n (List.mem_of_find?_eq_some hfind)⟩

theorem requireSubgraph_isFlat (hv : v.IsFlat) : Ensures (requireSubgraph v id) fun g =>
    g.id = id ∧ Text.IsFlat g.id := by
  intro g hg
  have hfind := requireSubgraph_eq_ok hg
  have hid : g.id = id := by simpa using List.find?_some hfind
  exact ⟨hid, hv.subgraphs g (List.mem_of_find?_eq_some hfind)⟩

theorem requireLink_isFlat (hv : v.IsFlat) : Ensures (requireLink v index) fun r => r.link.IsFlat :=
  fun r hr => hv.links r (List.mem_of_getElem? (requireLink_eq_ok hr))

/-! ## Adding -/

theorem writeNode_isFlat (h : s.IsFlat) (hid : Text.IsFlat id) (hlabel : Text.IsFlat label)
    (shape : NodeShape) : LeavesFlat (writeNode id shape label s) := by
  refine .bind (ensureDeclaration_isFlat h .flowchart _) fun ⟨s, declaration⟩ hs => ?_
  refine .ok (pushLine_isFlat hs (isFlat_append.2 ⟨bodyIndent_isFlat hs _, ?_⟩))
  exact (NodeDefinition.isFlat_classic shape hlabel).render hid

theorem addNode_isFlat (h : s.IsFlat) (hlabel : Text.IsFlat label) (id : Option Text)
    (shape : NodeShape) (ids : IdAllocator) : LeavesFlat (addNode id shape label s ids).1 := by
  cases id with
  | some id => exact requireNewId_isFlat.bind fun _ hid => writeNode_isFlat h hid hlabel shape
  | none => exact writeNode_isFlat h (isIdent_freshNode _ ids).isFlat hlabel shape

theorem addEdge_isFlat {source target : Text} {text : Option Text} (h : s.IsFlat)
    (htext : ∀ t ∈ text, Text.IsFlat t) : LeavesFlat (addEdge source target text s) := by
  have hv := View.isFlat_ofSource h
  refine .bind (requireId_isFlat hv) fun _ hsource => ?_
  refine .bind (requireId_isFlat hv) fun _ htarget => ?_
  have hconnector : Connector.IsFlat ⟨.normal, text.bind nonBlank?⟩ := by
    intro t ht
    obtain ⟨raw, hraw, ht⟩ := Option.bind_eq_some_iff.1 ht
    exact nonBlank?_isFlat (htext raw hraw) t ht
  refine .ok (pushLine_isFlat h ?_)
  exact isFlat_append.2 ⟨isFlat_append.2 ⟨isFlat_append.2 ⟨bodyIndent_isFlat h _, hsource⟩,
    isFlat_cons.2 ⟨by decide, hconnector.render⟩⟩, isFlat_cons.2 ⟨by decide, htarget⟩⟩

theorem writeSubgraph_isFlat (h : s.IsFlat) (hid : Text.IsFlat id) (hlabel : Text.IsFlat label) :
    LeavesFlat (writeSubgraph id label s) := by
  refine .bind (ensureDeclaration_isFlat h .flowchart _) fun ⟨s, declaration⟩ hs => ?_
  have hindent := bodyIndent_isFlat hs (some declaration)
  refine .ok (pushLine_isFlat (pushLine_isFlat hs ?_) (isFlat_append.2 ⟨hindent, by decide⟩))
  refine SubgraphHeader.isFlat_render hindent hid ?_
  rintro _ ⟨⟩
  exact hlabel

theorem addSubgraph_isFlat (h : s.IsFlat) (hlabel : Text.IsFlat label) (id : Option Text)
    (ids : IdAllocator) : LeavesFlat (addSubgraph id label s ids).1 := by
  cases id with
  | some id => exact requireNewId_isFlat.bind fun _ hid => writeSubgraph_isFlat h hid hlabel
  | none => exact writeSubgraph_isFlat h (isIdent_freshSubgraph _ ids).isFlat hlabel

/-! ## Deleting -/

theorem fates_isFlat {α : Type} {fate : Text → α → Fate} {ds : List (Nat × α)} (h : s.IsFlat)
    (hfate : ∀ indent, Text.IsFlat indent → ∀ p ∈ ds, ∀ t ∈ (fate indent p.2).text?, Text.IsFlat t) :
    Ensures (fates fate s ds) fun out => ∀ p ∈ out, ∀ t ∈ p.2.text?, Text.IsFlat t := by
  refine Ensures.mapM fun p hp => ?_
  exact (lineAt_isFlat h).map fun line hline => hfate _ hline.indent p hp

theorem classFate_isFlat {targets : List Text} {indent : Text} {d : ClassUse}
    (hindent : Text.IsFlat indent) (hids : AllFlat d.ids) (hname : Text.IsFlat d.className) :
    ∀ t ∈ (classFate targets indent d).text?, Text.IsFlat t := by
  intro t ht
  rw [classFate] at ht
  split at ht
  · cases ht
  · split at ht
    · cases ht
    · cases ht
      exact ClassUse.isFlat_render hindent (hids.subset List.filter_sublist.subset) hname

theorem linkStyleFate_isFlat {removed : List Nat} {indent : Text} {d : LinkStyle}
    (hindent : Text.IsFlat indent) (hd : d.properties.IsFlat) :
    ∀ t ∈ (linkStyleFate removed indent d).text?, Text.IsFlat t := by
  intro t ht
  rw [linkStyleFate] at ht
  split at ht
  · cases ht
  · dsimp only at ht
    split at ht
    · cases ht
    · split at ht
      · cases ht
      · cases ht
        exact LinkStyle.isFlat_render hindent _ hd

theorem plan_isFlat {targets : List Text} {extra : List Nat} (h : s.IsFlat) (hv : v.IsFlat) :
    Ensures (Removal.plan targets extra v s) fun r => ∀ p ∈ r.changes, Text.IsFlat p.2 := by
  refine .bind (fates_isFlat h fun indent hindent p hp =>
    classFate_isFlat hindent (hv.classes p hp).1 (hv.classes p hp).2) fun classes hclasses => ?_
  refine .bind (fates_isFlat h fun indent hindent p hp =>
    linkStyleFate_isFlat hindent (hv.linkStyles p (List.mem_filter.1 hp).1)) fun styles hstyles => ?_
  refine .ok fun p hp => ?_
  obtain ⟨⟨i, fate⟩, hmem, hp⟩ := List.mem_filterMap.1 hp
  dsimp only at hp
  split at hp
  · cases hp
  · obtain ⟨text, htext, rfl⟩ := Option.map_eq_some_iff.1 hp
    rcases List.mem_append.1 hmem with hmem | hmem
    exacts [hclasses _ hmem text htext, hstyles _ hmem text htext]

theorem apply_removal_isFlat {r : Removal} (h : s.IsFlat) (hr : ∀ p ∈ r.changes, Text.IsFlat p.2) :
    Ensures (r.apply s) Source.IsFlat := by
  refine .bind (Ensures.foldlM h fun p hp s hs => replaceLine_isFlat hs (hr p hp)) fun s hs => ?_
  exact .ok (deleteLineSet_isFlat hs r.lines)

theorem restoreDefinitions_isFlat {nodes : List NodeRecord} (h : s.IsFlat)
    (hnodes : ∀ n ∈ nodes, Text.IsFlat n.id ∧ ∀ d ∈ n.definition, d.IsFlat) :
    Ensures (restoreDefinitions nodes s) Source.IsFlat := by
  rw [restoreDefinitions]
  split
  · exact .ok h
  · refine insertLines_isFlat h fun text htext => ?_
    obtain ⟨n, hn, htext⟩ := List.mem_filterMap.1 htext
    obtain ⟨d, hd, htext⟩ := Option.bind_eq_some_iff.1 htext
    obtain ⟨-, -, htext⟩ := Option.bind_eq_some_iff.1 htext
    cases htext
    obtain ⟨hid, hdef⟩ := hnodes n hn
    exact isFlat_append.2 ⟨bodyIndent_isFlat h _, (hdef d hd).render hid⟩

theorem memberLine_isFlat {indent text : Text} (hindent : Text.IsFlat indent)
    (htext : Text.IsFlat text) : AllFlat [indent ++ indentStep ++ text] :=
  allFlat_cons.2 ⟨isFlat_append.2 ⟨isFlat_append.2 ⟨hindent, by decide⟩, htext⟩, allFlat_nil⟩

theorem restoreMember_isFlat (h : s.IsFlat) (hid : Text.IsFlat id) (subgraph : Text) :
    Ensures (restoreMember id s subgraph) Source.IsFlat := by
  rw [restoreMember]
  split
  · exact .ok h
  · split
    · exact .ok h
    · refine (lineAt_isFlat h).bind fun line hline => ?_
      exact insertLines_isFlat h (memberLine_isFlat hline.indent hid)

theorem restoreMembership_isFlat {nodes : List NodeRecord} (h : s.IsFlat)
    (hnodes : ∀ n ∈ nodes, Text.IsFlat n.id) :
    Ensures (restoreMembership v nodes s) Source.IsFlat :=
  Ensures.foldlM h fun n hn _ hs =>
    Ensures.foldlM hs fun g _ _ hs => restoreMember_isFlat hs (hnodes n hn) g

theorem deleteCascade_isFlat {targets : List Text} {extra : List Nat} (h : s.IsFlat)
    (hv : v.IsFlat) : Ensures (deleteCascade targets extra v s) Source.IsFlat := by
  refine (plan_isFlat h hv).bind fun removal hremoval => ?_
  have hnodes : ∀ n ∈ neighbors targets removal.lines v,
      Text.IsFlat n.id ∧ ∀ d ∈ n.definition, d.IsFlat :=
    fun n hn => hv.nodes n (List.mem_filter.1 hn).1
  refine (apply_removal_isFlat h hremoval).bind fun s hs => ?_
  refine (restoreDefinitions_isFlat hs hnodes).bind fun s hs => ?_
  exact restoreMembership_isFlat hs fun n hn => (hnodes n hn).1

theorem deleteNode_isFlat (h : s.IsFlat) : LeavesFlat (deleteNode id s) :=
  .after fun _ _ => (deleteCascade_isFlat h (View.isFlat_ofSource h)).bind fun _ hs => .ok hs

theorem deleteEdge_isFlat (h : s.IsFlat) : LeavesFlat (deleteEdge index s) :=
  .after fun _ _ => (deleteCascade_isFlat h (View.isFlat_ofSource h)).bind fun _ hs => .ok hs

theorem deleteSubgraph_isFlat (h : s.IsFlat) (mode : SubgraphDeleteMode) :
    LeavesFlat (deleteSubgraph id mode s) := by
  refine .after fun g _ => ?_
  cases mode <;>
    exact (deleteCascade_isFlat h (View.isFlat_ofSource h)).bind fun _ hs => .ok hs

/-! ## Duplicating -/

theorem suffixed_isFlat (hid : Text.IsFlat id) (taken : List Text) :
    Text.IsFlat (Fresh.suffixed id taken) :=
  isFlat_append.2 ⟨hid, isFlat_cons.2 ⟨by decide, isFlat_ofNat _⟩⟩

theorem withClass_isFlat {text : Text} {name : Option Text} (htext : Text.IsFlat text)
    (hname : ∀ t ∈ name, Text.IsFlat t) : Text.IsFlat (withClass text name) := by
  cases name with
  | none => exact htext
  | some name => exact isFlat_append.2 ⟨isFlat_append.2 ⟨htext, by decide⟩, hname name rfl⟩

theorem classSuffixOn_isFlat {text : Text} (htext : Text.IsFlat text) (line : Nat) (n : NodeRecord) :
    ∀ name ∈ classSuffixOn line text n, Text.IsFlat name := by
  intro name hname
  obtain ⟨token, htoken, hname⟩ := Option.bind_eq_some_iff.1 hname
  obtain ⟨m, -, htoken⟩ := List.exists_of_findSome?_eq_some htoken
  obtain ⟨⟨_, rest⟩, hscan, rfl⟩ := Option.map_eq_some_iff.1 htoken
  exact (NodeToken.isFlat_scan? (htext.drop _) hscan).1.classSuffix name hname

theorem insertBelow_isFlat {inserts : List (Nat × Text)} (h : s.IsFlat)
    (hinserts : ∀ p ∈ inserts, Text.IsFlat p.2) : Ensures (insertBelow inserts s) Source.IsFlat := by
  refine Ensures.foldlM h fun p hp s hs => insertLines_isFlat hs ?_
  exact allFlat_cons.2 ⟨hinserts p (List.mem_mergeSort.1 hp), allFlat_nil⟩

theorem copiedStyles_isFlat {copy : Text} (h : s.IsFlat) (hv : v.IsFlat) (hcopy : Text.IsFlat copy) :
    Ensures (copiedStyles id copy v s) fun out => ∀ p ∈ out, Text.IsFlat p.2 := by
  refine Ensures.mapM fun p hp => (lineAt_isFlat h).bind fun line hline => .ok ?_
  exact NodeStyle.isFlat_render hline.indent hcopy (hv.styles p (List.mem_filter.1 hp).1)

theorem copiedClasses_isFlat {copy : Text} (h : s.IsFlat) (hv : v.IsFlat)
    (hcopy : Text.IsFlat copy) :
    Ensures (copiedClasses id copy v s) fun out => ∀ p ∈ out, Text.IsFlat p.2 := by
  refine Ensures.mapM fun p hp => (lineAt_isFlat h).bind fun line hline => .ok ?_
  exact ClassUse.isFlat_render hline.indent (allFlat_cons.2 ⟨hcopy, allFlat_nil⟩)
    (hv.classes p (List.mem_filter.1 hp).1).2

theorem label_isFlat {n : NodeRecord} (hid : Text.IsFlat n.id)
    (hn : ∀ d ∈ n.definition, d.IsFlat) : Text.IsFlat n.label := by
  rw [NodeRecord.label]
  cases hlabel : n.definition.bind (·.label) with
  | none => exact hid
  | some label =>
    obtain ⟨d, hd, hlabel⟩ := Option.bind_eq_some_iff.1 hlabel
    exact (hn d hd).label label hlabel

theorem duplicateNode_isFlat (h : s.IsFlat) : LeavesFlat (duplicateNode id s) := by
  have hv := View.isFlat_ofSource h
  refine (requireNode_isFlat hv).bind fun node ⟨hid, hflat, hdef⟩ => ?_
  cases hanchor : node.anchorLine? with
  | none => exact .after fun _ hnone => nomatch hnone
  | some anchor =>
    refine .after fun anchor _ => (lineAt_isFlat h).bind fun text htext => ?_
    have hcopy := suffixed_isFlat (hid ▸ hflat) (View.ofSource s).ids
    have hdefinition : (node.definition.getD (.classic .rect node.label)).IsFlat := by
      cases hd : node.definition with
      | none => exact NodeDefinition.isFlat_classic .rect (label_isFlat hflat hdef)
      | some d => exact hdef d hd
    have hline := isFlat_append.2 ⟨htext.indent,
      withClass_isFlat (hdefinition.render hcopy) (classSuffixOn_isFlat htext anchor node)⟩
    refine (copiedStyles_isFlat h hv hcopy).bind fun styles hstyles => ?_
    refine (copiedClasses_isFlat h hv hcopy).bind fun classes hclasses => ?_
    have hinserts : ∀ p ∈ (anchor, _) :: styles ++ classes, Text.IsFlat p.2 :=
      List.forall_mem_append.2 ⟨List.forall_mem_cons.2 ⟨hline, hstyles⟩, hclasses⟩
    exact (insertBelow_isFlat h hinserts).bind fun _ hs => .ok hs

/-- The new ids have no line breaks. -/
def Renaming.IsFlat (map : Renaming) : Prop :=
  ∀ p ∈ map, Text.IsFlat p.2

namespace Renaming

variable {map : Renaming}

theorem IsFlat.insert {old new : Text} (h : map.IsFlat) (hnew : Text.IsFlat new) :
    IsFlat (map.insert old new) := by
  induction map with
  | nil => exact List.forall_mem_singleton.2 hnew
  | cons p map ih =>
    obtain ⟨hp, hmap⟩ := List.forall_mem_cons.1 h
    rw [Renaming.insert]
    split
    · exact List.forall_mem_cons.2 ⟨hnew, hmap⟩
    · exact List.forall_mem_cons.2 ⟨hp, ih hmap⟩

theorem IsFlat.getD (h : map.IsFlat) (hid : Text.IsFlat id) : Text.IsFlat ((map.lookup id).getD id) := by
  cases hlookup : map.lookup id with
  | none => exact hid
  | some new =>
    obtain ⟨_, _, heq, -⟩ := List.lookup_eq_some_iff.1 hlookup
    exact h (id, new) (heq ▸ List.mem_append_right _ List.mem_cons_self)

theorem isFlat_ofBlock (hv : v.IsFlat) (span : BlockSpan) (ids : IdAllocator) :
    IsFlat (ofBlock v span ids).1 := by
  have hsubgraphs : ∀ (gs : List SubgraphRecord) (state : Renaming × IdAllocator),
      (∀ g ∈ gs, Text.IsFlat g.id) → state.1.IsFlat →
        (gs.foldl (Renaming.addSubgraph v) state).1.IsFlat := by
    intro gs
    induction gs with
    | nil => exact fun _ _ h => h
    | cons g gs ih =>
      intro state hgs hstate
      refine ih _ (fun g' hg' => hgs g' (List.mem_cons_of_mem g hg')) ?_
      rw [Renaming.addSubgraph]
      split
      · exact hstate.insert (suffixed_isFlat (hgs g List.mem_cons_self) _)
      · exact hstate.insert (isIdent_freshSubgraph _ _).isFlat
  have hnodes : ∀ (ns : List NodeRecord) (map : Renaming), (∀ n ∈ ns, Text.IsFlat n.id) →
      map.IsFlat → (ns.foldl (Renaming.addNode v) map).IsFlat := by
    intro ns
    induction ns with
    | nil => exact fun _ _ h => h
    | cons n ns ih =>
      intro map hns hmap
      refine ih _ (fun n' hn' => hns n' (List.mem_cons_of_mem n hn')) ?_
      exact hmap.insert (suffixed_isFlat (hns n List.mem_cons_self) _)
  exact hnodes _ _ (fun n hn => (hv.nodes n (List.mem_filter.1 hn).1).1)
    (hsubgraphs _ _ (fun g hg => hv.subgraphs g (List.mem_filter.1 hg).1) nofun)

end Renaming

theorem copyLine_isFlat {map : Renaming} (hmap : map.IsFlat) {line : Text} (hline : Text.IsFlat line) :
    Text.IsFlat (copyLine map line) := by
  rw [copyLine]
  split
  · next header hheader =>
    obtain ⟨hid, hlabel⟩ := SubgraphHeader.isFlat_ofLine? hline hheader
    exact SubgraphHeader.isFlat_render hline.indent (hmap.getD hid) hlabel
  · exact isFlat_renameFrom hmap _ 0 hline

theorem writeCopy_isFlat {map : Renaming} (h : s.IsFlat) (hv : v.IsFlat) (hmap : map.IsFlat)
    (g : SubgraphRecord) : LeavesFlat (writeCopy g map v s) := by
  have hlines : AllFlat ((s.slice g.span.start g.span.length).map (copyLine map)) := by
    refine AllFlat.map (fun line hline => ?_) fun _ => copyLine_isFlat hmap
    exact h line (List.drop_subset _ _ (List.take_subset _ _ hline))
  refine (insertLines_isFlat h hlines).bind fun s hs => ?_
  refine .bind (Ensures.foldlM hs fun p hp s hs => ?_) fun s hs => ?_
  · rw [copyStyle]
    split
    · exact .ok hs
    · next new hnew =>
      refine (lineAt_isFlat hs).bind fun line hline => .ok (pushLine_isFlat hs ?_)
      obtain ⟨_, _, heq, -⟩ := List.lookup_eq_some_iff.1 hnew
      exact NodeStyle.isFlat_render hline.indent
        (hmap (_, new) (heq ▸ List.mem_append_right _ List.mem_cons_self))
        (hv.styles p (List.mem_filter.1 hp).1)
  · refine .bind (Ensures.foldlM hs fun p hp s hs => ?_) fun s hs => .ok hs
    rw [copyClass]
    split
    · exact .ok hs
    · refine (lineAt_isFlat hs).bind fun line hline => .ok (pushLine_isFlat hs ?_)
      refine ClassUse.isFlat_render hline.indent (fun id hid => ?_)
        (hv.classes p (List.mem_filter.1 hp).1).2
      obtain ⟨old, -, hlookup⟩ := List.mem_filterMap.1 hid
      obtain ⟨_, _, heq, -⟩ := List.lookup_eq_some_iff.1 hlookup
      exact hmap (old, id) (heq ▸ List.mem_append_right _ List.mem_cons_self)

theorem duplicateSubgraph_isFlat (h : s.IsFlat) (ids : IdAllocator) :
    LeavesFlat (duplicateSubgraph id s ids).1 := by
  have hv := View.isFlat_ofSource h
  rw [duplicateSubgraph]
  split
  · exact .error _
  · next g _ => exact writeCopy_isFlat h hv (Renaming.isFlat_ofBlock hv g.span ids) g

/-! ## Moving -/

theorem moveInto_isFlat {n : NodeRecord} (h : s.IsFlat) (hid : Text.IsFlat n.id) (target : Text) :
    Ensures (moveInto n target v s) Source.IsFlat := by
  refine .after fun g _ => (lineAt_isFlat h).bind fun endLine hend => ?_
  dsimp only
  split
  · exact insertLines_isFlat h (memberLine_isFlat hend.indent hid)
  · split
    · exact .ok h
    · refine (lineAt_isFlat h).bind fun line hline => (deleteLines_isFlat h).bind fun s hs => ?_
      exact insertLines_isFlat hs (memberLine_isFlat hend.indent hline.trim)

theorem moveOut_isFlat (h : s.IsFlat) (n : NodeRecord) : Ensures (moveOut n v s) Source.IsFlat := by
  rw [moveOut]
  dsimp only
  split
  · exact .error _
  · refine (lineAt_isFlat h).bind fun line hline => ?_
    have hs := deleteLineSet_isFlat h
      ((n.mentions.filter fun m => m.standalone && (v.innermost? m.line).isSome).map (·.line))
    refine insertLines_isFlat hs (allFlat_cons.2 ⟨?_, allFlat_nil⟩)
    exact isFlat_append.2 ⟨bodyIndent_isFlat hs _, hline.trim⟩

theorem moveNode_isFlat (h : s.IsFlat) (into : Option Text) : LeavesFlat (moveNode id into s) := by
  refine (requireNode_isFlat (View.isFlat_ofSource h)).bind fun n ⟨_, hid, _⟩ => ?_
  cases into with
  | some target => exact (moveInto_isFlat h hid target).bind fun _ hs => .ok hs
  | none => exact (moveOut_isFlat h n).bind fun _ hs => .ok hs

/-! ## Labels and shapes -/

theorem redefineToken?_isFlat {rebuild : Option NodeDefinition → NodeDefinition} {start : Nat}
    {line text : Text} (hid : Text.IsFlat id)
    (hrebuild : ∀ d : Option NodeDefinition, (∀ d' ∈ d, d'.IsFlat) → (rebuild d).IsFlat)
    (hline : Text.IsFlat line) (h : redefineToken? id rebuild start line = some text) :
    Text.IsFlat text := by
  obtain ⟨⟨token, rest⟩, hscan, rfl⟩ := Option.map_eq_some_iff.1 h
  obtain ⟨htoken, hrest⟩ := NodeToken.isFlat_scan? (hline.drop start) hscan
  refine isFlat_append.2 ⟨isFlat_append.2 ⟨hline.take start, ?_⟩, hrest⟩
  exact withClass_isFlat ((hrebuild _ htoken.definition).render hid) htoken.classSuffix

theorem redefine_isFlat {rebuild : Option NodeDefinition → NodeDefinition} (h : s.IsFlat)
    (hrebuild : ∀ d : Option NodeDefinition, (∀ d' ∈ d, d'.IsFlat) → (rebuild d).IsFlat) :
    LeavesFlat (redefine id rebuild s) := by
  refine (requireNode_isFlat (View.isFlat_ofSource h)).bind fun n ⟨hn, hid, _⟩ => ?_
  refine .bind (Ensures.foldlM h fun m _ s hs => ?_) fun _ hs => .ok hs
  refine (lineAt_isFlat hs).bind fun line hline => ?_
  split
  · next text htext =>
    exact replaceLine_isFlat hs (redefineToken?_isFlat (hn ▸ hid) hrebuild hline htext)
  · exact .error _

theorem editLabel_isFlat (h : s.IsFlat) (hlabel : Text.IsFlat label) :
    LeavesFlat (editLabel id label s) := by
  refine redefine_isFlat h fun d hd => ?_
  cases d with
  | some d => exact (hd d rfl).withLabel hlabel
  | none => exact NodeDefinition.isFlat_classic .rect hlabel

theorem setNodeShape_isFlat (h : s.IsFlat) (shape : NodeShape) :
    LeavesFlat (setNodeShape id shape s) := by
  refine (requireNode_isFlat (View.isFlat_ofSource h)).bind fun n ⟨_, hid, hdef⟩ => ?_
  exact redefine_isFlat h fun _ _ => NodeDefinition.isFlat_classic shape (label_isFlat hid hdef)

theorem editSubgraphLabel_isFlat (h : s.IsFlat) (hlabel : Text.IsFlat label) :
    LeavesFlat (editSubgraphLabel id label s) := by
  refine (requireSubgraph_isFlat (View.isFlat_ofSource h)).bind fun g ⟨hg, hid⟩ => ?_
  refine (lineAt_isFlat h).bind fun line hline => ?_
  have hrendered : Text.IsFlat (SubgraphHeader.render line.indent id (some label)) := by
    refine SubgraphHeader.isFlat_render hline.indent (hg ▸ hid) ?_
    rintro _ ⟨⟩
    exact hlabel
  have hquoted : Text.IsFlat (Text.indent line ++ subgraphWord ++ ' ' :: Text.quote label) :=
    isFlat_append.2 ⟨isFlat_append.2 ⟨hline.indent, by decide⟩,
      isFlat_cons.2 ⟨by decide, hlabel.quote⟩⟩
  dsimp only
  split
  · exact (replaceLine_isFlat h hrendered).bind fun _ hs => .ok hs
  · exact (replaceLine_isFlat h hquoted).bind fun _ hs => .ok hs

/-! ## Links -/

theorem relink_isFlat {r : LinkRecord} {c : Connector} (h : s.IsFlat) (hr : r.link.IsFlat)
    (hc : c.IsFlat) : LeavesFlat (relink r c s) := by
  refine (replaceLine_isFlat h ?_).bind fun _ hs => .ok hs
  refine isFlat_append.2 ⟨?_, hr.tail⟩
  refine isFlat_append.2 ⟨isFlat_append.2 ⟨isFlat_append.2 ⟨hr.lead, hr.source.text⟩, ?_⟩, ?_⟩
  exacts [isFlat_cons.2 ⟨by decide, hc.render⟩, isFlat_cons.2 ⟨by decide, hr.target.text⟩]

theorem setEdgeArrow_isFlat (h : s.IsFlat) (arrow : Arrow) :
    LeavesFlat (setEdgeArrow index arrow s) := by
  refine (requireLink_isFlat (View.isFlat_ofSource h)).bind fun r hr => ?_
  split
  · exact .after fun _ h => nomatch h
  · exact relink_isFlat h hr hr.connector

theorem setEdgeText_isFlat {text : Option Text} (h : s.IsFlat) (htext : ∀ t ∈ text, Text.IsFlat t) :
    LeavesFlat (setEdgeText index text s) := by
  refine (requireLink_isFlat (View.isFlat_ofSource h)).bind fun r hr => ?_
  split
  · next t ht =>
    obtain ⟨raw, hraw, ht⟩ := Option.bind_eq_some_iff.1 ht
    refine relink_isFlat h hr ?_
    rintro _ ⟨⟩
    exact nonBlank?_isFlat (htext raw hraw) t ht
  · exact relink_isFlat h hr nofun

theorem swapEdge_isFlat (h : s.IsFlat) : LeavesFlat (swapEdge index s) := by
  refine (requireLink_isFlat (View.isFlat_ofSource h)).bind fun r hr => ?_
  refine (replaceLine_isFlat h ?_).bind fun _ hs => .ok hs
  refine isFlat_append.2 ⟨?_, hr.tail⟩
  exact isFlat_append.2 ⟨isFlat_append.2 ⟨isFlat_append.2 ⟨hr.lead, hr.target.text⟩, hr.between⟩,
    hr.source.text⟩

/-! ## Styles and classes -/

theorem setProperty_isFlat {existing : Option (Nat × Properties)}
    {render : (indent : Text) → Properties → Text} {key : Text} {value : Option Text}
    (h : s.IsFlat) (hexisting : ∀ p ∈ existing, p.2.IsFlat) (hkey : Text.IsFlat key)
    (hvalue : ∀ t ∈ value, Text.IsFlat t)
    (hrender : ∀ indent properties, Text.IsFlat indent → Properties.IsFlat properties →
      Text.IsFlat (render indent properties)) :
    Ensures (setProperty existing render key value v s) Source.IsFlat := by
  cases existing with
  | some p =>
    have hset := (hexisting p rfl).set hkey hvalue
    rw [setProperty]
    dsimp only
    split
    · exact deleteLines_isFlat h
    · refine (lineAt_isFlat h).bind fun line hline => ?_
      exact replaceLine_isFlat h (hrender _ _ hline.indent hset)
  | none =>
    have hset := Properties.IsFlat.set (nofun : Properties.IsFlat []) hkey hvalue
    rw [setProperty]
    split
    · exact .ok h
    · exact .ok (pushLine_isFlat h (hrender _ _ (bodyIndent_isFlat h _) hset))

theorem setNodeStyle_isFlat {key : Text} {value : Option Text} (h : s.IsFlat)
    (hkey : Text.IsFlat key) (hvalue : ∀ t ∈ value, Text.IsFlat t) :
    LeavesFlat (setNodeStyle id key value s) := by
  have hv := View.isFlat_ofSource h
  refine (requireId_isFlat hv).bind fun _ hid => ?_
  refine (setProperty_isFlat h ?_ hkey hvalue ?_).bind fun _ hs => .ok hs
  · intro p hp
    obtain ⟨q, hq, rfl⟩ := Option.map_eq_some_iff.1 hp
    exact hv.styles q (List.mem_of_find?_eq_some hq)
  · exact fun _ _ hindent => NodeStyle.isFlat_render hindent hid

theorem setLinkStyle_isFlat {key : Text} {value : Option Text} (h : s.IsFlat)
    (hkey : Text.IsFlat key) (hvalue : ∀ t ∈ value, Text.IsFlat t) :
    LeavesFlat (setLinkStyle index key value s) := by
  have hv := View.isFlat_ofSource h
  refine .after fun _ _ => (setProperty_isFlat h ?_ hkey hvalue ?_).bind fun _ hs => .ok hs
  · intro p hp
    obtain ⟨q, hq, rfl⟩ := Option.map_eq_some_iff.1 hp
    exact hv.linkStyles q (List.mem_of_find?_eq_some hq)
  · exact fun _ _ hindent => LinkStyle.isFlat_render hindent _

theorem setClassStyle_isFlat {key : Text} {value : Option Text} (h : s.IsFlat)
    (hkey : Text.IsFlat key) (hvalue : ∀ t ∈ value, Text.IsFlat t) :
    LeavesFlat (setClassStyle id key value s) := by
  have hv := View.isFlat_ofSource h
  refine .after fun _ hid => (setProperty_isFlat h ?_ hkey hvalue ?_).bind fun _ hs => .ok hs
  · intro p hp
    obtain ⟨q, hq, rfl⟩ := Option.map_eq_some_iff.1 hp
    exact hv.classDefs q (List.mem_of_find?_eq_some hq)
  · exact fun _ _ hindent => ClassDef.isFlat_render hindent (isFlat_of_checkNode hid)

theorem applyClass_isFlat (h : s.IsFlat) (ids : List Text) (className : Text) :
    LeavesFlat (applyClass ids className s) := by
  have hv := View.isFlat_ofSource h
  refine .after fun _ hname => .after fun _ hids => ?_
  split
  · exact .ok h
  · refine .ok (pushLine_isFlat h ?_)
    refine ClassUse.isFlat_render (bodyIndent_isFlat h _) (fun id hid => ?_)
      (isFlat_of_checkNode hname)
    exact requireId_isFlat hv () (forM_eq_ok hids id hid)

/-! ## All edits -/

/-- An edit of a flat flowchart with flat texts leaves a flat flowchart behind. -/
theorem apply_isFlat {op : FlowchartOp} (h : s.IsFlat) (hop : AllFlat op.freeTexts)
    (ids : IdAllocator) : LeavesFlat (apply op s ids).1 := by
  cases op with
  | addNode id shape label => exact addNode_isFlat h (allFlat_cons.1 hop).1 id shape ids
  | addEdge source target text => exact addEdge_isFlat h (allFlat_toList.1 hop)
  | addSubgraph id label => exact addSubgraph_isFlat h (allFlat_cons.1 hop).1 id ids
  | deleteNode => exact deleteNode_isFlat h
  | deleteEdge => exact deleteEdge_isFlat h
  | deleteSubgraph id mode => exact deleteSubgraph_isFlat h mode
  | duplicateNode => exact duplicateNode_isFlat h
  | duplicateSubgraph => exact duplicateSubgraph_isFlat h ids
  | moveNode id into => exact moveNode_isFlat h into
  | editLabel id label => exact editLabel_isFlat h (allFlat_cons.1 hop).1
  | editSubgraphLabel id label => exact editSubgraphLabel_isFlat h (allFlat_cons.1 hop).1
  | setNodeShape id shape => exact setNodeShape_isFlat h shape
  | setNodeStyle id key value =>
    exact setNodeStyle_isFlat h (allFlat_cons.1 hop).1 (allFlat_toList.1 (allFlat_cons.1 hop).2)
  | setLinkStyle index key value =>
    exact setLinkStyle_isFlat h (allFlat_cons.1 hop).1 (allFlat_toList.1 (allFlat_cons.1 hop).2)
  | setEdgeArrow index arrow => exact setEdgeArrow_isFlat h arrow
  | setEdgeText index text => exact setEdgeText_isFlat h (allFlat_toList.1 hop)
  | swapEdge => exact swapEdge_isFlat h
  | applyClass targets className => exact applyClass_isFlat h targets className
  | setClassStyle className key value =>
    exact setClassStyle_isFlat h (allFlat_cons.1 hop).1 (allFlat_toList.1 (allFlat_cons.1 hop).2)

end Edit.Flowchart

end DiagramEditor
