import DiagramEditor.Proofs.Flowchart.Definition
import DiagramEditor.Proofs.Flowchart.Member

/-!
# A node with a twin

One more node line stands between the statements, for a node that is not known yet, and behind every
directive about some node stands the same directive about the new one (`IsTwinned`). So the view has
one more node (`IsTwinned.perm_nodes`), with the definition that the line gives it and in the subgraph
that is open there (`IsTwinned.exists_node?`). All other nodes keep their definitions and subgraphs
(`IsTwinned.others`), and links and subgraphs are what they were (`IsTwinned.map_link`,
`IsTwinned.subgraphIds`).
-/

namespace DiagramEditor.Flowchart

open Source

variable {id copy name x : Text} {s s' : Source} {t : NodeLine} {sts above below : List Statement}
  {outer : List Text} {st st' : Statement}

/-- A line holds one statement. -/
theorem filter_statements {i : Nat} (h : (i, st) ∈ statements s) :
    (statements s).filter (·.1 = i) = [(i, st)] := by
  obtain ⟨above, below, hsts⟩ := List.append_of_mem h
  have hsorted := View.pairwise_statements s
  rw [hsts] at hsorted ⊢
  obtain ⟨-, hbelow, habove⟩ := List.pairwise_append.1 hsorted
  have hnil : above.filter (·.1 = i) = [] := List.filter_eq_nil_iff.2 fun p hp => by
    simpa using Nat.ne_of_lt (habove p hp _ List.mem_cons_self)
  have hnil' : below.filter (·.1 = i) = [] := List.filter_eq_nil_iff.2 fun p hp => by
    simpa using Nat.ne_of_gt ((List.pairwise_cons.1 hbelow).1 p hp)
  rw [List.filter_append, hnil, List.filter_cons_of_pos (by simp), hnil']
  rfl

/-! ## Directives for two -/

/-- What a style directive says of the copy if it is about the node. The properties are written out
and read again. -/
def NodeStyle.twins (id copy : Text) (d : NodeStyle) : List NodeStyle :=
  if d.target = id then [⟨copy, .ofText d.properties.toText⟩] else []

/-- What a class directive says of the copy if it names the node. -/
def ClassUse.twins (id copy : Text) (d : ClassUse) : List ClassUse :=
  if d.ids.contains id then [⟨[copy], d.className⟩] else []

/-- What a statement says of the copy if it is a directive about the node. -/
def Statement.twins (id copy : Text) : Statement → List Statement
  | nodeStyle d => (d.twins id copy).map nodeStyle
  | classUse d => (d.twins id copy).map classUse
  | _ => []

theorem Statement.twins_eq_nil_or_singleton (id copy : Text) (st : Statement) :
    st.twins id copy = [] ∨ (∃ d, st.twins id copy = [.nodeStyle d]) ∨
      ∃ d, st.twins id copy = [.classUse d] := by
  cases st with
  | nodeStyle d =>
    rw [twins, NodeStyle.twins]
    split
    exacts [.inr (.inl ⟨_, rfl⟩), .inl rfl]
  | classUse d =>
    rw [twins, ClassUse.twins]
    split
    exacts [.inr (.inr ⟨_, rfl⟩), .inl rfl]
  | _ => exact .inl rfl

theorem Statement.isDirective_of_mem_twins (h : st' ∈ st.twins id copy) : st'.IsDirective := by
  rcases st.twins_eq_nil_or_singleton id copy with hst | ⟨d, hst⟩ | ⟨d, hst⟩ <;> rw [hst] at h
  · cases h
  · cases List.mem_singleton.1 h
    trivial
  · cases List.mem_singleton.1 h
    trivial

theorem Statement.twins_of_not_isDirective (h : ¬st.IsDirective) : st.twins id copy = [] := by
  cases st with
  | nodeStyle d => exact absurd trivial h
  | classUse d => exact absurd trivial h
  | _ => rfl

/-- The statements, with one more behind each directive about the node. -/
def twinned (id copy : Text) (sts : List Statement) : List Statement :=
  sts.flatMap fun st => st :: st.twins id copy

theorem twinned_cons (st : Statement) (sts : List Statement) :
    twinned id copy (st :: sts) = st :: (st.twins id copy ++ twinned id copy sts) :=
  List.flatMap_cons

theorem twinned_append (sts more : List Statement) :
    twinned id copy (sts ++ more) = twinned id copy sts ++ twinned id copy more :=
  List.flatMap_append

/-- Whatever these directives say nothing about is said as before. -/
theorem flatMap_twinned {α : Type} {f : Statement → List α}
    (hstyle : ∀ d, f (.nodeStyle d) = []) (hclass : ∀ d, f (.classUse d) = []) :
    (twinned id copy sts).flatMap f = sts.flatMap f := by
  induction sts with
  | nil => rfl
  | cons st sts ih =>
    have htwins : (st.twins id copy).flatMap f = [] := by
      rcases st.twins_eq_nil_or_singleton id copy with hst | ⟨d, hst⟩ | ⟨d, hst⟩ <;> rw [hst]
      · rfl
      · rw [List.flatMap_singleton, hstyle]
      · rw [List.flatMap_singleton, hclass]
    rw [twinned_cons, List.flatMap_cons, List.flatMap_append, htwins, ih, List.flatMap_cons]
    rfl

theorem filterMap_twinned {α : Type} {get : Statement → Option α}
    (hstyle : ∀ d, get (.nodeStyle d) = none) (hclass : ∀ d, get (.classUse d) = none) :
    (twinned id copy sts).filterMap get = sts.filterMap get := by
  rw [List.filterMap_eq_flatMap_toList, List.filterMap_eq_flatMap_toList]
  exact flatMap_twinned (fun d => by rw [hstyle]; rfl) fun d => by rw [hclass]; rfl

/-- Directives of one kind, each with what it says of the copy. -/
theorem filterMap_twinned_eq_flatMap {α : Type} {get : Statement → Option α} {g : α → List α}
    (h : ∀ st, (st.twins id copy).filterMap get = (get st).toList.flatMap g) :
    (twinned id copy sts).filterMap get = (sts.filterMap get).flatMap fun a => a :: g a := by
  induction sts with
  | nil => rfl
  | cons st sts ih =>
    rw [twinned_cons, List.filterMap_cons, List.filterMap_append, h, ih, List.filterMap_cons]
    cases get st with
    | none => rfl
    | some a => simp

theorem filterMap_nodeStyle?_twinned : (twinned id copy sts).filterMap Statement.nodeStyle? =
    (sts.filterMap Statement.nodeStyle?).flatMap fun d => d :: d.twins id copy :=
  filterMap_twinned_eq_flatMap fun st => by
    cases st <;> simp [Statement.twins, Statement.nodeStyle?, List.filterMap_map, Function.comp_def]

theorem filterMap_classUse?_twinned : (twinned id copy sts).filterMap Statement.classUse? =
    (sts.filterMap Statement.classUse?).flatMap fun d => d :: d.twins id copy :=
  filterMap_twinned_eq_flatMap fun st => by
    cases st <;> simp [Statement.twins, Statement.classUse?, List.filterMap_map, Function.comp_def]

theorem tokenIds_twinned : tokenIds (twinned id copy sts) = tokenIds sts := by
  rw [tokenIds, flatMap_twinned (fun _ => rfl) fun _ => rfl]
  rfl

theorem openAfter_twinned : openAfter outer (twinned id copy sts) = openAfter outer sts := by
  induction sts generalizing outer with
  | nil => rfl
  | cons st sts ih =>
    rw [twinned_cons, openAfter_cons, openAfter_append, ih, openAfter_cons,
      openAfter_of_stay fun st' hst' => (Statement.isDirective_of_mem_twins hst').eq_nil.2.2.2]

theorem placesIn_twinned : placesIn outer (twinned id copy sts) = placesIn outer sts := by
  induction sts generalizing outer with
  | nil => rfl
  | cons st sts ih =>
    have hstay : openAfter (st.openBehind outer) (st.twins id copy) = st.openBehind outer :=
      openAfter_of_stay (fun st' hst' => (Statement.isDirective_of_mem_twins hst').eq_nil.2.2.2) _
    have hnil : placesIn (st.openBehind outer) (st.twins id copy) = [] := by
      rcases st.twins_eq_nil_or_singleton id copy with hst | ⟨d, hst⟩ | ⟨d, hst⟩ <;> rw [hst] <;> rfl
    rw [twinned_cons, placesIn, placesIn_append, hnil, hstay, ih, placesIn]
    rfl

/-! ## The node and its twin -/

/-- Between the statements `above` and `below` of the source `s` stands the line `t` in `s'`, for a node
that is new, and the directives about the node `id` are said of it, too. -/
structure IsTwinned (id : Text) (t : NodeLine) (above below : List Statement) (s s' : Source) :
    Prop where
  fresh : t.token.id ∉ (View.ofSource s).ids
  old : (statements s).map Prod.snd = above ++ below
  new : (statements s').map Prod.snd =
    twinned id t.token.id above ++ .node t :: twinned id t.token.id below

namespace IsTwinned

variable (h : IsTwinned id t above below s s')

include h

theorem flatMap_eq {α : Type} {f : Statement → List α}
    (hstyle : ∀ d, f (.nodeStyle d) = []) (hclass : ∀ d, f (.classUse d) = []) :
    ((statements s').map Prod.snd).flatMap f = above.flatMap f ++ f (.node t) ++ below.flatMap f := by
  rw [h.new, List.flatMap_append, List.flatMap_cons, flatMap_twinned hstyle hclass,
    flatMap_twinned hstyle hclass, List.append_assoc]

theorem filterMap_eq {α : Type} {get : Statement → Option α} (hnode : ∀ n, get (.node n) = none)
    (hstyle : ∀ d, get (.nodeStyle d) = none) (hclass : ∀ d, get (.classUse d) = none) :
    ((statements s').map Prod.snd).filterMap get = ((statements s).map Prod.snd).filterMap get := by
  rw [h.new, h.old, List.filterMap_append, List.filterMap_cons, hnode, filterMap_twinned hstyle hclass,
    filterMap_twinned hstyle hclass, List.filterMap_append]

theorem map_link :
    (View.ofSource s').links.map (·.link) = (View.ofSource s).links.map (·.link) := by
  rw [View.map_link_links, View.map_link_links]
  exact h.filterMap_eq (fun _ => rfl) (fun _ => rfl) fun _ => rfl

/-- The links are the same, at the same positions. -/
theorem map_index_link : (View.ofSource s').links.map (fun r => (r.index, r.link)) =
    (View.ofSource s).links.map fun r => (r.index, r.link) := by
  have hindex : ∀ s : Source, (View.ofSource s).links.map (fun r => (r.index, r.link)) =
      ((View.ofSource s).links.map (·.link)).zipIdx.map Prod.swap := by
    intro s
    refine List.ext_getElem? fun i => ?_
    rw [List.getElem?_map, List.getElem?_map, List.getElem?_zipIdx, List.getElem?_map]
    cases hr : (View.ofSource s).links[i]? with
    | none => rfl
    | some r => simp [View.index_of_getElem?_links hr]
  rw [hindex, hindex, h.map_link]

theorem subgraphIds : (View.ofSource s').subgraphIds = (View.ofSource s).subgraphIds := by
  rw [View.subgraphIds_ofSource, View.subgraphIds_ofSource]
  exact h.filterMap_eq (fun _ => rfl) (fun _ => rfl) fun _ => rfl

theorem linkStyles :
    (View.ofSource s').linkStyles.map Prod.snd = (View.ofSource s).linkStyles.map Prod.snd := by
  rw [View.linkStyles_ofSource, View.linkStyles_ofSource, map_snd_found, map_snd_found]
  exact h.filterMap_eq (fun _ => rfl) (fun _ => rfl) fun _ => rfl

theorem classDefs :
    (View.ofSource s').classDefs.map Prod.snd = (View.ofSource s).classDefs.map Prod.snd := by
  rw [View.classDefs_ofSource, View.classDefs_ofSource, map_snd_found, map_snd_found]
  exact h.filterMap_eq (fun _ => rfl) (fun _ => rfl) fun _ => rfl

/-- Behind every style of the node stands one of its twin. -/
theorem styles : (View.ofSource s').styles.map Prod.snd =
    ((View.ofSource s).styles.map Prod.snd).flatMap fun d => d :: d.twins id t.token.id := by
  rw [View.styles_ofSource, View.styles_ofSource, map_snd_found, map_snd_found, h.new, h.old,
    List.filterMap_append, List.filterMap_append, List.flatMap_append, List.filterMap_cons,
    filterMap_nodeStyle?_twinned, filterMap_nodeStyle?_twinned]
  rfl

/-- Behind every class of the node stands one of its twin. -/
theorem classes : (View.ofSource s').classes.map Prod.snd =
    ((View.ofSource s).classes.map Prod.snd).flatMap fun d => d :: d.twins id t.token.id := by
  rw [View.classes_ofSource, View.classes_ofSource, map_snd_found, map_snd_found, h.new, h.old,
    List.filterMap_append, List.filterMap_append, List.flatMap_append, List.filterMap_cons,
    filterMap_classUse?_twinned, filterMap_classUse?_twinned]
  rfl

/-! ## Nodes -/

theorem not_mem_tokenIds : t.token.id ∉ tokenIds (above ++ below) := by
  intro hmem
  rw [← h.old, tokenIds, ← View.map_snd_mentions] at hmem
  obtain ⟨token, htoken, hid⟩ := List.mem_map.1 hmem
  obtain ⟨p, hp, rfl⟩ := List.mem_map.1 htoken
  exact h.fresh (hid ▸ View.mem_ids_of_mem_mentions hp)

theorem not_mem_subgraphIds : t.token.id ∉ (View.ofSource s).subgraphIds := fun hmem =>
  h.fresh (List.mem_append_right _ hmem)

theorem mem_tokenIds_iff : x ∈ tokenIds ((statements s').map Prod.snd) ↔
    x = t.token.id ∨ x ∈ tokenIds ((statements s).map Prod.snd) := by
  rw [h.new, h.old, tokenIds_append, tokenIds_append, ← List.singleton_append, tokenIds_append,
    tokenIds_twinned, tokenIds_twinned, show tokenIds [.node t] = [t.token.id] from rfl]
  simp only [List.mem_append, List.mem_singleton]
  tauto

/-- There is one more node. -/
theorem perm_nodes : ((View.ofSource s').nodes.map (·.id)).Perm
    (t.token.id :: (View.ofSource s).nodes.map (·.id)) := by
  have hmem : ∀ (s : Source) (x : Text), x ∈ (View.ofSource s).nodes.map (·.id) ↔
      x ∉ (View.ofSource s).subgraphIds ∧ x ∈ tokenIds ((statements s).map Prod.snd) := by
    intro s x
    rw [← View.isSome_node?_iff_tokenIds, View.node?, List.find?_isSome, List.mem_map]
    simp only [decide_eq_true_eq]
  have hnew : t.token.id ∉ (View.ofSource s).nodes.map (·.id) := fun hmem =>
    h.fresh (List.mem_append_left _ hmem)
  refine (List.perm_ext_iff_of_nodup (View.nodup_nodes s')
    (List.nodup_cons.2 ⟨hnew, View.nodup_nodes s⟩)).2 fun x => ?_
  rw [hmem, List.mem_cons, hmem, h.subgraphIds, h.mem_tokenIds_iff]
  constructor
  · rintro ⟨hx, rfl | hmem⟩
    exacts [.inl rfl, .inr ⟨hx, hmem⟩]
  · rintro (rfl | ⟨hx, hmem⟩)
    exacts [⟨h.not_mem_subgraphIds, .inl rfl⟩, ⟨hx, .inr hmem⟩]

/-- The places are the old ones, and one in the subgraph that is open at the new line. -/
theorem placesIn_eq : placesIn [] ((statements s').map Prod.snd) =
    placesIn [] above ++ (t.token.id, (openAfter [] above).head?) ::
      placesIn (openAfter [] above) below := by
  rw [h.new, placesIn_append, placesIn_twinned, openAfter_twinned, placesIn]
  exact congrArg (placesIn [] above ++ (t.token.id, _) :: ·) placesIn_twinned

theorem placesIn_old : placesIn [] ((statements s).map Prod.snd) =
    placesIn [] above ++ placesIn (openAfter [] above) below := by
  rw [h.old, placesIn_append]

theorem definitions_eq : ((statements s').map Prod.snd).flatMap (Statement.definitionsOf x) =
    above.flatMap (Statement.definitionsOf x) ++ (Statement.node t).definitionsOf x ++
      below.flatMap (Statement.definitionsOf x) :=
  h.flatMap_eq (fun _ => rfl) fun _ => rfl

/-- All other nodes keep their definitions and subgraphs. -/
theorem others (hx : x ≠ t.token.id) :
    ((View.ofSource s').node? x).map (fun n => (n.definition, n.subgraph)) =
      ((View.ofSource s).node? x).map fun n => (n.definition, n.subgraph) := by
  have hsome : ((View.ofSource s').node? x).isSome ↔ ((View.ofSource s).node? x).isSome := by
    rw [View.isSome_node?_iff_tokenIds, View.isSome_node?_iff_tokenIds, h.subgraphIds,
      h.mem_tokenIds_iff, or_iff_right hx]
  cases hn : (View.ofSource s).node? x with
  | none =>
    rw [hn] at hsome
    rw [Option.not_isSome_iff_eq_none.1 fun hsome' => absurd (hsome.1 hsome') (by simp)]
  | some n =>
    rw [hn] at hsome
    obtain ⟨n', hn'⟩ := Option.isSome_iff_exists.1 (hsome.2 rfl)
    obtain ⟨hmem, rfl⟩ := View.node?_eq_some_iff.1 hn
    obtain ⟨hmem', hid'⟩ := View.node?_eq_some_iff.1 hn'
    have hdefinition : n'.definition = n.definition := by
      have hnil : (Statement.node t).definitionsOf n.id = [] := by
        simp [Statement.definitionsOf, Statement.tokens, hx.symm]
      rw [View.definition_eq hmem', View.definition_eq hmem, hid', h.definitions_eq, hnil,
        List.append_nil, h.old, List.flatMap_append]
    have hsubgraph : n'.subgraph = n.subgraph := by
      have hnone : firstPlace n.id [(t.token.id, (openAfter [] above).head?)] = none :=
        firstPlace_eq_none (List.forall_mem_singleton.2 hx.symm)
      rw [View.subgraph_eq_firstPlace_placesIn hmem', View.subgraph_eq_firstPlace_placesIn hmem, hid',
        h.placesIn_eq, h.placesIn_old, ← List.singleton_append, firstPlace_append, firstPlace_append,
        firstPlace_append, hnone, Option.none_or]
    rw [hn', Option.map_some, Option.map_some, hdefinition, hsubgraph]

/-- The new node has the definition of its line and belongs to the subgraph that is open there. -/
theorem exists_node? : ∃ n', (View.ofSource s').node? t.token.id = some n' ∧
    n'.definition = t.token.definition ∧ n'.subgraph = (openAfter [] above).head? := by
  obtain ⟨n', hn'⟩ := Option.isSome_iff_exists.1 (View.isSome_node?_iff_tokenIds.2
    ⟨h.subgraphIds ▸ h.not_mem_subgraphIds, h.mem_tokenIds_iff.2 (.inl rfl)⟩)
  obtain ⟨hmem, hid⟩ := View.node?_eq_some_iff.1 hn'
  have hnot := h.not_mem_tokenIds
  rw [tokenIds_append, List.mem_append, not_or] at hnot
  obtain ⟨habove, hbelow⟩ := hnot
  refine ⟨n', hn', ?_, ?_⟩
  · have hnil : ∀ {sts : List Statement}, t.token.id ∉ tokenIds sts →
        sts.flatMap (Statement.definitionsOf t.token.id) = [] := by
      intro sts hsts
      rw [flatMap_definitionsOf, List.filter_eq_nil_iff.2, List.filterMap_nil]
      intro token htoken hid
      exact hsts (List.mem_map.2 ⟨token, htoken, by simpa using hid⟩)
    rw [View.definition_eq hmem, hid, h.definitions_eq, hnil habove, hnil hbelow]
    cases ht : t.token.definition <;>
      simp [Statement.definitionsOf, Statement.tokens, ht, View.richest, View.pick]
  · have hnone : ∀ {outer : List Text} {sts : List Statement}, t.token.id ∉ tokenIds sts →
        firstPlace t.token.id (placesIn outer sts) = none := by
      intro outer sts hsts
      refine firstPlace_eq_none fun p hp heq => hsts ?_
      rw [← map_fst_placesIn outer]
      exact List.mem_map.2 ⟨p, hp, heq⟩
    rw [View.subgraph_eq_firstPlace_placesIn hmem, hid, h.placesIn_eq, ← List.singleton_append,
      firstPlace_append, firstPlace_append, hnone habove, hnone hbelow, firstPlace_singleton_self,
      Option.none_or, Option.or_none]

/-- The new node is one more member of the subgraph that is open at its line. -/
theorem isMember_iff : (View.ofSource s').IsMember name x ↔ (View.ofSource s).IsMember name x ∨
    x = t.token.id ∧ (openAfter [] above).head? = some name := by
  rw [View.isMember_iff, View.isMember_iff, h.subgraphIds, h.placesIn_eq, h.placesIn_old]
  have hplace : (x, some name) = (t.token.id, (openAfter [] above).head?) ↔
      x = t.token.id ∧ (openAfter [] above).head? = some name := by
    rw [Prod.mk.injEq, @eq_comm _ (some name)]
  have hnot := h.not_mem_subgraphIds
  rw [List.mem_append, List.mem_cons, List.mem_append, hplace]
  constructor
  · rintro ⟨hmem | hmem | hmem, hx⟩
    exacts [.inl ⟨.inl hmem, hx⟩, .inr hmem, .inl ⟨.inr hmem, hx⟩]
  · rintro (⟨hmem | hmem, hx⟩ | ⟨rfl, hmem⟩)
    exacts [⟨.inl hmem, hx⟩, ⟨.inr (.inr hmem), hx⟩, ⟨.inr (.inl ⟨rfl, hmem⟩), hnot⟩]

end IsTwinned

end DiagramEditor.Flowchart
