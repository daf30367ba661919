import DiagramEditor.Proofs.Edit.Flowchart.Restore

/-!
# What a deletion leaves

Deleting a node or a link takes away the links that it has to and no other one, and whatever else is
known about the nodes stays (`delete_isCascaded`): the links that stay are the old ones, in order and
with new numbers, a deleted node is mentioned nowhere, and every node that had a definition has one.
A definition that stood on deleted lines only is written anew and reads as it did before.
-/

namespace DiagramEditor.Edit.Flowchart

open DiagramEditor.Flowchart Source Text

variable {targets : List Text} {extra : List Nat} {s s' removed : Source} {removal : Removal}
  {w id line : Text} {front body : List Text}

/-! ## Stages -/

/-- A deletion that succeeds: the lines that go by the plan leave `removed`, and this source grows by
definitions, indented by `w`, and by mentions of the neighbors. -/
structure Cascade (targets : List Text) (extra : List Nat) (removal : Removal) (removed : Source)
    (w : Text) (s s' : Source) : Prop where
  plan : Removal.plan targets extra (View.ofSource s) s = .ok removal
  isBlank : IsBlank w
  declared : ∃ front line body,
    IsDeclared .flowchart front line (keptBody removal s) removed ∧
    IsDeclared .flowchart front line body s' ∧
    Grown (IsMentionLine ((neighbors targets removal.lines (View.ofSource s)).map (·.id)))
      (definitionLines w (restored (View.ofSource removed)
        (neighbors targets removal.lines (View.ofSource s))) ++ keptBody removal s) body

theorem areScanned_neighbors (targets : List Text) (lines : List Nat) (s : Source) :
    AreScanned (neighbors targets lines (View.ofSource s)) := fun n hn =>
  areScanned_nodes s n (List.mem_filter.1 hn).1

theorem mem_neighbors_iff {v : View} {lines : List Nat} {n : NodeRecord} :
    n ∈ neighbors targets lines v ↔
      n ∈ v.nodes ∧ n.id ∉ targets ∧ ∃ m ∈ n.mentions, m.line ∈ lines := by
  simp only [neighbors, List.mem_filter, Bool.and_eq_true, Bool.not_eq_true', ← Bool.not_eq_true,
    List.contains_iff_mem, List.any_eq_true]

/-- What a line that goes mentions is a neighbor, unless it is deleted. -/
theorem exists_mem_neighbors {st : Statement} {i : Nat} {lines : List Nat} (hst : (i, st) ∈ statements s)
    (hi : i ∈ lines) (hid : id ∈ st.tokens.map (·.id)) (hnode : id ∉ (View.ofSource s).subgraphIds)
    (htarget : id ∉ targets) : ∃ n ∈ neighbors targets lines (View.ofSource s), n.id = id := by
  obtain ⟨n, hn, rfl⟩ := View.exists_mem_nodes_of_token hst hid hnode
  obtain ⟨m, hm, rfl⟩ := (View.exists_mention_iff hn).2 ⟨st, hst, hid⟩
  exact ⟨n, mem_neighbors_iff.2 ⟨hn, htarget, m, hm, hi⟩, rfl⟩

/-- The stages of a deletion: the lines that go leave `removed`, the definitions that are missing there
are written below the declaration, and then the neighbors are mentioned where they were members. -/
theorem exists_stages_of_isDeclared (hdecl : IsDeclared .flowchart front line body s)
    (hextra : ∀ i ∈ extra, front.length < i)
    (hok : deleteCascade targets extra (View.ofSource s) s = .ok s') :
    ∃ removal removed defined w front line,
      Removal.plan targets extra (View.ofSource s) s = .ok removal ∧ IsBlank w ∧
      IsDeclared .flowchart front line (keptBody removal s) removed ∧
      IsDeclared .flowchart front line (definitionLines w (restored (View.ofSource removed)
        (neighbors targets removal.lines (View.ofSource s))) ++ keptBody removal s) defined ∧
      restoreMembership (View.ofSource s) (neighbors targets removal.lines (View.ofSource s)) defined =
        .ok s' := by
  obtain ⟨removal, hplan, hok⟩ := bind_eq_ok.1 hok
  obtain ⟨removed, happly, hok⟩ := bind_eq_ok.1 hok
  obtain ⟨defined, hdefine, hok⟩ := bind_eq_ok.1 hok
  obtain ⟨front', -, hremoved⟩ := isDeclared_apply hdecl hextra hplan happly
  obtain ⟨w, hw, hdefined⟩ := restoreDefinitions_eq_ok hremoved hdefine
  exact ⟨removal, removed, defined, w, front', line, hplan, hw, hremoved, hdefined, hok⟩

theorem exists_stages (hkind : s.kind? = some .flowchart) (hextra : AreLinkLines extra s)
    (hok : deleteCascade targets extra (View.ofSource s) s = .ok s') :
    ∃ removal removed defined w front line,
      Removal.plan targets extra (View.ofSource s) s = .ok removal ∧ IsBlank w ∧
      IsDeclared .flowchart front line (keptBody removal s) removed ∧
      IsDeclared .flowchart front line (definitionLines w (restored (View.ofSource removed)
        (neighbors targets removal.lines (View.ofSource s))) ++ keptBody removal s) defined ∧
      restoreMembership (View.ofSource s) (neighbors targets removal.lines (View.ofSource s)) defined =
        .ok s' := by
  obtain ⟨front, line, body, hdecl⟩ := exists_isDeclared hkind
  exact exists_stages_of_isDeclared hdecl (fun _ => hextra.lt_of_mem hdecl) hok

theorem exists_cascade_of_isDeclared (hdecl : IsDeclared .flowchart front line body s)
    (hextra : ∀ i ∈ extra, front.length < i)
    (hok : deleteCascade targets extra (View.ofSource s) s = .ok s') :
    ∃ removal removed w, Cascade targets extra removal removed w s s' := by
  obtain ⟨removal, removed, defined, w, front, line, hplan, hw, hremoved, hdefined, hok⟩ :=
    exists_stages_of_isDeclared hdecl hextra hok
  obtain ⟨body, hgrown, hdecl⟩ :=
    restoreMembership_eq_ok (areScanned_neighbors targets removal.lines s) hdefined hok
  exact ⟨removal, removed, w, hplan, hw, front, line, body, hremoved, hdecl, hgrown⟩

theorem exists_cascade (hkind : s.kind? = some .flowchart) (hextra : AreLinkLines extra s)
    (hok : deleteCascade targets extra (View.ofSource s) s = .ok s') :
    ∃ removal removed w, Cascade targets extra removal removed w s s' := by
  obtain ⟨front, line, body, hdecl⟩ := exists_isDeclared hkind
  exact exists_cascade_of_isDeclared hdecl (fun _ => hextra.lt_of_mem hdecl) hok

namespace Cascade

variable {β : Type} {f : Statement → List β}

/-- What mentions of the neighbors do not have is read off the lines that are left, and off the
definitions that are written anew. -/
theorem flatMap_statements_of_neighbors (h : Cascade targets extra removal removed w s s')
    (hmention : ∀ w, ∀ id ∉ targets, f (.node ⟨w, ⟨id, none, none, id⟩, []⟩) = [])
    (hend : f .blockEnd = []) (hother : f .other = []) :
    ((statements s').map Prod.snd).flatMap f =
      ((restored (View.ofSource removed) (neighbors targets removal.lines (View.ofSource s))).flatMap
        fun p => f (.node ⟨w, ⟨p.1, some p.2, none, p.2.render p.1⟩, []⟩)) ++
      (keptBody removal s).flatMap fun text => f (.ofLine text) := by
  obtain ⟨-, hw, front, line, body, -, hdecl, hgrown⟩ := h
  have hempty : ∀ text, IsMentionLine ((neighbors targets removal.lines (View.ofSource s)).map
      (·.id)) text → f (Statement.ofLine text) = [] := by
    rintro _ ⟨v, id, hv, hid, hin, rfl⟩
    obtain ⟨n, hn, rfl⟩ := List.mem_map.1 hin
    rcases ofLine_ident hv hid with heq | heq | heq <;> rw [heq]
    exacts [hmention v n.id (mem_neighbors_iff.1 hn).2.1, hend, hother]
  have hlines := ofLine_definitionLines hw (View.ofSource removed)
    (areScanned_neighbors targets removal.lines s)
  rw [map_snd_statements hdecl, List.flatMap_map, hgrown.flatMap_eq hempty, List.flatMap_append]
  congr 1
  rw [← List.flatMap_map Statement.ofLine f, hlines, List.flatMap_map]

/-- What mentions do not have is read off the lines that are left, and off the definitions that are
written anew. -/
theorem flatMap_statements (h : Cascade targets extra removal removed w s s')
    (hmention : ∀ w id, f (.node ⟨w, ⟨id, none, none, id⟩, []⟩) = []) (hend : f .blockEnd = [])
    (hother : f .other = []) : ((statements s').map Prod.snd).flatMap f =
      ((restored (View.ofSource removed) (neighbors targets removal.lines (View.ofSource s))).flatMap
        fun p => f (.node ⟨w, ⟨p.1, some p.2, none, p.2.render p.1⟩, []⟩)) ++
      (keptBody removal s).flatMap fun text => f (.ofLine text) :=
  h.flatMap_statements_of_neighbors (fun w id _ => hmention w id) hend hother

/-- A line in the end: one that is left, or a neighbor that is defined or mentioned. -/
theorem mem_body (h : Cascade targets extra removal removed w s s') {i : Nat} {text : Text}
    (hmem : (i, text) ∈ s'.body .flowchart) : text ∈ keptBody removal s ∨
      ∃ v id, IsBlank v ∧ NodeToken.IsIdent id ∧ id ∉ targets ∧ (text = v ++ id ∨
        ∃ d : NodeDefinition,
          Statement.ofLine text = .node ⟨v, ⟨id, some d, none, d.render id⟩, []⟩) := by
  obtain ⟨-, hw, front, line, body, -, hdecl, hgrown⟩ := h
  have hneighbor : ∀ n ∈ neighbors targets removal.lines (View.ofSource s),
      NodeToken.IsIdent n.id ∧ n.id ∉ targets := fun n hn =>
    ⟨(areScanned_neighbors targets removal.lines s n hn).1, (mem_neighbors_iff.1 hn).2.1⟩
  rw [hdecl.body_eq] at hmem
  have hmem := List.mem_of_getElem? (mem_numbered.1 hmem).2
  rcases hgrown.mem_or hmem with hmem | ⟨v, id, hv, hid, hin, rfl⟩
  · rcases List.mem_append.1 hmem with hmem | hmem
    · have hread := List.mem_map_of_mem (f := Statement.ofLine) hmem
      rw [ofLine_definitionLines hw (View.ofSource removed)
        (areScanned_neighbors targets removal.lines s)] at hread
      obtain ⟨⟨id, d⟩, hp, heq⟩ := List.mem_map.1 hread
      obtain ⟨n, hn, rfl, -⟩ := mem_restored.1 hp
      exact .inr ⟨w, n.id, hw, (hneighbor n hn).1, (hneighbor n hn).2, .inr ⟨d, heq.symm⟩⟩
    · exact .inl hmem
  · obtain ⟨n, hn, rfl⟩ := List.mem_map.1 hin
    exact .inr ⟨v, n.id, hv, hid, (hneighbor n hn).2, .inl rfl⟩

/-- What neither nodes nor bare ids have is read off the lines that are left. -/
theorem filterMap_body (h : Cascade targets extra removal removed w s s') {g : Text → Option β}
    (hnode : ∀ text n, Statement.ofLine text = .node n → g text = none)
    (hend : ∀ text, Statement.ofLine text = .blockEnd → g text = none)
    (hother : ∀ text, Statement.ofLine text = .other → g text = none) :
    ((s'.body .flowchart).map Prod.snd).filterMap g = (keptBody removal s).filterMap g := by
  obtain ⟨-, hw, front, line, body, -, hdecl, hgrown⟩ := h
  have hempty : ∀ text, IsMentionLine ((neighbors targets removal.lines (View.ofSource s)).map
      (·.id)) text → g text = none := by
    rintro _ ⟨v, id, hv, hid, -, rfl⟩
    rcases ofLine_ident hv hid with heq | heq | heq
    exacts [hnode _ _ heq, hend _ heq, hother _ heq]
  rw [hdecl.body_eq, map_snd_numbered, hgrown.filterMap_eq hempty, List.filterMap_append,
    List.filterMap_eq_nil_iff.2, List.nil_append]
  intro text htext
  have hread := List.mem_map_of_mem (f := Statement.ofLine) htext
  rw [ofLine_definitionLines hw (View.ofSource removed)
    (areScanned_neighbors targets removal.lines s)] at hread
  obtain ⟨_, -, heq⟩ := List.mem_map.1 hread
  exact hnode _ _ heq.symm

/-- What neither nodes nor directives have is read off the statements that stay. -/
theorem flatMap_kept (h : Cascade targets extra removal removed w s s')
    (hnode : ∀ n, f (.node n) = []) (hend : f .blockEnd = [])
    (hdirective : ∀ st, st.IsDirective → f st = []) : ((statements s').map Prod.snd).flatMap f =
      ((keptStatements removal s).map Prod.snd).flatMap f := by
  rw [h.flatMap_statements (fun _ _ => hnode _) hend (hdirective _ trivial),
    List.flatMap_eq_nil_iff.2 fun p _ => hnode _, List.nil_append, flatMap_keptBody h.plan hdirective]

theorem filterMap_kept {f : Statement → Option β} (h : Cascade targets extra removal removed w s s')
    (hnode : ∀ n, f (.node n) = none) (hend : f .blockEnd = none)
    (hdirective : ∀ st, st.IsDirective → f st = none) :
    ((statements s').map Prod.snd).filterMap f =
      ((keptStatements removal s).map Prod.snd).filterMap f := by
  rw [List.filterMap_eq_flatMap_toList, List.filterMap_eq_flatMap_toList]
  refine h.flatMap_kept (fun n => ?_) ?_ fun st hst => ?_
  · rw [hnode]; rfl
  · rw [hend]; rfl
  · rw [hdirective st hst]; rfl

/-! ## Links and headers -/

/-- The links are left whose lines stay. -/
theorem map_link_links_eq (h : Cascade targets extra removal removed w s s') :
    (View.ofSource s').links.map (·.link) =
      ((View.ofSource s).links.filter fun r => !removal.lines.contains r.line).map (·.link) := by
  rw [View.map_link_links, h.filterMap_kept (fun _ => rfl) rfl (by rintro (_ | _) ⟨⟩ <;> rfl),
    keptStatements, ← View.map_link_filter_links fun i => !removal.lines.contains i]

section

variable (hextra : AreLinkLines extra s) (h : Cascade targets extra removal removed w s s')

include hextra h

/-- The links that do not go are left. -/
theorem map_link_links {gone : LinkRecord → Bool}
    (hgone : ∀ r ∈ (View.ofSource s).links, gone r = true ↔ Goes targets extra r.line r.link) :
    (View.ofSource s').links.map (·.link) =
      ((View.ofSource s).links.filter fun r => !gone r).map (·.link) := by
  rw [h.map_link_links_eq]
  congr 1
  refine List.filter_congr fun r hr => ?_
  rw [Bool.eq_iff_iff, Bool.not_eq_true', Bool.not_eq_true', ← Bool.not_eq_true,
    ← Bool.not_eq_true, List.contains_iff_mem, hgone r hr,
    mem_lines_of_link hextra h.plan (View.mem_links hr)]

theorem subgraphIds : (View.ofSource s').subgraphIds = (View.ofSource s).subgraphIds := by
  rw [View.subgraphIds_ofSource, View.subgraphIds_ofSource,
    h.filterMap_kept (fun _ => rfl) rfl (by rintro (_ | _) ⟨⟩ <;> rfl), keptStatements,
    List.filterMap_map, List.filterMap_map, List.filterMap_filter]
  refine List.filterMap_congr fun p hp => ?_
  obtain ⟨i, st⟩ := p
  cases st with
  | subgraphOpen header => simp [not_mem_lines_of_subgraphOpen hextra h.plan hp]
  | _ => simp [Statement.subgraph?]

end

/-! ## Nodes -/

/-- A node that is mentioned in the end was mentioned on a line that stays, or is a neighbor. -/
theorem mem_tokens {t : NodeToken} (h : Cascade targets extra removal removed w s s')
    (ht : t ∈ ((statements s').map Prod.snd).flatMap Statement.tokens) :
    (∃ p ∈ keptStatements removal s, t ∈ p.2.tokens) ∨ t.id ∉ targets := by
  obtain ⟨st, hst, ht⟩ := List.mem_flatMap.1 ht
  obtain ⟨p, hp, rfl⟩ := List.mem_map.1 hst
  obtain ⟨text, hmem, hread⟩ := mem_statements.1 hp
  rw [hread] at ht
  rcases h.mem_body hmem with hmem | ⟨v, id, hv, hid, htarget, rfl | ⟨d, heq⟩⟩
  · have hkept : t ∈ (keptBody removal s).flatMap fun text => (Statement.ofLine text).tokens :=
      List.mem_flatMap.2 ⟨text, hmem, ht⟩
    rw [flatMap_keptBody (f := Statement.tokens) h.plan (by rintro (_ | _) ⟨⟩ <;> rfl)] at hkept
    obtain ⟨st, hst, ht⟩ := List.mem_flatMap.1 hkept
    obtain ⟨p, hp, rfl⟩ := List.mem_map.1 hst
    exact .inl ⟨p, hp, ht⟩
  · rcases ofLine_ident hv hid with heq | heq | heq <;> rw [heq] at ht
    · rw [List.mem_singleton.1 ht]
      exact .inr htarget
    · cases ht
    · cases ht
  · rw [heq] at ht
    rw [List.mem_singleton.1 ht]
    exact .inr htarget

/-- The definitions of a node in the end: those written anew and those that are left. -/
theorem definitionsOf_eq (h : Cascade targets extra removal removed w s s') (id : Text) :
    ((statements s').map Prod.snd).flatMap (Statement.definitionsOf id) =
    ((restored (View.ofSource removed) (neighbors targets removal.lines (View.ofSource s))).filter
        (·.1 = id)).map Prod.snd ++
      ((keptStatements removal s).map Prod.snd).flatMap (Statement.definitionsOf id) := by
  rw [h.flatMap_statements (fun v m => ?_) rfl rfl, flatMap_keptBody h.plan]
  · congr 1
    rw [← List.filterMap_eq_map, List.filterMap_filter, List.filterMap_eq_flatMap_toList]
    refine List.flatMap_congr fun p _ => ?_
    by_cases hp : p.1 = id <;> simp [Statement.definitionsOf, Statement.tokens, hp]
  · rintro (_ | _) ⟨⟩ <;> rfl
  · by_cases hm : m = id <;> simp [Statement.definitionsOf, Statement.tokens, hm]

theorem definitionsOf_removed (h : Cascade targets extra removal removed w s s') (id : Text) :
    ((statements removed).map Prod.snd).flatMap (Statement.definitionsOf id) =
      ((keptStatements removal s).map Prod.snd).flatMap (Statement.definitionsOf id) := by
  obtain ⟨hplan, -, front, line, body, hdecl, -⟩ := h
  rw [map_snd_statements hdecl, List.flatMap_map, flatMap_keptBody hplan]
  rintro (_ | _) ⟨⟩ <;> rfl

/-- Where a node has no definition left, it gets its old one. -/
theorem mem_restored_iff (h : Cascade targets extra removal removed w s s') {n : NodeRecord} {d e : NodeDefinition}
    (hn : (View.ofSource s).node? id = some n) (hd : n.definition = some d) (hid : id ∉ targets)
    (hnone : ((keptStatements removal s).map Prod.snd).flatMap (Statement.definitionsOf id) = []) :
    (id, e) ∈ restored (View.ofSource removed) (neighbors targets removal.lines (View.ofSource s)) ↔
      e = d := by
  rw [mem_restored]
  constructor
  · rintro ⟨n', hn', hid', he, -⟩
    have hsame := View.node?_eq_some_iff.2 ⟨(mem_neighbors_iff.1 hn').1, hid'⟩
    rw [hn, Option.some.injEq] at hsame
    rw [← hsame, hd, Option.some.injEq] at he
    exact he.symm
  · rintro rfl
    obtain ⟨hmem, rfl⟩ := View.node?_eq_some_iff.1 hn
    refine ⟨n, mem_neighbors_iff.2 ⟨hmem, hid, ?_⟩, rfl, hd, fun m hm => ?_⟩
    · -- Some line defines the node, and no line that stays does.
      rw [View.definition_eq hmem] at hd
      obtain ⟨m, t, hmt, ht, hdef⟩ := View.mem_definitionsOf.1 (View.mem_of_richest hd)
      obtain ⟨⟨i, st⟩, hst, hin⟩ := View.mem_mentions.1 hmt
      obtain ⟨hline, -⟩ := View.line_defines_of_mem_mentions hin
      have hgone : i ∈ removal.lines := by
        by_contra hstay
        have hkept : (i, st) ∈ keptStatements removal s :=
          List.mem_filter.2 ⟨hst, by simpa using hstay⟩
        have := View.mem_definitionsOf.2 ⟨m, t, View.mem_mentions.2 ⟨_, hkept, hin⟩, ht, hdef⟩
        rw [hnone] at this
        cases this
      have hmention := (View.mem_mentions_of_node hmem).2 ⟨t, hmt, ht⟩
      exact ⟨m, hmention, hline ▸ hgone⟩
    · obtain ⟨hm, heq⟩ := View.node?_eq_some_iff.1 hm
      rw [View.definition_eq hm, heq, h.definitionsOf_removed, hnone]
      rfl

/-- A node that is not deleted keeps a definition, and keeps the one it had where all lines with a
definition go, unless its id becomes that of a subgraph. -/
theorem exists_node?_of_not_mem {n : NodeRecord} {d : NodeDefinition}
    (h : Cascade targets extra removal removed w s s') (hsub : id ∉ (View.ofSource s').subgraphIds)
    (hn : (View.ofSource s).node? id = some n) (hd : n.definition = some d) (hid : id ∉ targets) :
    ∃ n', (View.ofSource s').node? id = some n' ∧ n'.definition.isSome ∧
      ((∀ m ∈ n.mentions, m.defines = true → m.line ∈ removal.lines) → n'.definition = some d) := by
  have hne : ((statements s').map Prod.snd).flatMap (Statement.definitionsOf id) ≠ [] := by
    rw [h.definitionsOf_eq]
    intro hnil
    obtain ⟨hrestored, hnone⟩ := List.append_eq_nil_iff.1 hnil
    have hmem := (h.mem_restored_iff hn hd hid hnone).2 rfl
    rw [List.map_eq_nil_iff, List.filter_eq_nil_iff] at hrestored
    exact hrestored _ hmem (decide_eq_true rfl)
  obtain ⟨e, he⟩ := List.exists_mem_of_ne_nil _ hne
  obtain ⟨m, t, hmt, ht, -⟩ := View.mem_definitionsOf.1 he
  obtain ⟨n', hn', heq⟩ := View.exists_mem_nodes hmt (ht.symm ▸ hsub)
  have hid' : n'.id = id := heq.trans ht
  refine ⟨n', View.node?_eq_some_iff.2 ⟨hn', hid'⟩, ?_, fun hgone => ?_⟩
  · rw [View.definition_eq hn', hid', View.isSome_richest]
    exact hne
  · have hnone : ((keptStatements removal s).map Prod.snd).flatMap (Statement.definitionsOf id) = [] := by
      refine List.eq_nil_iff_forall_not_mem.2 fun e he => ?_
      obtain ⟨m, t, hmt, ht, hdef⟩ := View.mem_definitionsOf.1 he
      obtain ⟨⟨i, st⟩, hkept, hin⟩ := View.mem_mentions.1 hmt
      obtain ⟨hst, hstay⟩ := List.mem_filter.1 hkept
      obtain ⟨hline, hdefines⟩ := View.line_defines_of_mem_mentions hin
      obtain ⟨hmem, rfl⟩ := View.node?_eq_some_iff.1 hn
      have hmention := (View.mem_mentions_of_node hmem).2
        ⟨t, View.mem_mentions.2 ⟨_, hst, hin⟩, ht⟩
      have := hgone m hmention (by rw [hdefines, hdef]; rfl)
      rw [hline] at this
      simp [this] at hstay
    obtain ⟨e, he⟩ := Option.isSome_iff_exists.1 (View.isSome_richest.2 hne)
    have hin := View.mem_of_richest he
    rw [h.definitionsOf_eq, hnone, List.append_nil] at hin
    obtain ⟨⟨id', e'⟩, hp, rfl⟩ := List.mem_map.1 hin
    obtain ⟨hrestored, heq⟩ := List.mem_filter.1 hp
    obtain rfl : id' = id := of_decide_eq_true heq
    rw [View.definition_eq hn', hid', he, (h.mem_restored_iff hn hd hid hnone).1 hrestored]

section

variable (hextra : AreLinkLines extra s) (h : Cascade targets extra removal removed w s s')

include hextra h

theorem node?_eq_none (hid : id ∈ targets) : (View.ofSource s').node? id = none := by
  refine Option.eq_none_iff_forall_ne_some.2 fun n hn => ?_
  obtain ⟨hnode, rfl⟩ := View.node?_eq_some_iff.1 hn
  have hsub : n.id ∉ (View.ofSource s).subgraphIds :=
    h.subgraphIds hextra ▸ View.not_mem_subgraphIds hnode
  obtain ⟨p, hp⟩ := List.exists_mem_of_ne_nil _ (View.mentionsOf_ne_nil hnode)
  obtain ⟨hmem, heq⟩ := List.mem_filter.1 hp
  have heq := of_decide_eq_true heq
  have htoken := List.mem_map_of_mem (f := Prod.snd) hmem
  rw [View.map_snd_mentions] at htoken
  rcases h.mem_tokens htoken with ⟨⟨i, st⟩, hkept, ht⟩ | hno
  · obtain ⟨hst, hkeep⟩ := List.mem_filter.1 hkept
    exact not_mem_targets_of_stays hextra h.plan hst (by simpa using hkeep)
      (List.mem_map.2 ⟨p.2, ht, heq⟩) hsub hid
  · exact hno (heq ▸ hid)

theorem exists_node? {n : NodeRecord} {d : NodeDefinition}
    (hn : (View.ofSource s).node? id = some n) (hd : n.definition = some d) (hid : id ∉ targets) :
    ∃ n', (View.ofSource s').node? id = some n' ∧ n'.definition.isSome ∧
      ((∀ m ∈ n.mentions, m.defines = true → m.line ∈ removal.lines) → n'.definition = some d) := by
  refine h.exists_node?_of_not_mem ?_ hn hd hid
  obtain ⟨hmem, rfl⟩ := View.node?_eq_some_iff.1 hn
  exact h.subgraphIds hextra ▸ View.not_mem_subgraphIds hmem

end

end Cascade

end DiagramEditor.Edit.Flowchart
