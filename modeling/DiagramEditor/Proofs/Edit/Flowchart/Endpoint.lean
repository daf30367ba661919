import DiagramEditor.Proofs.Edit.Flowchart.Membership

/-!
# The ends of a link that goes

A deletion leaves the subgraphs and brings no node, but it may take nodes along: a node is there as long
as some line mentions it, and the line of a link may be the only one. What keeps such a node is its
definition, which is written anew, and a subgraph that it is a member of, where it is mentioned again
(`mem_tokenIds_iff`). A node with neither goes with its last link (`IsDeletion.keepsIds`). An id that
begins other lines is not kept by its subgraph, since it mentions nothing where it stands alone.
-/

namespace DiagramEditor.Edit.Flowchart

open DiagramEditor.Flowchart Source Text
open NodeToken (IsIdent)

variable {s s' t t' : Source} {front body : List Text} {line id name : Text} {targets : List Text}
  {extra : List Nat} {removal : Removal}

/-! ## Mentions -/

/-- A source that is declared on the same line as `s` and has the subgraphs of `s`. -/
structure HasSubgraphsOf (front : List Text) (line : Text) (s t : Source) : Prop where
  declared : ∃ body, IsDeclared .flowchart front line body t
  subgraphIds : (View.ofSource t).subgraphIds = (View.ofSource s).subgraphIds

/-- A mention at the end of a subgraph adds the node to the mentioned ones, unless its id begins other
lines. -/
theorem HasSubgraphsOf.restoreMember (h : HasSubgraphsOf front line s t) (hid : IsIdent id)
    (hname : name ∈ (View.ofSource s).subgraphIds) (hok : restoreMember id t name = .ok t') :
    HasSubgraphsOf front line s t' ∧ ∀ x, x ∈ tokenIds ((statements t').map Prod.snd) ↔
      x ∈ tokenIds ((statements t).map Prod.snd) ∨ x = id ∧ id ∉ statementKeywords := by
  obtain ⟨⟨body, hdecl⟩, hsubgraphs⟩ := h
  rcases restoreMember_cases hdecl hok with
    ⟨rfl, hmember⟩ | ⟨g, before, after, w, -, hw, rfl, -, hdecl'⟩
  · refine ⟨⟨⟨body, hdecl⟩, hsubgraphs⟩, fun x => ⟨.inl, ?_⟩⟩
    rintro (h | ⟨rfl, -⟩)
    · exact h
    · exact (View.isMember_of_subgraph? (hsubgraphs ▸ hname) hmember).mem_tokenIds
  · have hcons : tokenIds (Statement.ofLine (w ++ id) :: after.map Statement.ofLine) =
        (Statement.ofLine (w ++ id)).tokens.map (·.id) ++ tokenIds (after.map Statement.ofLine) := by
      simp [tokenIds]
    refine ⟨⟨⟨_, hdecl'⟩, Eq.trans ?_ hsubgraphs⟩, fun x => ?_⟩
    · rw [View.subgraphIds_ofSource, View.subgraphIds_ofSource, map_snd_statements hdecl,
        map_snd_statements hdecl', List.map_append, List.map_append, List.map_cons,
        List.filterMap_append, List.filterMap_append, List.filterMap_cons_none]
      rcases ofLine_ident hw hid with h | h | h <;> rw [h] <;> rfl
    · rw [map_snd_statements hdecl, map_snd_statements hdecl', List.map_append, List.map_append,
        List.map_cons, tokenIds_append, tokenIds_append, hcons, List.mem_append, List.mem_append,
        List.mem_append, Statement.mem_tokens_ident_iff hw hid, or_left_comm, or_comm]

section

variable {removed defined : Source} {w : Text}
  (hplan : Removal.plan targets extra (View.ofSource s) s = .ok removal)

include hplan

/-- What is mentioned before the neighbors are. -/
theorem mem_tokenIds_defined_iff (hw : IsBlank w)
    (hdefined : IsDeclared .flowchart front line (definitionLines w (restored (View.ofSource removed)
      (neighbors targets removal.lines (View.ofSource s))) ++ keptBody removal s) defined) :
    id ∈ tokenIds ((statements defined).map Prod.snd) ↔
      (∃ d, (id, d) ∈ restored (View.ofSource removed)
        (neighbors targets removal.lines (View.ofSource s))) ∨
      ∃ i st, (i, st) ∈ statements s ∧ i ∉ removal.lines ∧ id ∈ st.tokens.map (·.id) := by
  rw [map_snd_statements hdefined, List.map_append, tokenIds_append, List.mem_append]
  refine or_congr ?_ ?_
  · rw [ofLine_definitionLines hw (View.ofSource removed)
      (areScanned_neighbors targets removal.lines s)]
    simp [tokenIds, Statement.tokens]
  · rw [tokenIds, List.flatMap_map, flatMap_keptBody hplan (by rintro (_ | _) ⟨⟩ <;> rfl), keptStatements]
    simp only [List.mem_map, List.mem_flatMap, List.mem_filter, Prod.exists, Bool.not_eq_true',
      ← Bool.not_eq_true, List.contains_iff_mem]
    constructor
    · rintro ⟨t, ⟨_, ⟨i, st, ⟨hst, hi⟩, rfl⟩, ht⟩, rfl⟩
      exact ⟨i, st, hst, hi, t, ht, rfl⟩
    · rintro ⟨i, st, hst, hi, t, ht, rfl⟩
      exact ⟨t, ⟨st, ⟨i, st, ⟨hst, hi⟩, rfl⟩, ht⟩, rfl⟩

end

/-- What is mentioned in the end: the definitions that are written anew, what the lines that stay
mention, and the neighbors that were members of a subgraph. -/
theorem mem_tokenIds_iff (hkind : s.kind? = some .flowchart) (hextra : AreLinkLines extra s)
    (hok : deleteCascade targets extra (View.ofSource s) s = .ok s') :
    ∃ removal removed, Removal.plan targets extra (View.ofSource s) s = .ok removal ∧
      (View.ofSource s').subgraphIds = (View.ofSource s).subgraphIds ∧
      ∀ x, x ∈ tokenIds ((statements s').map Prod.snd) ↔
        (∃ d, (x, d) ∈ restored (View.ofSource removed)
          (neighbors targets removal.lines (View.ofSource s))) ∨
        (∃ i st, (i, st) ∈ statements s ∧ i ∉ removal.lines ∧ x ∈ st.tokens.map (·.id)) ∨
        ∃ n ∈ neighbors targets removal.lines (View.ofSource s), n.id = x ∧ x ∉ statementKeywords ∧
          ∃ name, (View.ofSource s).IsMember name x := by
  obtain ⟨removal, removed, defined, w, front, line, hplan, hw, hremoved, hdefined, hok⟩ :=
    exists_stages hkind hextra hok
  have hsubgraphs : HasSubgraphsOf front line s defined :=
    ⟨⟨_, hdefined⟩, subgraphIds_defined hplan hextra hw hremoved hdefined⟩
  obtain ⟨⟨-, hids⟩, hadds⟩ := restoreMembership_adds
    (R := fun t x => x ∈ tokenIds ((statements t).map Prod.snd))
    (N := fun n _ x => x = n.id ∧ n.id ∉ statementKeywords)
    (fun n hn name hname _ _ ht hmember =>
      ht.restoreMember (areScanned_neighbors targets removal.lines s n hn).1
        (mem_containers_iff.1 hname).mem_subgraphIds hmember) hsubgraphs hok
  refine ⟨removal, removed, hplan, hids, fun x => ?_⟩
  rw [hadds, mem_tokenIds_defined_iff hplan hw hdefined, or_assoc]
  refine or_congr Iff.rfl (or_congr Iff.rfl (exists_congr fun n => and_congr Iff.rfl ⟨?_, ?_⟩))
  · rintro ⟨name, hname, rfl, hkeyword⟩
    exact ⟨rfl, hkeyword, name, mem_containers_iff.1 hname⟩
  · rintro ⟨rfl, hkeyword, name, hmember⟩
    exact ⟨name, mem_containers_iff.2 hmember, rfl, hkeyword⟩

/-! ## What is left -/

/-- What a deletion leaves of the ids of a view, where `gone` says which links go. -/
structure KeepsIds (gone : LinkRecord → Bool) (targets : List Text) (before after : View) : Prop where
  subgraphIds : after.subgraphIds = before.subgraphIds
  /-- No node is new. -/
  old : ∀ id, (after.node? id).isSome → (before.node? id).isSome
  defined : ∀ n ∈ before.nodes, n.id ∉ targets → n.definition.isSome → (after.node? n.id).isSome
  /-- A node stays that is mentioned beside the links that go. -/
  mentioned : ∀ n ∈ before.nodes, n.id ∉ targets →
    (∃ m ∈ n.mentions, ∀ r ∈ before.links, gone r = true → r.line ≠ m.line) → (after.node? n.id).isSome
  member : ∀ n ∈ before.nodes, n.id ∉ targets → n.id ∉ statementKeywords →
    (∃ name, before.IsMember name n.id) → (after.node? n.id).isSome
  /-- A node with nothing but links that go is not kept. -/
  lost : ∀ n ∈ before.nodes, n.definition = none →
    (∀ m ∈ n.mentions, ∃ r ∈ before.links, gone r = true ∧ r.line = m.line) →
    (∀ name, ¬before.IsMember name n.id) → after.node? n.id = none

/-- Of the lines that mention a node that stays, those of links that go are taken away. -/
theorem IsDeletion.mem_lines_iff {gone : LinkRecord → Bool} (h : IsDeletion gone targets extra s s')
    (hplan : Removal.plan targets extra (View.ofSource s) s = .ok removal) {i : Nat} {st : Statement}
    (hst : (i, st) ∈ statements s) (hid : id ∈ st.tokens.map (·.id)) (htarget : id ∉ targets) :
    i ∈ removal.lines ↔ ∃ r ∈ (View.ofSource s).links, gone r = true ∧ r.line = i := by
  have hlink : (∃ r ∈ (View.ofSource s).links, gone r = true ∧ r.line = i) ↔
      ∃ l, st = .link l ∧ Goes targets extra i l := by
    constructor
    · rintro ⟨r, hr, hgone, rfl⟩
      exact ⟨r.link, eq_of_mem_statements hst (View.mem_links hr), (h.gone_iff r hr).1 hgone⟩
    · rintro ⟨l, rfl, hgoes⟩
      obtain ⟨r, hr, rfl, rfl⟩ := View.exists_mem_links hst
      exact ⟨r, hr, (h.gone_iff r hr).2 hgoes, rfl⟩
  rw [hlink]
  cases st with
  | link l => simp [mem_lines_of_link h.areLinkLines hplan hst]
  | node n =>
    obtain rfl : id = n.token.id := List.mem_singleton.1 hid
    simp [mem_lines_of_node h.areLinkLines hplan hst, htarget]
  | _ => cases hid

theorem IsDeletion.keepsIds {gone : LinkRecord → Bool} (h : IsDeletion gone targets extra s s')
    (hkind : s.kind? = some .flowchart) :
    KeepsIds gone targets (View.ofSource s) (View.ofSource s') := by
  obtain ⟨removal, removed, hplan, hids, hiff⟩ := mem_tokenIds_iff hkind h.areLinkLines h.ok
  have hnode : ∀ n ∈ (View.ofSource s).nodes, ((View.ofSource s').node? n.id).isSome ↔
      n.id ∈ tokenIds ((statements s').map Prod.snd) := fun n hn => by
    rw [View.isSome_node?_iff_tokenIds, hids, and_iff_right (View.not_mem_subgraphIds hn)]
  refine ⟨hids, fun id hid => ?_, fun n hn htarget hdefined => ?_, fun n hn htarget hbeside => ?_,
    fun n hn htarget hkeyword hmember => ?_, fun n hn hdefinition hall hmember => ?_⟩
  · obtain ⟨hsubgraph, hid⟩ := View.isSome_node?_iff_tokenIds.1 hid
    rw [hids] at hsubgraph
    have hsome : ∃ n ∈ (View.ofSource s).nodes, n.id = id := by
      rcases (hiff id).1 hid with ⟨d, hd⟩ | ⟨i, st, hst, -, hid⟩ | ⟨n, hn, hid, -⟩
      · obtain ⟨n, hn, hid, -⟩ := mem_restored.1 hd
        exact ⟨n, (mem_neighbors_iff.1 hn).1, hid⟩
      · exact View.exists_mem_nodes_of_token hst hid hsubgraph
      · exact ⟨n, (mem_neighbors_iff.1 hn).1, hid⟩
    obtain ⟨n, hn⟩ := hsome
    exact Option.isSome_iff_exists.2 ⟨n, View.node?_eq_some_iff.2 hn⟩
  · obtain ⟨d, hd⟩ := Option.isSome_iff_exists.1 hdefined
    obtain ⟨removal, removed, w, hcascade⟩ := exists_cascade hkind h.areLinkLines h.ok
    obtain ⟨n', hn', -⟩ :=
      hcascade.exists_node? h.areLinkLines (View.node?_eq_some_iff.2 ⟨hn, rfl⟩) hd htarget
    exact Option.isSome_iff_exists.2 ⟨n', hn'⟩
  · obtain ⟨m, hm, hbeside⟩ := hbeside
    obtain ⟨st, hst, hid⟩ := (View.exists_mention_iff hn).1 ⟨m, hm, rfl⟩
    refine (hnode n hn).2 ((hiff n.id).2 (.inr (.inl ⟨m.line, st, hst, fun hi => ?_, hid⟩)))
    obtain ⟨r, hr, hgone, hline⟩ := (h.mem_lines_iff hplan hst hid htarget).1 hi
    exact hbeside r hr hgone hline
  · obtain ⟨m, hm⟩ := List.exists_mem_of_ne_nil n.mentions (by
      rw [View.mentions_eq hn, ne_eq, List.map_eq_nil_iff]
      exact View.mentionsOf_ne_nil hn)
    obtain ⟨st, hst, hid⟩ := (View.exists_mention_iff hn).1 ⟨m, hm, rfl⟩
    refine (hnode n hn).2 ((hiff n.id).2 (.inr ?_))
    by_cases hi : m.line ∈ removal.lines
    · obtain ⟨n', hn', hid'⟩ :=
        exists_mem_neighbors hst hi hid (View.not_mem_subgraphIds hn) htarget
      exact .inr ⟨n', hn', hid', hkeyword, hmember⟩
    · exact .inl ⟨m.line, st, hst, hi, hid⟩
  · refine Option.not_isSome_iff_eq_none.1 fun hsome => ?_
    rcases (hiff n.id).1 ((hnode n hn).1 hsome) with ⟨d, hd⟩ | ⟨i, st, hst, hi, hid⟩ |
      ⟨_, -, -, -, name, hname⟩
    · obtain ⟨n', hn', hid, hd, -⟩ := mem_restored.1 hd
      have hsame := View.node?_eq_some_iff.2 ⟨(mem_neighbors_iff.1 hn').1, hid⟩
      rw [View.node?_eq_some_iff.2 ⟨hn, rfl⟩, Option.some.injEq] at hsame
      rw [← hsame, hdefinition] at hd
      cases hd
    · have htarget :=
        not_mem_targets_of_stays h.areLinkLines hplan hst hi hid (View.not_mem_subgraphIds hn)
      obtain ⟨m, hm, rfl⟩ := (View.exists_mention_iff hn).2 ⟨st, hst, hid⟩
      exact hi ((h.mem_lines_iff hplan hst hid htarget).2 (hall m hm))
    · exact hmember name hname

/-- Deleting a node or a link leaves the subgraphs and, as far as they are defined, mentioned elsewhere
or in a subgraph, the other nodes. -/
theorem delete_keepsIds {e : Edited} (ids : IdAllocator) (hkind : s.kind? = some .flowchart) :
    (∀ id, (apply (.deleteNode id) s ids).1 = .ok e →
      KeepsIds (·.link.touches id) [id] (View.ofSource s) (View.ofSource e.source)) ∧
    ∀ i, (apply (.deleteEdge i) s ids).1 = .ok e →
      KeepsIds (·.index = i) [] (View.ofSource s) (View.ofSource e.source) := by
  constructor
  · intro id hok
    exact (isDeletion_deleteNode hok).keepsIds hkind
  · intro i hok
    obtain ⟨line, h⟩ := isDeletion_deleteEdge hok
    exact h.keepsIds hkind

/-- One end of the link is defined on it, one is mentioned elsewhere, and one in a subgraph. -/
theorem delete_keepsIds_ends :
    let s : Source := .ofText "graph\nA --> B[b]\nsubgraph S\nA --> C\nend".toList
    let withoutNode : Source := .ofText "graph\nB[b]\nsubgraph S\n    C\nend".toList
    let withoutFirst : Source := .ofText "graph\nB[b]\nsubgraph S\nA --> C\nend".toList
    let withoutSecond : Source := .ofText "graph\nA --> B[b]\nsubgraph S\n    A\n    C\nend".toList
    KeepsIds (·.link.touches ['A']) [['A']] (View.ofSource s) (View.ofSource withoutNode) ∧
      KeepsIds (·.index = 0) [] (View.ofSource s) (View.ofSource withoutFirst) ∧
      KeepsIds (·.index = 1) [] (View.ofSource s) (View.ofSource withoutSecond) := by
  intro s withoutNode withoutFirst withoutSecond
  have hkind : s.kind? = some .flowchart := by decide +kernel
  have hnode : (apply (.deleteNode ['A']) s {}).1 = .ok ⟨withoutNode, none⟩ := by decide +kernel
  have hfirst : (apply (.deleteEdge 0) s {}).1 = .ok ⟨withoutFirst, none⟩ := by decide +kernel
  have hsecond : (apply (.deleteEdge 1) s {}).1 = .ok ⟨withoutSecond, none⟩ := by decide +kernel
  have hwithoutNode := (delete_keepsIds {} hkind).1 _ hnode
  have hwithoutFirst := (delete_keepsIds {} hkind).2 _ hfirst
  have hwithoutSecond := (delete_keepsIds {} hkind).2 _ hsecond
  exact ⟨hwithoutNode, hwithoutFirst, hwithoutSecond⟩

/-- A link may take both of its ends along. -/
theorem deleteEdge_loses_ends :
    let s : Source := .ofText "flowchart TD\nA --> B".toList
    let after : Source := .ofText "flowchart TD".toList
    s.kind? = some .flowchart ∧ (apply (.deleteEdge 0) s {}).1 = .ok ⟨after, none⟩ ∧
      (View.ofSource s).nodes.map (·.id) = [['A'], ['B']] ∧ (View.ofSource after).nodes = [] := by
  decide +kernel

end DiagramEditor.Edit.Flowchart
