import DiagramEditor.Proofs.Edit.Batch
import DiagramEditor.Proofs.Edit.Flowchart.Delete
import DiagramEditor.Proofs.Flowchart.Member
import DiagramEditor.Proofs.Flowchart.Piece

/-!
# The members that a deletion leaves

A node is a member of a subgraph because some line inside mentions it, and a deletion takes lines away.
The lines that go neither open nor close a subgraph, so the places of all others stay
(`mem_placesIn_keptBody_iff`); the definitions that are written anew stand in front of every subgraph; and
each mention that is written back makes one pair of a subgraph and a member, and no other one
(`restoreMember_isMember_iff`). So all members stay but the deleted ones
(`IsDeletion.isMember_iff`).
-/

namespace DiagramEditor.Edit.Flowchart

open DiagramEditor.Flowchart Source Text
open NodeToken (IsIdent)

variable {s s' : Source} {front body before after : List Text} {line id name : Text}
  {targets : List Text} {extra : List Nat} {removal : Removal}

/-! ## One mention -/

/-- In front of the line where a subgraph ends, it is the innermost open one. -/
theorem head?_openAfter_of_endsAt {stop : Nat} (hends : EndsAt [] stop name (statements s))
    (h : IsDeclared .flowchart front line (before ++ after) s)
    (hlength : front.length + 1 + before.length = stop) :
    (openAfter [] (before.map Statement.ofLine)).head? = some name := by
  obtain ⟨above, below, hsts, hopen⟩ := hends
  rw [statements_eq_numberFrom h] at hsts
  obtain ⟨hstop, hsplit⟩ := numberFrom_eq_append_cons hsts
  have habove : before.map Statement.ofLine = above.map Prod.snd := by
    rw [List.map_append] at hsplit
    refine List.append_inj_left hsplit ?_
    rw [List.length_map, List.length_map]
    omega
  rw [habove]
  exact hopen

/-- A node is mentioned in the subgraph then, nothing else changes about members, and whatever was open is
closed as before. -/
theorem restoreMember_isMember_iff (hid : IsIdent id) (hkeyword : id ∉ statementKeywords)
    (hnode : id ∉ (View.ofSource s).subgraphIds) (hname : name ∈ (View.ofSource s).subgraphIds)
    (hclosed : ClosesAll s) (hdecl : IsDeclared .flowchart front line body s)
    (hok : restoreMember id s name = .ok s') :
    (∃ body', IsDeclared .flowchart front line body' s') ∧ ClosesAll s' ∧
      (View.ofSource s').subgraphIds = (View.ofSource s).subgraphIds ∧
      ∀ name' id', (View.ofSource s').IsMember name' id' ↔
        (View.ofSource s).IsMember name' id' ∨ name' = name ∧ id' = id := by
  rcases restoreMember_cases hdecl hok with
    ⟨rfl, hmember⟩ | ⟨g, before, after, w, hg, hw, rfl, hlength, hdecl'⟩
  · refine ⟨⟨body, hdecl⟩, hclosed, rfl, fun name' id' => ⟨.inl, ?_⟩⟩
    rintro (h | ⟨rfl, rfl⟩)
    · exact h
    · exact View.isMember_of_subgraph? hname hmember
  · have hread := Statement.ofLine_ident_of_not_keyword hw hid hkeyword
    have hsts := map_snd_statements hdecl
    have hsts' := map_snd_statements hdecl'
    rw [List.map_append] at hsts
    rw [List.map_append, List.map_cons, hread] at hsts'
    have hstay : (Statement.node ⟨w, ⟨id, none, none, id⟩, []⟩).blockStep = .stay := rfl
    have hsubgraphs : (View.ofSource s').subgraphIds = (View.ofSource s).subgraphIds := by
      rw [View.subgraphIds_ofSource, View.subgraphIds_ofSource, hsts, hsts', List.filterMap_append,
        List.filterMap_append]
      rfl
    obtain rfl : g.id = name := by simpa using List.find?_some hg
    have hplace := head?_openAfter_of_endsAt (hclosed.endsAt (List.mem_of_find?_eq_some hg)) hdecl
      hlength
    refine ⟨⟨_, hdecl'⟩, ?_, hsubgraphs, fun name' id' => ?_⟩
    · rw [ClosesAll, hsts', openAfter_insert hstay, ← hsts]
      exact hclosed
    · rw [View.isMember_iff, View.isMember_iff, hsubgraphs, hsts', hsts, mem_placesIn_insert hstay,
        hplace, or_and_right]
      refine or_congr Iff.rfl ?_
      simp only [Statement.tokens, List.map_singleton, List.mem_singleton, Option.some.injEq]
      constructor
      · rintro ⟨⟨rfl, rfl⟩, -⟩
        exact ⟨rfl, rfl⟩
      · rintro ⟨rfl, rfl⟩
        exact ⟨⟨rfl, rfl⟩, hnode⟩

/-! ## The lines that go -/

section Removed

variable (hplan : Removal.plan targets extra (View.ofSource s) s = .ok removal)

include hplan

/-- Up to directives, the lines that stay say what they said. -/
theorem forall₂_keptBody : List.Forall₂ (fun st st' => st' = st ∨ st.IsDirective ∧ st'.IsDirective)
    ((keptStatements removal s).map Prod.snd) ((keptBody removal s).map Statement.ofLine) := by
  rw [keptStatements, statements, List.filter_map, List.map_map, keptBody, List.map_map,
    List.forall₂_map_left_iff, List.forall₂_map_right_iff]
  refine List.forall₂_same.2 fun p hp => ?_
  rcases ofLine_changedLine hplan (List.mem_filter.1 hp).1 with heq | hdirective
  · exact .inl (congrArg Statement.ofLine heq)
  · exact .inr hdirective

variable (hextra : AreLinkLines extra s)

include hextra

/-- A line that goes neither opens nor closes a subgraph. -/
theorem blockStep_of_mem_lines {p : Nat × Statement} (hp : p ∈ statements s)
    (hgone : (!removal.lines.contains p.1) = false) : p.2.blockStep = .stay := by
  have hp : (p.1, p.2) ∈ statements s := hp
  by_cases hdirective : p.2.IsDirective
  · cases hst : p.2 <;> rw [hst] at hdirective <;> first | rfl | cases hdirective
  · rcases mem_lines_cases hextra hplan hp hdirective (by simpa using hgone) with
      ⟨l, hst, -⟩ | ⟨n, hst, -⟩ <;> rw [hst] <;> rfl

/-- The lines that stay open and close what all lines did. -/
theorem openAfter_keptBody (outer : List Text) :
    openAfter outer ((keptBody removal s).map Statement.ofLine) =
      openAfter outer ((statements s).map Prod.snd) := by
  rw [(placesIn_congr (forall₂_keptBody hplan)).2, keptStatements]
  exact openAfter_filter fun p hp => blockStep_of_mem_lines hplan hextra hp

/-- What the lines that stay mention has the place that it had. -/
theorem mem_placesIn_keptBody_iff {c : Option Text} :
    (id, c) ∈ placesIn [] ((keptBody removal s).map Statement.ofLine) ↔
      ∃ before p after, statements s = before ++ p :: after ∧ p.1 ∉ removal.lines ∧
        id ∈ p.2.tokens.map (·.id) ∧ (openAfter [] (before.map Prod.snd)).head? = c := by
  rw [(placesIn_congr (forall₂_keptBody hplan)).1, keptStatements,
    mem_placesIn_filter fun p hp => blockStep_of_mem_lines hplan hextra hp]
  simp only [Bool.not_eq_true', ← Bool.not_eq_true, List.contains_iff_mem]

end Removed

/-! ## All neighbors -/

/-- A source on the way from `s` to what a deletion leaves: its subgraphs are those of `s`, and what is a
member there was one in `s` and is not deleted. -/
structure IsMending (targets : List Text) (front : List Text) (line : Text) (s t : Source) : Prop where
  declared : ∃ body, IsDeclared .flowchart front line body t
  closed : ClosesAll t
  subgraphIds : (View.ofSource t).subgraphIds = (View.ofSource s).subgraphIds
  isMember : ∀ name id, (View.ofSource t).IsMember name id →
    (View.ofSource s).IsMember name id ∧ id ∉ targets

section Stages

variable {removed defined : Source} {w : Text}
  (hplan : Removal.plan targets extra (View.ofSource s) s = .ok removal)
  (hextra : AreLinkLines extra s) (hw : IsBlank w)
  (hremoved : IsDeclared .flowchart front line (keptBody removal s) removed)
  (hdefined : IsDeclared .flowchart front line (definitionLines w (restored (View.ofSource removed)
    (neighbors targets removal.lines (View.ofSource s))) ++ keptBody removal s) defined)

include hw in
/-- The definitions that are written anew neither open nor close a subgraph. -/
theorem stay_definitionLines (after : View) (lines : List Nat) :
    ∀ st ∈ (definitionLines w (restored after (neighbors targets lines (View.ofSource s)))).map
      Statement.ofLine, st.blockStep = .stay := by
  rw [ofLine_definitionLines hw after (areScanned_neighbors targets lines s)]
  intro st hst
  obtain ⟨p, -, rfl⟩ := List.mem_map.1 hst
  rfl

include hplan hextra hw hdefined

theorem openAfter_defined :
    openAfter [] ((statements defined).map Prod.snd) = openAfter [] ((statements s).map Prod.snd) := by
  rw [map_snd_statements hdefined, List.map_append, openAfter_append,
    openAfter_of_stay (stay_definitionLines hw _ _), openAfter_keptBody hplan hextra]

include hremoved

theorem subgraphIds_defined : (View.ofSource defined).subgraphIds = (View.ofSource s).subgraphIds :=
  Cascade.subgraphIds hextra ⟨hplan, hw, front, line, _, hremoved, hdefined, .refl⟩

/-- The members are those that the lines that stay mention. -/
theorem isMember_defined_iff : (View.ofSource defined).IsMember name id ↔
    (∃ before p after, statements s = before ++ p :: after ∧ p.1 ∉ removal.lines ∧
      id ∈ p.2.tokens.map (·.id) ∧ (openAfter [] (before.map Prod.snd)).head? = some name) ∧
    id ∉ (View.ofSource s).subgraphIds := by
  have hstay : ∀ st ∈ (definitionLines w (restored (View.ofSource removed)
      (neighbors targets removal.lines (View.ofSource s)))).map Statement.ofLine,
      st.blockStep = .stay := stay_definitionLines hw _ _
  rw [View.isMember_iff, subgraphIds_defined hplan hextra hw hremoved hdefined,
    map_snd_statements hdefined, List.map_append, placesIn_append, openAfter_of_stay hstay,
    List.mem_append, mem_placesIn_keptBody_iff hplan hextra]
  refine and_congr (or_iff_right fun hin => ?_) Iff.rfl
  -- The definitions stand in front of every subgraph.
  obtain ⟨before, st, after, heq, -, hopen⟩ := mem_placesIn_iff.1 hin
  rw [openAfter_of_stay fun st hst => hstay st (heq ▸ List.mem_append_left _ hst)] at hopen
  cases hopen

theorem isMending_defined (hclosed : ClosesAll s) : IsMending targets front line s defined where
  declared := ⟨_, hdefined⟩
  closed := (openAfter_defined hplan hextra hw hdefined).trans hclosed
  subgraphIds := subgraphIds_defined hplan hextra hw hremoved hdefined
  isMember name id h := by
    obtain ⟨⟨before, ⟨i, st⟩, after, hsts, hstays, hid, hopen⟩, hnode⟩ :=
      (isMember_defined_iff hplan hextra hw hremoved hdefined).1 h
    have hmem : (i, st) ∈ statements s := hsts ▸ List.mem_append_right _ List.mem_cons_self
    refine ⟨View.isMember_iff.2 ⟨mem_placesIn_iff.2 ⟨before.map Prod.snd, st, after.map Prod.snd,
      by rw [hsts, List.map_append, List.map_cons], hid, hopen⟩, hnode⟩,
      not_mem_targets_of_stays hextra hplan hmem hstays hid hnode⟩

end Stages

section Neighbors

variable {t t' : Source} {n : NodeRecord} {lines : List Nat}
  (hkeywords : ∀ n ∈ (View.ofSource s).nodes, n.id ∉ statementKeywords)

theorem mem_containers_iff {v : View} : name ∈ containers v n ↔ v.IsMember name n.id := by
  simp only [containers, View.IsMember, List.mem_map, List.mem_filter, List.contains_iff_mem,
    and_assoc]
  exact exists_congr fun g => and_congr Iff.rfl and_comm

include hkeywords

/-- A neighbor is mentioned again where it was a member. -/
theorem IsMending.restoreMember (h : IsMending targets front line s t)
    (hn : n ∈ neighbors targets lines (View.ofSource s)) (hname : name ∈ containers (View.ofSource s) n)
    (hok : restoreMember n.id t name = .ok t') : IsMending targets front line s t' ∧
      ∀ name' id', (View.ofSource t').IsMember name' id' ↔
        (View.ofSource t).IsMember name' id' ∨ name' = name ∧ id' = n.id := by
  obtain ⟨⟨body, hdecl⟩, hclosed, hsubgraphs, hmember⟩ := h
  obtain ⟨hnode, htarget, -⟩ := mem_neighbors_iff.1 hn
  have hwas := mem_containers_iff.1 hname
  obtain ⟨hdecl', hclosed', hsubgraphs', hiff⟩ := restoreMember_isMember_iff
    (areScanned_neighbors targets lines s n hn).1 (hkeywords n hnode)
    (hsubgraphs ▸ View.not_mem_subgraphIds hnode)
    (hsubgraphs ▸ hwas.mem_subgraphIds) hclosed hdecl hok
  refine ⟨⟨hdecl', hclosed', hsubgraphs'.trans hsubgraphs, fun name' id' h => ?_⟩, hiff⟩
  rcases (hiff name' id').1 h with h | ⟨rfl, rfl⟩
  · exact hmember name' id' h
  · exact ⟨hwas, htarget⟩

/-- The neighbors are members again of all subgraphs that they were members of, and nothing else
changes about members. -/
theorem IsMending.restoreMembership (h : IsMending targets front line s t)
    (hok : restoreMembership (View.ofSource s) (neighbors targets lines (View.ofSource s)) t = .ok t') :
    IsMending targets front line s t' ∧ ∀ p : Text × Text, (View.ofSource t').IsMember p.1 p.2 ↔
      (View.ofSource t).IsMember p.1 p.2 ∨ ∃ n ∈ neighbors targets lines (View.ofSource s),
        ∃ name ∈ containers (View.ofSource s) n, p.1 = name ∧ p.2 = n.id :=
  restoreMembership_adds (R := fun t (p : Text × Text) => (View.ofSource t).IsMember p.1 p.2)
    (fun _ hn _ hname _ _ ht hmember => (ht.restoreMember hkeywords hn hname hmember).imp_right
      fun hiff p => hiff p.1 p.2) h hok

end Neighbors

/-! ## What is left -/

/-- A deletion takes away the members that it deletes, and no other one. -/
theorem IsDeletion.isMember_iff {gone : LinkRecord → Bool} (h : IsDeletion gone targets extra s s')
    (hkind : s.kind? = some .flowchart) (hclosed : ClosesAll s)
    (hkeywords : ∀ n ∈ (View.ofSource s).nodes, n.id ∉ statementKeywords) :
    (View.ofSource s').IsMember name id ↔ (View.ofSource s).IsMember name id ∧ id ∉ targets := by
  obtain ⟨hextra, -, hok⟩ := h
  obtain ⟨removal, removed, defined, w, front, line, hplan, hw, hremoved, hdefined, hok⟩ :=
    exists_stages hkind hextra hok
  have hmending := isMending_defined hplan hextra hw hremoved hdefined hclosed
  obtain ⟨h', hiff⟩ := hmending.restoreMembership hkeywords hok
  refine ⟨h'.isMember name id, fun ⟨hmember, htarget⟩ => (hiff (name, id)).2 ?_⟩
  obtain ⟨hplace, hnode⟩ := View.isMember_iff.1 hmember
  obtain ⟨before, st, after, hsts, hid, hopen⟩ := mem_placesIn_iff.1 hplace
  obtain ⟨numbered, rest, hstatements, rfl, hrest⟩ := List.map_eq_append_iff.1 hsts
  obtain ⟨⟨i, st⟩, below, rfl, rfl, rfl⟩ := List.map_eq_cons_iff.1 hrest
  by_cases hstays : i ∈ removal.lines
  · -- The line goes, so the node is a neighbor.
    obtain ⟨n, hn, rfl⟩ := exists_mem_neighbors (hstatements ▸ List.mem_append_right _
      List.mem_cons_self) hstays hid hnode htarget
    exact .inr ⟨n, hn, name, mem_containers_iff.2 hmember, rfl, rfl⟩
  · exact .inl ((isMember_defined_iff hplan hextra hw hremoved hdefined).2
      ⟨⟨numbered, (i, st), below, hstatements, hstays, hid, hopen⟩, hnode⟩)

/-- Deleting a node takes this node out of all subgraphs, and deleting a link leaves the members of
the subgraphs as they are. -/
theorem delete_isMember_iff {e : Edited} (ids : IdAllocator) (hkind : s.kind? = some .flowchart)
    (hbalance : s.checkBalance blockRules = .ok ())
    (hlines : ∀ text ∈ s.lines,
      isSubgraphOpen (trim text) = (SubgraphHeader.ofLine? text).isSome)
    (hkeywords : ∀ n ∈ (View.ofSource s).nodes, n.id ∉ statementKeywords) :
    (∀ n, (apply (.deleteNode n) s ids).1 = .ok e → ∀ name id,
      (View.ofSource e.source).IsMember name id ↔ (View.ofSource s).IsMember name id ∧ id ≠ n) ∧
    ∀ i, (apply (.deleteEdge i) s ids).1 = .ok e → ∀ name id,
      (View.ofSource e.source).IsMember name id ↔ (View.ofSource s).IsMember name id := by
  obtain ⟨front, line, body, hdecl⟩ := exists_isDeclared hkind
  have hclosed := closesAll_of_checkBalance hdecl hbalance fun text htext =>
    SubgraphHeader.isUniform_iff.2 (hlines text htext)
  constructor
  · intro n hok name id
    simpa using (isDeletion_deleteNode hok).isMember_iff hkind hclosed hkeywords
  · intro i hok name id
    obtain ⟨line, h⟩ := isDeletion_deleteEdge hok
    simpa using h.isMember_iff hkind hclosed hkeywords

/-- A node is in two subgraphs and loses its only mention in the inner one. -/
theorem delete_isMember_iff_nested :
    let s : Source := .ofText
      "graph\nsubgraph outer\nsubgraph inner\nC[c] --> A\nend\nA --> B\nB --> C\nend".toList
    let withoutNode : Source := .ofText
      "graph\nC[c]\nsubgraph outer\nsubgraph inner\n    C\nend\nB --> C\nend".toList
    let withoutLink : Source := .ofText
      "graph\nC[c]\nsubgraph outer\nsubgraph inner\n    C\n    A\nend\nA --> B\nB --> C\nend".toList
    (∀ name id, (View.ofSource withoutNode).IsMember name id ↔
        (View.ofSource s).IsMember name id ∧ id ≠ ['A']) ∧
      ∀ name id, (View.ofSource withoutLink).IsMember name id ↔ (View.ofSource s).IsMember name id := by
  intro s withoutNode withoutLink
  have hkind : s.kind? = some .flowchart := by decide +kernel
  have hbalance : s.checkBalance blockRules = .ok () := by decide +kernel
  have hlines : ∀ text ∈ s.lines,
      isSubgraphOpen (trim text) = (SubgraphHeader.ofLine? text).isSome := by decide +kernel
  have hkeywords : ∀ n ∈ (View.ofSource s).nodes, n.id ∉ statementKeywords := by decide +kernel
  have hnode : (apply (.deleteNode ['A']) s {}).1 = .ok ⟨withoutNode, none⟩ := by decide +kernel
  have hlink : (apply (.deleteEdge 0) s {}).1 = .ok ⟨withoutLink, none⟩ := by decide +kernel
  have hwithoutNode := (delete_isMember_iff {} hkind hbalance hlines hkeywords).1 _ hnode
  have hwithoutLink := (delete_isMember_iff {} hkind hbalance hlines hkeywords).2 _ hlink
  exact ⟨hwithoutNode, hwithoutLink⟩

end DiagramEditor.Edit.Flowchart
