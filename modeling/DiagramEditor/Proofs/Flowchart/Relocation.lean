import DiagramEditor.Proofs.Flowchart.Innermost
import DiagramEditor.Proofs.Flowchart.Richest

/-!
# A node line at another place

Some lines that mention one node alone go, and one such line is written somewhere else
(`IsRelocated`). All other statements stay, in order, so nothing but this node can change: links,
subgraphs, and the definitions and subgraphs of all other nodes stay (`IsRelocated.map_link`,
`IsRelocated.subgraphIds`, `IsRelocated.others`). The node is still there, with the richest of the
definitions that are left (`IsRelocated.definition_eq`), in the first subgraph of the mentions above the
new line, or else in the one that the new line stands in (`IsRelocated.subgraph_eq`).
-/

namespace DiagramEditor.Flowchart

open Source

variable {s s' : Source} {gone : List Nat} {t : NodeLine} {before after : List (Nat × Statement)}
  {id : Text} {outer : List Text}

/-- The statements that are not on the lines `gone`. -/
def without (gone : List Nat) (sts : List (Nat × Statement)) : List (Nat × Statement) :=
  sts.filter fun p => !gone.contains p.1

/-- Of the statements `before` and `after` of the source `s`, those on the lines `gone`, which mention
the node of `t` alone, are left out in `s'`, and `t` stands between the others. -/
structure IsRelocated (gone : List Nat) (t : NodeLine) (before after : List (Nat × Statement))
    (s s' : Source) : Prop where
  old : statements s = before ++ after
  node : ∀ p ∈ statements s, p.1 ∈ gone → ∃ n, p.2 = .node n ∧ n.token.id = t.token.id
  new : (statements s').map Prod.snd =
    (without gone before).map Prod.snd ++ .node t :: (without gone after).map Prod.snd

namespace IsRelocated

variable (h : IsRelocated gone t before after s s')

include h

/-- What goes from a part of the statements mentions the node of `t`. -/
theorem exists_node {p : Nat × Statement} (hp : p ∈ before ∨ p ∈ after)
    (hgone : (!gone.contains p.1) = false) : ∃ n, p.2 = .node n ∧ n.token.id = t.token.id :=
  h.node p (h.old ▸ List.mem_append.2 hp) (by simpa using hgone)

/-- Whatever lines of this node say nothing about is said as before. -/
theorem flatMap_eq {α : Type} {f : Statement → List α}
    (hf : ∀ n : NodeLine, n.token.id = t.token.id → f (.node n) = []) :
    ((statements s').map Prod.snd).flatMap f = ((statements s).map Prod.snd).flatMap f := by
  have hleft : ∀ {sts : List (Nat × Statement)},
      (∀ p ∈ sts, (!gone.contains p.1) = false → f p.2 = []) →
        ((without gone sts).map Prod.snd).flatMap f = (sts.map Prod.snd).flatMap f := by
    intro sts hsts
    induction sts with
    | nil => rfl
    | cons p sts ih =>
      obtain ⟨hp, hsts⟩ := List.forall_mem_cons.1 hsts
      rw [without, List.map_cons, List.flatMap_cons, ← ih hsts, List.filter_cons]
      split
      · rw [List.map_cons, List.flatMap_cons]
        rfl
      · next hgone =>
        rw [hp (Bool.eq_false_iff.2 hgone), List.nil_append]
        rfl
  have hnil : ∀ p, p ∈ before ∨ p ∈ after → (!gone.contains p.1) = false → f p.2 = [] := by
    intro p hp hgone
    obtain ⟨n, heq, hid⟩ := h.exists_node hp hgone
    rw [heq, hf n hid]
  rw [h.new, h.old, List.map_append, List.flatMap_append, List.flatMap_append, List.flatMap_cons,
    hf t rfl, List.nil_append, hleft fun p hp => hnil p (.inl hp), hleft fun p hp => hnil p (.inr hp)]

theorem filterMap_eq {α : Type} {get : Statement → Option α} (hget : ∀ n, get (.node n) = none) :
    ((statements s').map Prod.snd).filterMap get = ((statements s).map Prod.snd).filterMap get := by
  rw [List.filterMap_eq_flatMap_toList, List.filterMap_eq_flatMap_toList]
  exact h.flatMap_eq fun n _ => by rw [hget]; rfl

theorem map_link :
    (View.ofSource s').links.map (·.link) = (View.ofSource s).links.map (·.link) := by
  rw [View.map_link_links, View.map_link_links]
  exact h.filterMap_eq fun _ => rfl

theorem subgraphIds : (View.ofSource s').subgraphIds = (View.ofSource s).subgraphIds := by
  rw [View.subgraphIds_ofSource, View.subgraphIds_ofSource]
  exact h.filterMap_eq fun _ => rfl

/-! ## Places -/

theorem openAfter_without : openAfter [] ((without gone before).map Prod.snd) =
    openAfter [] (before.map Prod.snd) :=
  openAfter_filter fun p hp hgone => by
    obtain ⟨n, heq, -⟩ := h.exists_node (.inl hp) hgone
    rw [heq]
    rfl

/-- The first place of a node is one above the new line, that of the line or one below. -/
theorem firstPlace_eq : firstPlace id (placesIn [] ((statements s').map Prod.snd)) =
    (firstPlace id (placesIn [] ((without gone before).map Prod.snd))).or
      ((firstPlace id [(t.token.id, (openAfter [] (before.map Prod.snd)).head?)]).or
        (firstPlace id (placesIn (openAfter [] (before.map Prod.snd))
          ((without gone after).map Prod.snd)))) := by
  rw [h.new, placesIn_append, firstPlace_append, h.openAfter_without, placesIn, firstPlace_append]
  rfl

/-! ## The other nodes -/

section Others

variable (hid : id ≠ t.token.id)

include hid

theorem firstPlace_of_ne : firstPlace id (placesIn [] ((statements s').map Prod.snd)) =
    firstPlace id (placesIn [] ((statements s).map Prod.snd)) := by
  have hleft : ∀ {outer : List Text} {sts : List (Nat × Statement)},
      (∀ p ∈ sts, p ∈ before ∨ p ∈ after) →
        firstPlace id (placesIn outer ((without gone sts).map Prod.snd)) =
          firstPlace id (placesIn outer (sts.map Prod.snd)) := fun hsts =>
    firstPlace_placesIn_filter fun p hp hgone => by
      obtain ⟨n, heq, hn⟩ := h.exists_node (hsts p hp) hgone
      rw [heq]
      exact ⟨rfl, by simpa [Statement.tokens, hn] using hid⟩
  have hnone : firstPlace id [(t.token.id, (openAfter [] (before.map Prod.snd)).head?)] = none :=
    firstPlace_eq_none fun p hp heq => hid (by rw [← heq, List.mem_singleton.1 hp])
  rw [h.firstPlace_eq, hnone, Option.none_or, hleft fun p => .inl, hleft fun p => .inr, h.old,
    List.map_append, placesIn_append, firstPlace_append]

theorem mem_tokenIds_of_ne : id ∈ tokenIds ((statements s').map Prod.snd) ↔
    id ∈ tokenIds ((statements s).map Prod.snd) := by
  have htokens := h.flatMap_eq (f := fun st => st.tokens.filter (·.id = id)) fun n hn => by
    simp [Statement.tokens, hn, hid.symm]
  rw [← List.filter_flatMap, ← List.filter_flatMap] at htokens
  have hmem : ∀ sts : List Statement, id ∈ tokenIds sts ↔
      (sts.flatMap Statement.tokens).filter (·.id = id) ≠ [] := fun sts => by
    rw [tokenIds, List.mem_map, ne_eq, List.filter_eq_nil_iff]
    simp only [decide_eq_true_eq, not_forall, not_not, exists_prop]
  rw [hmem, hmem, htokens]

/-- All other nodes keep their definitions and subgraphs. -/
theorem others : ((View.ofSource s').node? id).map (fun n => (n.definition, n.subgraph)) =
    ((View.ofSource s).node? id).map fun n => (n.definition, n.subgraph) := by
  have hsome : ((View.ofSource s').node? id).isSome ↔ ((View.ofSource s).node? id).isSome := by
    rw [View.isSome_node?_iff_tokenIds, View.isSome_node?_iff_tokenIds, h.subgraphIds,
      h.mem_tokenIds_of_ne hid]
  cases hn : (View.ofSource s).node? id with
  | none =>
    rw [hn] at hsome
    rw [Option.not_isSome_iff_eq_none.1 fun hsome' => absurd (hsome.1 hsome') (by simp)]
  | some n =>
    rw [hn] at hsome
    obtain ⟨n', hn'⟩ := Option.isSome_iff_exists.1 (hsome.2 rfl)
    obtain ⟨hmem, rfl⟩ := View.node?_eq_some_iff.1 hn
    obtain ⟨hmem', hid'⟩ := View.node?_eq_some_iff.1 hn'
    have hdefinition : n'.definition = n.definition := by
      rw [View.definition_eq hmem', View.definition_eq hmem, hid']
      refine congrArg View.richest (h.flatMap_eq fun m hm => ?_)
      simp [Statement.definitionsOf, Statement.tokens, hm, hid.symm]
    have hsubgraph : n'.subgraph = n.subgraph := by
      rw [View.subgraph_eq_firstPlace_placesIn hmem', View.subgraph_eq_firstPlace_placesIn hmem, hid',
        h.firstPlace_of_ne hid]
    rw [hn', Option.map_some, Option.map_some, hdefinition, hsubgraph]

end Others

/-! ## The node itself -/

/-- The node is still there. -/
theorem exists_node? (hid : t.token.id ∉ (View.ofSource s).subgraphIds) :
    ∃ n', (View.ofSource s').node? t.token.id = some n' := by
  refine Option.isSome_iff_exists.1 (View.isSome_node?_iff_tokenIds.2 ⟨h.subgraphIds ▸ hid, ?_⟩)
  rw [h.new, tokenIds_append]
  refine List.mem_append_right _ ?_
  rw [tokenIds, List.flatMap_cons]
  exact List.mem_cons_self

variable {n' : NodeRecord} (hn' : (View.ofSource s').node? t.token.id = some n')

include hn'

/-- A mention above the new line comes first, and then the line itself. -/
theorem subgraph_eq : n'.subgraph =
    (firstPlace t.token.id (placesIn [] ((without gone before).map Prod.snd))).or
      ((openAfter [] (before.map Prod.snd)).head?.or
        (firstPlace t.token.id (placesIn (openAfter [] (before.map Prod.snd))
          ((without gone after).map Prod.snd)))) := by
  obtain ⟨hmem, hid⟩ := View.node?_eq_some_iff.1 hn'
  rw [View.subgraph_eq_firstPlace_placesIn hmem, hid, h.firstPlace_eq, firstPlace_singleton_self]

/-- The definitions that are left are those above the new line, on it and below. -/
theorem definition_eq : n'.definition = View.richest
    (((without gone before).map Prod.snd).flatMap (Statement.definitionsOf t.token.id) ++
      (t.token.definition.toList ++
        ((without gone after).map Prod.snd).flatMap (Statement.definitionsOf t.token.id))) := by
  obtain ⟨hmem, hid⟩ := View.node?_eq_some_iff.1 hn'
  rw [View.definition_eq hmem, hid, h.new, List.flatMap_append, List.flatMap_cons]
  congr 3
  cases ht : t.token.definition <;> simp [Statement.definitionsOf, Statement.tokens, ht]

theorem exists_definitions : ∃ ds, n'.definition = View.richest ds ∧ ∀ d, d ∈ ds ↔
    t.token.definition = some d ∨
      ∃ p ∈ statements s, p.1 ∉ gone ∧ d ∈ p.2.definitionsOf t.token.id := by
  refine ⟨_, h.definition_eq hn', fun d => ?_⟩
  rw [List.mem_append, List.mem_append, Option.mem_toList, or_left_comm, ← List.mem_append,
    ← List.flatMap_append, ← List.map_append, without, without, ← List.filter_append, ← h.old,
    List.flatMap_map, List.mem_flatMap]
  simp [and_assoc]

end IsRelocated

end DiagramEditor.Flowchart
