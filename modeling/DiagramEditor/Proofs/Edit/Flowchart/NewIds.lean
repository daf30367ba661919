import DiagramEditor.Edit.Flowchart.Duplicate
import DiagramEditor.Proofs.Edit.Flowchart.Restore
import DiagramEditor.Proofs.Flowchart.Renaming
import DiagramEditor.Proofs.Flowchart.Written
import DiagramEditor.Proofs.Identifier.Fresh

/-!
# New ids for a block

The ids for the copy of a block are given one after the other. Each is fresh with respect to the
flowchart and to those that were given before, so no two are the same (`Renaming.IsFresh`). Every
subgraph of the block and every node that is first mentioned in it gets one, and nothing else does
(`Renaming.ofBlock_eq`).
-/

namespace DiagramEditor.Edit.Flowchart

open DiagramEditor.Flowchart
open NodeToken (IsIdent)

namespace Renaming

variable {v : View} {map : Renaming} {old new id : Text}

theorem lookup_isSome_iff : (map.lookup id).isSome = true ↔ id ∈ map.map Prod.fst := by
  rw [← not_iff_not, Option.not_isSome_iff_eq_none, List.lookup_eq_none_iff, List.mem_map]
  simp only [not_exists, not_and, bne_iff_ne, ne_comm]

theorem insert_of_notMem (h : old ∉ map.map Prod.fst) : map.insert old new = map ++ [(old, new)] := by
  induction map with
  | nil => rfl
  | cons p map ih =>
    rw [List.map_cons, List.mem_cons, not_or] at h
    obtain ⟨hne, hrest⟩ := h
    rw [insert, if_neg (Ne.symm hne), ih hrest]
    rfl

/-- The new ids are different, and may be written where no other thing has them. -/
structure IsFresh (v : View) (map : Renaming) : Prop where
  nodup : (map.map Prod.snd).Nodup
  notMem : ∀ p ∈ map, p.2 ∉ v.ids
  givesIds : GivesIds map

theorem isFresh_nil (v : View) : IsFresh v [] :=
  ⟨List.nodup_nil, by simp, fun _ hp => by cases hp⟩

/-- One more id that is not in use. -/
theorem IsFresh.append (h : IsFresh v map) (hnew : new ∉ map.taken v) (hident : IsIdent new)
    (hkeyword : new ∉ statementKeywords) (old : Text) : IsFresh v (map ++ [(old, new)]) := by
  rw [taken, List.mem_append, not_or] at hnew
  obtain ⟨hids, hmap⟩ := hnew
  refine ⟨?_, fun p hp => ?_, fun p hp => ?_⟩
  · rw [List.map_append]
    exact List.nodup_append'.2 ⟨h.nodup, List.nodup_singleton new, by simpa using hmap⟩
  · rcases List.mem_append.1 hp with hp | hp
    · exact h.notMem p hp
    · rwa [List.mem_singleton.1 hp]
  · rcases List.mem_append.1 hp with hp | hp
    · exact h.givesIds p hp
    · rw [List.mem_singleton.1 hp]
      exact ⟨hident, hkeyword⟩

/-- No keyword has a suffix with a number. -/
theorem suffixed_notMem_keywords (base : Text) (taken : List Text) :
    Fresh.suffixed base taken ∉ statementKeywords := by
  have hkeywords : ∀ word ∈ statementKeywords, '_' ∉ word := by decide
  refine fun hmem => hkeywords _ hmem ?_
  rw [Fresh.suffixed, Fresh.suffixedName]
  exact List.mem_append_right _ List.mem_cons_self

/-- No keyword is a fresh name of a subgraph. -/
theorem freshSubgraph_notMem_keywords (taken : List Text) (ids : IdAllocator) :
    (ids.freshSubgraph taken).1 ∉ statementKeywords := by
  have hkeywords : ∀ word ∈ statementKeywords, 'G' ∉ word := by decide
  refine fun hmem => hkeywords _ hmem (List.mem_append_left _ ?_)
  decide

/-- Below the last serial number there is room for a suffix behind `old`. -/
theorem IsFresh.suffixed (h : IsFresh v map) (hident : IsIdent old)
    (hroom : v.ids.length + map.length + 1 < Fresh.lastSerial) :
    IsFresh v (map ++ [(old, Fresh.suffixed old (map.taken v))]) := by
  refine h.append (Fresh.suffixed_notMem ?_ old) (isIdent_suffixed hident _)
    (suffixed_notMem_keywords old _) old
  rwa [taken, List.length_append, List.length_map]

/-! ## Subgraphs -/

variable {g : SubgraphRecord} {gs : List SubgraphRecord}

/-- The allocator only counts forward. -/
theorem min_le_foldl_addSubgraph (gs : List SubgraphRecord) (state : Renaming × IdAllocator) :
    min state.2.subgraphs Fresh.lastSerial ≤ (gs.foldl (addSubgraph v) state).2.subgraphs := by
  induction gs generalizing state with
  | nil => exact Nat.min_le_left _ _
  | cons g gs ih =>
    refine Nat.le_trans (Nat.le_min.2 ⟨?_, Nat.min_le_right _ _⟩) (ih (addSubgraph v state g))
    rw [addSubgraph]
    split
    · exact Nat.min_le_left _ _
    · exact IdAllocator.min_le_freshSubgraph _ _

/-- A subgraph without a new id gets one. -/
theorem addSubgraph_eq {state : Renaming × IdAllocator} (h : IsFresh v state.1)
    (hnew : g.id ∉ state.1.map Prod.fst)
    (hroom : v.ids.length + state.1.length + 1 < Fresh.lastSerial)
    (hserial : (addSubgraph v state g).2.subgraphs < Fresh.lastSerial) :
    ∃ new, (addSubgraph v state g).1 = state.1 ++ [(g.id, new)] ∧
      IsFresh v (state.1 ++ [(g.id, new)]) := by
  obtain ⟨map, ids⟩ := state
  rw [addSubgraph] at hserial ⊢
  split at hserial
  · next hcheck =>
    rw [if_pos hcheck]
    have hident : IsIdent g.id := by
      cases hid : Identifier.checkNode g.id with
      | ok => exact isIdent_of_checkNode hid
      | error e =>
        rw [hid] at hcheck
        cases hcheck
    exact ⟨_, insert_of_notMem hnew, h.suffixed hident hroom⟩
  · next hcheck =>
    rw [if_neg hcheck]
    exact ⟨_, insert_of_notMem hnew, h.append (IdAllocator.freshSubgraph_notMem hserial)
      (isIdent_freshSubgraph _ _) (freshSubgraph_notMem_keywords _ _) g.id⟩

/-- Every one of some subgraphs gets a new id. -/
theorem foldl_addSubgraph_eq (state : Renaming × IdAllocator) (h : IsFresh v state.1)
    (hnodup : (state.1.map Prod.fst ++ gs.map (·.id)).Nodup)
    (hroom : v.ids.length + state.1.length + gs.length < Fresh.lastSerial)
    (hserial : (gs.foldl (addSubgraph v) state).2.subgraphs < Fresh.lastSerial) :
    (gs.foldl (addSubgraph v) state).1.map Prod.fst = state.1.map Prod.fst ++ gs.map (·.id) ∧
      IsFresh v (gs.foldl (addSubgraph v) state).1 := by
  induction gs generalizing state with
  | nil => exact ⟨(List.append_nil _).symm, h⟩
  | cons g gs ih =>
    rw [List.map_cons, ← List.singleton_append, ← List.append_assoc] at hnodup
    have hnew : g.id ∉ state.1.map Prod.fst := fun hmem =>
      List.disjoint_of_nodup_append hnodup.of_append_left hmem (List.mem_singleton.2 rfl)
    rw [List.length_cons] at hroom
    rw [List.foldl_cons] at hserial
    have hstep : (addSubgraph v state g).2.subgraphs < Fresh.lastSerial := by
      have := min_le_foldl_addSubgraph (v := v) gs (addSubgraph v state g)
      omega
    obtain ⟨new, heq, hfresh⟩ := addSubgraph_eq h hnew (by omega) hstep
    have hkeys : (addSubgraph v state g).1.map Prod.fst = state.1.map Prod.fst ++ [g.id] := by
      rw [heq, List.map_append]
      rfl
    rw [List.foldl_cons, List.map_cons, ← List.singleton_append, ← List.append_assoc, ← hkeys]
    refine ih _ (heq ▸ hfresh) (by rwa [hkeys]) ?_ hserial
    rw [heq, List.length_append, List.length_singleton]
    omega

/-! ## Nodes -/

variable {n : NodeRecord} {ns : List NodeRecord}

/-- Every one of some nodes gets a new id. -/
theorem foldl_addNode_eq (h : IsFresh v map) (hnodup : (map.map Prod.fst ++ ns.map (·.id)).Nodup)
    (hident : ∀ n ∈ ns, IsIdent n.id)
    (hroom : v.ids.length + map.length + ns.length < Fresh.lastSerial) :
    (ns.foldl (addNode v) map).map Prod.fst = map.map Prod.fst ++ ns.map (·.id) ∧
      IsFresh v (ns.foldl (addNode v) map) := by
  induction ns generalizing map with
  | nil => exact ⟨(List.append_nil _).symm, h⟩
  | cons n ns ih =>
    obtain ⟨hn, hident⟩ := List.forall_mem_cons.1 hident
    rw [List.map_cons, ← List.singleton_append, ← List.append_assoc] at hnodup
    have hnew : n.id ∉ map.map Prod.fst := fun hmem =>
      List.disjoint_of_nodup_append hnodup.of_append_left hmem (List.mem_singleton.2 rfl)
    rw [List.length_cons] at hroom
    have heq : addNode v map n = map ++ [(n.id, Fresh.suffixed n.id (map.taken v))] :=
      insert_of_notMem hnew
    have hfresh : IsFresh v (addNode v map n) := heq ▸ h.suffixed hn (by omega)
    have hkeys : (addNode v map n).map Prod.fst = map.map Prod.fst ++ [n.id] := by
      rw [heq, List.map_append]
      rfl
    rw [List.foldl_cons, List.map_cons, ← List.singleton_append, ← List.append_assoc, ← hkeys]
    refine ih hfresh (by rwa [hkeys]) hident ?_
    rw [heq, List.length_append, List.length_singleton]
    omega

/-! ## Blocks -/

/-- The ids that get new ones: those of the subgraphs that begin on some lines, and of the nodes that
are first mentioned there. -/
def domain (v : View) (span : BlockSpan) : List Text :=
  (v.subgraphs.filter fun g => span.contains g.span.start).map (·.id) ++
    (v.nodes.filter fun n => n.mentions.head?.any fun m => span.contains m.line).map (·.id)

/-- A subgraph gets a new id for its own copy. -/
theorem id_mem_domain (hg : g ∈ v.subgraphs) (hspan : g.span.start ≤ g.span.stop) :
    g.id ∈ domain v g.span := by
  refine List.mem_append_left _ (List.mem_map_of_mem (List.mem_filter.2 ⟨hg, ?_⟩))
  simpa [BlockSpan.contains] using hspan

theorem domain_sublist (v : View) (span : BlockSpan) :
    (domain v span).Sublist (v.subgraphs.map (·.id) ++ v.nodes.map (·.id)) :=
  (List.filter_sublist.map _).append (List.filter_sublist.map _)

theorem nodup_domain {s : Source} (hnodup : (View.ofSource s).subgraphIds.Nodup) (span : BlockSpan) :
    (domain (View.ofSource s) span).Nodup := by
  have hall : ((View.ofSource s).subgraphIds ++ (View.ofSource s).nodes.map (·.id)).Nodup := by
    refine List.nodup_append'.2 ⟨hnodup, View.nodup_nodes s, fun x hx hn => ?_⟩
    obtain ⟨n, hn', rfl⟩ := List.mem_map.1 hn
    exact View.not_mem_subgraphIds hn' hx
  exact hall.sublist (domain_sublist _ span)

theorem length_domain_le (v : View) (span : BlockSpan) : (domain v span).length ≤ v.ids.length := by
  have hle := (domain_sublist v span).length_le
  rw [View.ids, List.length_append, Nat.add_comm, ← List.length_append]
  exact hle

/-- While there are serial numbers left, the subgraphs and nodes of a block get new ids. -/
theorem ofBlock_eq {s : Source} {span : BlockSpan} {ids : IdAllocator}
    (hnodup : (View.ofSource s).subgraphIds.Nodup)
    (hroom : 2 * (View.ofSource s).ids.length < Fresh.lastSerial)
    (hserial : (ofBlock (View.ofSource s) span ids).2.subgraphs < Fresh.lastSerial) :
    (ofBlock (View.ofSource s) span ids).1.map Prod.fst = domain (View.ofSource s) span ∧
      IsFresh (View.ofSource s) (ofBlock (View.ofSource s) span ids).1 := by
  have hkeys := nodup_domain hnodup span
  have hlength := length_domain_le (View.ofSource s) span
  rw [domain] at hkeys
  rw [domain, List.length_append, List.length_map, List.length_map] at hlength
  obtain ⟨hsubgraphs, hfresh⟩ := foldl_addSubgraph_eq ([], ids) (isFresh_nil _)
    (by simpa using hkeys.of_append_left) (by simp only [List.length_nil]; omega) hserial
  rw [List.map_nil, List.nil_append] at hsubgraphs
  have hmapLength := congrArg List.length hsubgraphs
  rw [List.length_map, List.length_map] at hmapLength
  rw [← hsubgraphs] at hkeys
  obtain ⟨hnodes, hfresh⟩ := foldl_addNode_eq hfresh hkeys
    (fun n hn => (areScanned_nodes s n (List.mem_filter.1 hn).1).1) (by omega)
  rw [hsubgraphs] at hnodes
  exact ⟨hnodes, hfresh⟩

end Renaming

end DiagramEditor.Edit.Flowchart
