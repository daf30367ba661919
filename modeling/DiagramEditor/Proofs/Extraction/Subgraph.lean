import DiagramEditor.Extraction.Flowchart
import DiagramEditor.Markup.Reader
import DiagramEditor.Proofs.Extraction.Basic
import DiagramEditor.Proofs.Flowchart.View
import DiagramEditor.Proofs.Text.Cut
import Mathlib.Data.List.Perm.Basic

/-!
# Clusters and subgraphs

A renderer may put something in front of the id of a subgraph, with a dash or an underscore between
them. So an id is looked up among the subgraphs as one that may have such a front, and the first
subgraph that fits is taken. If every subgraph is drawn under its own id (`DrawsSubgraphs`), each
comes back from its own cluster (`PairsWithSubgraphs`) as long as no id ends in the one of a subgraph
that is opened before it (`IdsApart`), and only then: `pairsWithSubgraphs_iff`.
-/

namespace DiagramEditor.Extraction

open Markup Flowchart

variable {tree : Tree} {source : Source} {v : View} {g : SubgraphRecord} {drawn id : Text}

/-! ## Ids with something in front -/

/-- The id ends in a dash or an underscore and the other id. -/
def EndsBehind (drawn id : Text) : Prop :=
  '-' :: id <:+ drawn ∨ '_' :: id <:+ drawn

instance : Decidable (EndsBehind drawn id) :=
  inferInstanceAs (Decidable (_ ∨ _))

/-- What is left in front of an id that is taken off says whether the drawn id ends in it. -/
theorem endsBehind_iff : EndsBehind drawn id ↔
    ((Text.stripEnd? id drawn).bind List.getLast?).any (fun c => c == '-' || c == '_') = true := by
  have hmatch : ∀ c : Char, c :: id <:+ drawn ↔
      (Text.stripEnd? id drawn).bind List.getLast? = some c := by
    intro c
    rw [Option.bind_eq_some_iff]
    constructor
    · rintro ⟨front, rfl⟩
      exact ⟨front ++ [c], Text.stripEnd?_eq_some.2 (by simp), List.getLast?_concat⟩
    · rintro ⟨rest, hrest, hc⟩
      obtain ⟨front, rfl⟩ := List.getLast?_eq_some_iff.1 hc
      exact ⟨front, by rw [Text.stripEnd?_eq_some.1 hrest, List.append_assoc]; rfl⟩
  rw [EndsBehind, hmatch, hmatch]
  cases (Text.stripEnd? id drawn).bind List.getLast? <;> simp

/-- A drawn id fits its own subgraph, and one whose id it ends in. -/
theorem isDrawnSubgraph_iff : isDrawnSubgraph drawn id = true ↔ drawn = id ∨ EndsBehind drawn id := by
  rw [isDrawnSubgraph, endsBehind_iff, Bool.or_eq_true, decide_eq_true_eq]

/-- No id of a subgraph ends in the id of one that is opened before it. -/
def IdsApart (v : View) : Prop :=
  v.subgraphs.Pairwise fun k g => ¬ EndsBehind g.id k.id

instance : Decidable (IdsApart v) :=
  inferInstanceAs (Decidable (v.subgraphs.Pairwise fun k g => ¬ EndsBehind g.id k.id))

/-! ## Subgraphs as they are drawn -/

/-- For each subgraph, the first element with its id is a cluster. -/
def DrawsSubgraphs (tree : Tree) (v : View) : Prop :=
  ∀ g ∈ v.subgraphs, (tree.identified.lookup g.id).any (fun e => e.tag.hasClass "cluster") = true

instance : Decidable (DrawsSubgraphs tree v) :=
  inferInstanceAs (Decidable (∀ g ∈ v.subgraphs,
    (tree.identified.lookup g.id).any (fun e => e.tag.hasClass "cluster") = true))

/-- The object of a subgraph that is drawn under its own id, with all that the source says about it. -/
def drawnSubgraph (g : SubgraphRecord) : SubgraphObject :=
  { id := g.id
    coreId := g.id
    label := g.display
    startLine := some g.span.start
    endLine := some g.span.stop
    members := g.members }

/-- The objects with ids of subgraphs are one for each subgraph. -/
def PairsWithSubgraphs (tree : Tree) (source : Source) : Prop :=
  ((flowchart tree source).subgraphs.filter fun o =>
    (View.ofSource source).subgraphIds.contains o.id).Perm
      ((View.ofSource source).subgraphs.map drawnSubgraph)

instance : Decidable (PairsWithSubgraphs tree source) :=
  inferInstanceAs (Decidable (List.Perm _ _))

/-! ## Clusters are subgraphs -/

theorem ofElement_eq_subgraph_iff {e : Element} :
    Role.ofElement id e = .subgraph ↔ e.tag.hasClass "cluster" = true := by
  rw [Role.ofElement]
  cases e.tag.hasClass "cluster" with
  | true => simp
  | false => simp only [Bool.false_eq_true, if_false, iff_false]; split_ifs <;> simp

/-- An object of the subgraphs is the first element with its id, which is a cluster. -/
theorem mem_subgraphs_flowchart {o : SubgraphObject} : o ∈ (flowchart tree source).subgraphs ↔
    ∃ id e, tree.identified.lookup id = some e ∧ e.tag.hasClass "cluster" = true ∧
      subgraphObject (View.ofSource source) id e = o := by
  rw [flowchart, List.mem_map]
  constructor
  · rintro ⟨p, hp, rfl⟩
    obtain ⟨hfirst, hrole⟩ := List.mem_filter.1 hp
    exact ⟨p.1, p.2, mem_firstOfEach_fst_iff.1 hfirst,
      ofElement_eq_subgraph_iff.1 (of_decide_eq_true hrole), rfl⟩
  · rintro ⟨id, e, hfirst, hrole, rfl⟩
    exact ⟨(id, e), List.mem_filter.2 ⟨mem_firstOfEach_fst_iff.2 hfirst,
      decide_eq_true (ofElement_eq_subgraph_iff.2 hrole)⟩, rfl⟩

/-- The ids of the objects are distinct. -/
theorem nodup_map_id_subgraphs (tree : Tree) (source : Source) :
    ((flowchart tree source).subgraphs.map (·.id)).Nodup := by
  have hfirst := (nodup_map_firstOfEach Prod.fst tree.identified).sublist
    ((List.filter_sublist (p := fun p => decide (Role.ofElement p.1 p.2 = .subgraph))).map Prod.fst)
  simpa [flowchart, subgraphObject, Function.comp_def] using hfirst

/-- A subgraph comes back from its cluster if its id is resolved to the subgraph itself. -/
theorem subgraphObject_eq_drawnSubgraph_iff (hnodup : v.subgraphIds.Nodup) (hg : g ∈ v.subgraphs)
    (e : Element) : subgraphObject v g.id e = drawnSubgraph g ↔
      v.subgraphs.find? (fun k => isDrawnSubgraph g.id k.id) = some g := by
  have hfound : v.subgraph? g.id = some g := find?_of_nodup hnodup hg
  constructor
  · intro heq
    have hcore : subgraphCoreId v g.id = g.id := congrArg SubgraphObject.coreId heq
    -- The subgraph that is found has the id of `g`, and the ids are distinct.
    have hsome : (v.subgraphs.find? fun k => isDrawnSubgraph g.id k.id).isSome = true :=
      List.find?_isSome.2 ⟨g, hg, isDrawnSubgraph_iff.2 (.inl rfl)⟩
    obtain ⟨k, hk⟩ := Option.isSome_iff_exists.1 hsome
    rw [subgraphCoreId, hk, Option.map_some, Option.getD_some] at hcore
    rw [hk, List.inj_on_of_nodup_map hnodup (List.mem_of_find?_eq_some hk) hg hcore]
  · intro hfind
    have hcore : subgraphCoreId v g.id = g.id := by
      rw [subgraphCoreId, hfind, Option.map_some, Option.getD_some]
    simp only [subgraphObject, hcore, hfound, drawnSubgraph, Option.elim_some, Option.map_some]

/-- The ids are apart if each one is resolved to its own subgraph. -/
theorem idsApart_iff (hnodup : v.subgraphIds.Nodup) : IdsApart v ↔
    ∀ g ∈ v.subgraphs, v.subgraphs.find? (fun k => isDrawnSubgraph g.id k.id) = some g := by
  have hfits : ∀ k g : SubgraphRecord, isDrawnSubgraph g.id k.id = false ↔
      k.id ≠ g.id ∧ ¬ EndsBehind g.id k.id := by
    intro k g
    rw [← Bool.not_eq_true, isDrawnSubgraph_iff, not_or, ne_comm]
  rw [forall_find?_eq_some_iff (R := fun g k => isDrawnSubgraph g.id k.id)
    (fun g => isDrawnSubgraph_iff.2 (.inl rfl)) (List.Nodup.of_map _ hnodup)]
  simp only [hfits, List.pairwise_and_iff]
  exact (and_iff_right (List.pairwise_map.1 hnodup)).symm

/-- Every subgraph comes back from its cluster, with all that the source says about it, if and only if
no id of a subgraph ends in the id of one that is opened before it. -/
theorem pairsWithSubgraphs_iff (hnodup : (View.ofSource source).subgraphIds.Nodup)
    (h : DrawsSubgraphs tree (View.ofSource source)) :
    PairsWithSubgraphs tree source ↔ IdsApart (View.ofSource source) := by
  have hmem : ∀ o : SubgraphObject, (o ∈ (flowchart tree source).subgraphs.filter fun o =>
      (View.ofSource source).subgraphIds.contains o.id) ↔ ∃ g ∈ (View.ofSource source).subgraphs,
        ∃ e, tree.identified.lookup g.id = some e ∧ e.tag.hasClass "cluster" = true ∧
          subgraphObject (View.ofSource source) g.id e = o := by
    intro o
    rw [List.mem_filter, mem_subgraphs_flowchart, List.contains_iff_mem]
    constructor
    · rintro ⟨⟨id, e, hfirst, hcluster, rfl⟩, hid⟩
      obtain ⟨g, hg, rfl⟩ := List.mem_map.1 hid
      exact ⟨g, hg, e, hfirst, hcluster, rfl⟩
    · rintro ⟨g, hg, e, hfirst, hcluster, rfl⟩
      exact ⟨⟨g.id, e, hfirst, hcluster, rfl⟩, List.mem_map_of_mem hg⟩
  have hdrawn : ∀ g ∈ (View.ofSource source).subgraphs, ∃ e,
      tree.identified.lookup g.id = some e ∧ e.tag.hasClass "cluster" = true :=
    fun g hg => (Option.any_eq_true _ _).1 (h g hg)
  rw [idsApart_iff hnodup, PairsWithSubgraphs, List.perm_ext_iff_of_nodup]
  · constructor
    · intro hpairs g hg
      obtain ⟨e, hfirst, hcluster⟩ := hdrawn g hg
      obtain ⟨k, hk, heq⟩ := List.mem_map.1 ((hpairs _).1
        ((hmem _).2 ⟨g, hg, e, hfirst, hcluster, rfl⟩))
      -- The object has the id of `g`, so it is the one of `g`.
      have hid : k.id = g.id := congrArg SubgraphObject.id heq
      obtain rfl := List.inj_on_of_nodup_map hnodup hk hg hid
      exact (subgraphObject_eq_drawnSubgraph_iff hnodup hg e).1 heq.symm
    · intro hown o
      rw [hmem, List.mem_map]
      constructor
      · rintro ⟨g, hg, e, -, -, rfl⟩
        exact ⟨g, hg, ((subgraphObject_eq_drawnSubgraph_iff hnodup hg e).2 (hown g hg)).symm⟩
      · rintro ⟨g, hg, rfl⟩
        obtain ⟨e, hfirst, hcluster⟩ := hdrawn g hg
        exact ⟨g, hg, e, hfirst, hcluster,
          (subgraphObject_eq_drawnSubgraph_iff hnodup hg e).2 (hown g hg)⟩
  · exact (List.Nodup.of_map _ (nodup_map_id_subgraphs tree source)).filter _
  · refine List.Nodup.of_map SubgraphObject.id ?_
    rw [List.map_map]
    exact hnodup

/-- An id may hold the other ones, and may end in the id of a subgraph that is opened behind it. -/
theorem pairsWithSubgraphs_nested :
    let source := Source.ofText ("flowchart TD\nsubgraph x_a [X]\nA\nsubgraph a\nB\nend\nend\n" ++
      "subgraph a_x\nC").toList
    let tree := (Tree.ofText? true ("<svg><g class='cluster' id='a'/><g class='cluster' id='a_x'/>" ++
      "<g class='cluster' id='x_a'/></svg>").toList).getD {}
    (View.ofSource source).subgraphIds.Nodup ∧ DrawsSubgraphs tree (View.ofSource source) ∧
      IdsApart (View.ofSource source) ∧ PairsWithSubgraphs tree source := by
  intro source tree
  have hnodup : (View.ofSource source).subgraphIds.Nodup := by decide +kernel
  have hdraws : DrawsSubgraphs tree (View.ofSource source) := by decide +kernel
  have hapart : IdsApart (View.ofSource source) := by decide +kernel
  exact ⟨hnodup, hdraws, hapart, (pairsWithSubgraphs_iff hnodup hdraws).2 hapart⟩

/-- The cluster of a subgraph whose id ends in the id of one before it comes back as that one. -/
theorem not_pairsWithSubgraphs :
    let source := Source.ofText "flowchart TD\nsubgraph a\nA\nend\nsubgraph x_a\nB\nend".toList
    let tree := (Tree.ofText? true
      "<svg><g class='cluster' id='a'/><g class='cluster' id='x_a'/></svg>".toList).getD {}
    (View.ofSource source).subgraphIds.Nodup ∧ DrawsSubgraphs tree (View.ofSource source) ∧
      (flowchart tree source).subgraphs.map (fun o => (o.id, o.coreId)) =
        [("a".toList, "a".toList), ("x_a".toList, "a".toList)] ∧
      ¬ PairsWithSubgraphs tree source := by
  intro source tree
  exact ⟨by decide +kernel, by decide +kernel, by decide +kernel, by decide +kernel⟩

end DiagramEditor.Extraction
