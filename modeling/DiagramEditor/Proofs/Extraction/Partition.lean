import DiagramEditor.Proofs.Extraction.Flowchart
import Mathlib.Data.List.Dedup

/-!
# Every id in one bucket

The elements of a flowchart are told apart in one pass, and edges are read off their ids in another,
which may put them among the objects of no known kind. In the end each id of the markup stands in
one bucket, once (`nodup_ids_flowchart`), and the first element with the id alone decides which one it
is (`objectKind`, `ids_flowchart_perm`). An edge that is paired with a link is paired with one between
its own two ends (`link_of_mem_edges`).
-/

namespace DiagramEditor.Extraction

open Markup Flowchart

variable {tree : Tree} {source : Source}

namespace EdgeId

/-- The id is that of an edge: behind the first letter, a separator parts the two ends. -/
def isReadable (id : Text) : Bool :=
  (body? id).any fun p => p.2.contains p.1

/-- A text has several parts if the separator is in it. -/
theorem two_le_length_splitOn_iff {sep : Char} {s : Text} :
    2 ≤ (Text.splitOn sep s).length ↔ sep ∈ s := by
  constructor
  · intro hlen
    by_contra hsep
    rw [Text.splitOn_eq_singleton hsep, List.length_singleton] at hlen
    omega
  · intro hsep
    obtain ⟨a, b, rfl⟩ := List.append_of_mem hsep
    have ha := List.length_pos_iff.2 (Text.splitOn_ne_nil sep a)
    have hb := List.length_pos_iff.2 (Text.splitOn_ne_nil sep b)
    rw [Text.splitOn_append_cons, List.length_append]
    omega

/-- What ids are known decides what an id says, and not whether it says anything. -/
theorem isSome_ofText? (known : List Text) (id : Text) :
    (ofText? known id).isSome = isReadable id := by
  rw [ofText?, isReadable]
  cases body? id with
  | none => rfl
  | some p =>
    obtain ⟨sep, body⟩ := p
    by_cases hsep : sep ∈ body
    · simp [two_le_length_splitOn_iff.2 hsep, hsep, guard]
    · have hlen : ¬ 2 ≤ (Text.splitOn sep body).length := mt two_le_length_splitOn_iff.1 hsep
      simp [hlen, hsep, guard]

end EdgeId

/-- The bucket for an id with this role. -/
def Role.kind (id : Text) : Role → ObjectKind
  | .subgraph => .subgraph
  | .node => .node
  | .edge => if EdgeId.isReadable id then .edge else .other
  | .other => .other

/-- The bucket of an element. -/
def objectKind (id : Text) (e : Element) : ObjectKind :=
  (Role.ofElement id e).kind id

/-- The ids that are drawn with a role, each once. -/
def idsAs (role : Role) (tree : Tree) : List Text :=
  ((firstOfEach Prod.fst tree.identified).filter fun p =>
    Role.ofElement p.1 p.2 = role).map Prod.fst

/-! ## Buckets -/

theorem map_id_nodes (tree : Tree) (source : Source) :
    (flowchart tree source).nodes.map (·.id) = idsAs .node tree := by
  simp [flowchart, nodeObject, idsAs, Function.comp_def]

theorem map_id_subgraphs (tree : Tree) (source : Source) :
    (flowchart tree source).subgraphs.map (·.id) = idsAs .subgraph tree := by
  simp [flowchart, subgraphObject, idsAs, Function.comp_def]

/-- The edges are those whose ids can be read. -/
theorem map_id_edges (tree : Tree) (source : Source) :
    (flowchart tree source).edges.map (·.id) = (idsAs .edge tree).filter EdgeId.isReadable := by
  rw [edges_flowchart, List.map_filterMap, ← List.filterMap_eq_filter]
  refine List.filterMap_congr fun id _ => ?_
  rw [Option.map_map, Option.guard, ← EdgeId.isSome_ofText? (View.ofSource source).ids id]
  cases EdgeId.ofText? (View.ofSource source).ids id <;> rfl

/-- The edges whose ids cannot be read stand behind the objects of no known kind. -/
theorem map_id_others (tree : Tree) (source : Source) :
    (flowchart tree source).others.map (·.id) =
      idsAs .other tree ++ (idsAs .edge tree).filter fun id => !EdgeId.isReadable id := by
  simp [flowchart, otherObject, idsAs, Function.comp_def, List.filter_map,
    ← EdgeId.isSome_ofText? (View.ofSource source).ids]

/-- The elements role by role. -/
theorem perm_filter_role (drawn : List (Text × Element)) :
    ((drawn.filter fun p => Role.ofElement p.1 p.2 = .node) ++
      ((drawn.filter fun p => Role.ofElement p.1 p.2 = .edge) ++
        ((drawn.filter fun p => Role.ofElement p.1 p.2 = .subgraph) ++
          drawn.filter fun p => Role.ofElement p.1 p.2 = .other))).Perm drawn := by
  have hroles : [Role.node, .edge, .subgraph, .other].Nodup := by decide
  have hall : ∀ p ∈ drawn, Role.ofElement p.1 p.2 ∈ [Role.node, .edge, .subgraph, .other] :=
    fun p _ => by cases Role.ofElement p.1 p.2 <;> decide
  simpa only [List.flatMap_cons, List.flatMap_nil, List.append_nil] using
    perm_flatMap_filter hroles hall

/-- The four buckets of a flowchart, one behind the other. -/
theorem ids_flowchart (tree : Tree) (source : Source) : (flowchart tree source).ids =
    (idsAs .node tree).map (fun id => (id, .node)) ++
      (((idsAs .edge tree).filter EdgeId.isReadable).map (fun id => (id, .edge)) ++
        ((idsAs .subgraph tree).map (fun id => (id, .subgraph)) ++
          (idsAs .other tree ++ (idsAs .edge tree).filter fun id => !EdgeId.isReadable id).map
            fun id => (id, .other))) := by
  rw [← map_id_nodes tree source, ← map_id_edges tree source, ← map_id_subgraphs tree source,
    ← map_id_others tree source]
  simp only [List.map_map, Function.comp_def, Objects.ids, List.append_assoc]
  rfl

/-- An edge stands among the edges or among the objects of no known kind, as its id can be read. -/
theorem perm_kind_edge (ids : List Text) :
    ((ids.filter EdgeId.isReadable).map (fun id => (id, ObjectKind.edge)) ++
      (ids.filter fun id => !EdgeId.isReadable id).map fun id => (id, ObjectKind.other)).Perm
        (ids.map fun id => (id, Role.edge.kind id)) := by
  refine .trans (.of_eq ?_) ((List.filter_append_perm EdgeId.isReadable ids).map _)
  rw [List.map_append]
  refine congrArg₂ (· ++ ·) (List.map_congr_left fun id hid => ?_)
    (List.map_congr_left fun id hid => ?_)
  · rw [Role.kind, if_pos (List.mem_filter.1 hid).2]
  · rw [Role.kind, if_neg (by simpa using (List.mem_filter.1 hid).2)]

/-- The ids with their buckets are those of the elements that stay, one for each id. -/
theorem ids_flowchart_perm (tree : Tree) (source : Source) :
    (flowchart tree source).ids.Perm
      ((firstOfEach Prod.fst tree.identified).map fun p => (p.1, objectKind p.1 p.2)) := by
  have hrole : ∀ role, ((firstOfEach Prod.fst tree.identified).filter fun p =>
      Role.ofElement p.1 p.2 = role).map (fun p => (p.1, objectKind p.1 p.2)) =
      (idsAs role tree).map fun id => (id, role.kind id) := by
    intro role
    rw [idsAs, List.map_map]
    refine List.map_congr_left fun p hp => ?_
    rw [objectKind, of_decide_eq_true (List.mem_filter.1 hp).2]
    rfl
  refine .trans ?_ ((perm_filter_role _).map _)
  simp only [List.map_append, hrole, ids_flowchart]
  refine .append_left _ ?_
  -- The edges that cannot be read come to the ones that can.
  refine .trans ?_ ((perm_kind_edge (idsAs .edge tree)).append_right _)
  rw [List.append_assoc, ← List.append_assoc (List.map _ (idsAs .subgraph tree))]
  exact .append_left _ List.perm_append_comm

/-- Each id of the markup stands in one bucket, once. -/
theorem nodup_ids_flowchart (tree : Tree) (source : Source) :
    ((flowchart tree source).ids.map Prod.fst).Nodup := by
  rw [((ids_flowchart_perm tree source).map Prod.fst).nodup_iff, List.map_map]
  exact nodup_map_firstOfEach Prod.fst tree.identified

/-- The edges of a rendered flowchart are paired with links between their own ends. -/
theorem link_of_mem_edges {o : EdgeObject} (ho : o ∈ (flowchart tree source).edges) {i : Nat}
    (hi : o.linkIndex = some i) : ∃ l, (View.ofSource source).link? i = some l ∧ l.index = i ∧
      l.link.source.id = o.sourceCoreId ∧ l.link.target.id = o.targetCoreId := by
  rw [edges_flowchart] at ho
  obtain ⟨id, -, ho⟩ := List.mem_filterMap.1 ho
  obtain ⟨e, -, rfl⟩ := Option.map_eq_some_iff.1 ho
  obtain ⟨l, hl, rfl⟩ := Option.map_eq_some_iff.1 hi
  obtain ⟨hmem, hends⟩ := List.mem_filter.1 (List.mem_of_getElem? hl)
  obtain ⟨k, hk⟩ := List.getElem?_of_mem hmem
  have hindex := View.index_of_getElem?_links hk
  simp only [Bool.and_eq_true, decide_eq_true_eq] at hends
  exact ⟨l, hindex ▸ hk, rfl, hends⟩

/-- The ids of the objects are those of the markup, each once. The first element with an id alone
decides what kind of object it is, and a link that an edge is paired with has the same ends. -/
theorem flowchart_partitions (tree : Tree) (source : Source) :
    ((flowchart tree source).ids.map Prod.fst).Perm (tree.identified.map Prod.fst).dedup ∧
      (∀ id kind, (id, kind) ∈ (flowchart tree source).ids ↔
        (tree.identified.lookup id).map (objectKind id) = some kind) ∧
      ∀ o ∈ (flowchart tree source).edges, ∀ i, o.linkIndex = some i →
        ∃ l, (View.ofSource source).link? i = some l ∧ l.index = i ∧
          l.link.source.id = o.sourceCoreId ∧ l.link.target.id = o.targetCoreId := by
  refine ⟨?_, fun id kind => ?_, fun o ho i hi => link_of_mem_edges ho hi⟩
  · refine (List.perm_ext_iff_of_nodup (nodup_ids_flowchart tree source)
      (List.nodup_dedup _)).2 fun id => ?_
    rw [List.mem_dedup, ((ids_flowchart_perm tree source).map _).mem_iff, List.map_map]
    exact mem_map_firstOfEach Prod.fst tree.identified id
  · rw [(ids_flowchart_perm tree source).mem_iff, List.mem_map, Option.map_eq_some_iff]
    constructor
    · rintro ⟨q, hq, heq⟩
      obtain ⟨rfl, rfl⟩ := Prod.mk.inj heq
      exact ⟨q.2, mem_firstOfEach_fst_iff.1 hq, rfl⟩
    · rintro ⟨e, he, rfl⟩
      exact ⟨(id, e), mem_firstOfEach_fst_iff.2 he, rfl⟩

end DiagramEditor.Extraction
