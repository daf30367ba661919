import DiagramEditor.Extraction.Flowchart
import DiagramEditor.Markup.Reader
import DiagramEditor.Proofs.Extraction.Basic
import DiagramEditor.Proofs.Flowchart.View
import DiagramEditor.Proofs.Lists
import DiagramEditor.Proofs.Text.Cut
import DiagramEditor.Proofs.Text.Numeral
import Mathlib.Data.List.Perm.Basic

/-!
# Edges and links

The id that is drawn for an edge (`EdgeId.drawn`) is read back as the two ends and the number
(`EdgeId.ofText?_drawn`). The ends may hold the separator and may end in something like a number:
what is asked of them is that they are known and that no other two known ids are joined to the same
text (`IsOnlyCut`). The last part is then a numeral behind parts that are cut at a known place, so
it is the number of the edge.

An edge is paired with a link by its ends and its rank among the edges with these ends. Where every
link is drawn once, under an id that says its ends, and the numbers of parallel links grow with the
links (`DrawsLinks`), every link comes back from exactly one edge (`flowchart_pairsWithLinks`). The
numbers may leave gaps, and the edges may be drawn in any order.

An element that stands in front of an edge and has its id takes its place, since an id that is drawn
twice counts once. So no other object may be drawn first under the id of an edge
(`EdgesComeFirst`, `flowchart_not_pairsWithLinks`).
-/

namespace DiagramEditor.Extraction

variable {sep : Char} {known parts : List Text} {s t numeral : Text} {k n : Nat}

/-! ## Ids of edges -/

/-- Joined by the separator, no two known ids but these make up the same text. -/
def IsOnlyCut (sep : Char) (known : List Text) (s t : Text) : Prop :=
  ∀ a ∈ known, ∀ b ∈ known, a ++ sep :: b = s ++ sep :: t → a = s ∧ b = t

instance : Decidable (IsOnlyCut sep known s t) :=
  inferInstanceAs (Decidable (∀ a ∈ known, ∀ b ∈ known,
    a ++ sep :: b = s ++ sep :: t → a = s ∧ b = t))

namespace EdgeId

/-- The id of an edge between the two ends, whose number is written as the numeral. -/
def drawn (s t numeral : Text) : Text :=
  'L' :: '_' :: (s ++ '_' :: t ++ '_' :: numeral)

/-! ### Places -/

theorem findCut?_eq_some {p : Text × Text → Bool} (h : findCut? sep p parts = some k) :
    0 < k ∧ k < parts.length ∧ p (cut sep parts k) = true := by
  rw [findCut?] at h
  have hp := List.find?_some h
  have hmem := List.mem_of_find?_eq_some h
  rw [List.range_eq_range', List.drop_range', List.mem_range'_1] at hmem
  exact ⟨by omega, by omega, hp⟩

theorem isSome_findCut? {p : Text × Text → Bool} (hpos : 0 < k) (hk : k < parts.length)
    (hp : p (cut sep parts k) = true) : (findCut? sep p parts).isSome = true := by
  refine List.find?_isSome.2 ⟨k, ?_, hp⟩
  rw [List.range_eq_range', List.drop_range', List.mem_range'_1]
  omega

/-- The two ids and the separator make up the text. -/
theorem cut_append (hpos : 0 < k) (hk : k < parts.length) :
    (cut sep parts k).1 ++ sep :: (cut sep parts k).2 = Text.join [sep] parts := by
  have htake : parts.take k ≠ [] := List.length_pos_iff.1 (by rw [List.length_take]; omega)
  have hdrop : parts.drop k ≠ [] := List.length_pos_iff.1 (by rw [List.length_drop]; omega)
  conv_rhs => rw [← List.take_append_drop k parts, Text.join_append htake hdrop]
  rw [cut, List.append_assoc, List.singleton_append]

/-- The separator between two ids is a place to cut at. -/
theorem cut_splitOn (sep : Char) (s t : Text) :
    cut sep (Text.splitOn sep (s ++ sep :: t)) (Text.splitOn sep s).length = (s, t) := by
  rw [cut, Text.splitOn_append_cons, List.take_left, List.drop_left, Text.join_splitOn,
    Text.join_splitOn]

/-- Two known ids are cut apart where they were joined. -/
theorem exists_knownCut? (hs : s ∈ known) (ht : t ∈ known) (honly : IsOnlyCut sep known s t) :
    ∃ k, knownCut? sep known (Text.splitOn sep (s ++ sep :: t)) = some k ∧
      cut sep (Text.splitOn sep (s ++ sep :: t)) k = (s, t) := by
  have hpos : 0 < (Text.splitOn sep s).length := List.length_pos_iff.2 (Text.splitOn_ne_nil sep s)
  have hlt : (Text.splitOn sep s).length < (Text.splitOn sep (s ++ sep :: t)).length := by
    have := List.length_pos_iff.2 (Text.splitOn_ne_nil sep t)
    rw [Text.splitOn_append_cons, List.length_append]
    omega
  have hsome : (knownCut? sep known (Text.splitOn sep (s ++ sep :: t))).isSome = true :=
    isSome_findCut? hpos hlt (by rw [cut_splitOn]; simp [hs, ht])
  obtain ⟨k, hk⟩ := Option.isSome_iff_exists.1 hsome
  -- The first place need not be the one above, but it can only give the same two ids.
  obtain ⟨hkpos, hklt, hknown⟩ := findCut?_eq_some hk
  simp only [Bool.and_eq_true, List.contains_iff_mem] at hknown
  obtain ⟨hfst, hsnd⟩ := honly _ hknown.1 _ hknown.2
    ((cut_append hkpos hklt).trans (Text.join_splitOn sep _))
  exact ⟨k, hk, Prod.ext hfst hsnd⟩

/-! ### Reading -/

/-- Behind parts that are cut at a known place, a numeral is the number of the edge. -/
theorem splitOrdinal_append (hlen : 2 ≤ parts.length) (hcut : (knownCut? sep known parts).isSome)
    (hn : Text.readIndex? numeral = some n) :
    splitOrdinal sep known (parts ++ [numeral]) = (parts, n) := by
  have hthree : ¬ (parts ++ [numeral]).length < 3 := by
    rw [List.length_append, List.length_singleton]
    omega
  -- So the reading that keeps the numeral in the id of the target is not even tried.
  have hnone : (knownCut? sep known parts).isNone = false := Option.isNone_eq_false_iff.2 hcut
  simp only [splitOrdinal, List.getLast?_concat, Option.bind_some, hn, List.dropLast_concat, hthree,
    if_false, hnone, Bool.false_and, Bool.false_eq_true]

/-- The id of an edge between known ids is read back. -/
theorem ofText?_drawn (hs : s ∈ known) (ht : t ∈ known) (honly : IsOnlyCut '_' known s t)
    (hn : Text.readIndex? numeral = some n) :
    ofText? known (drawn s t numeral) = some ⟨s, t, n⟩ := by
  obtain ⟨k, hk, hcut⟩ := exists_knownCut? hs ht honly
  have hlen : 2 ≤ (Text.splitOn '_' (s ++ '_' :: t)).length := by
    have hplace := findCut?_eq_some hk
    omega
  have hfree : '_' ∉ numeral := fun hmem =>
    absurd (Text.eq_plus_or_isDigit_of_readIndex? hn hmem) (by decide)
  have hparts : Text.splitOn '_' (s ++ '_' :: t ++ '_' :: numeral) =
      Text.splitOn '_' (s ++ '_' :: t) ++ [numeral] := by
    rw [Text.splitOn_append_cons, Text.splitOn_eq_singleton hfree]
  have hordinal := splitOrdinal_append hlen (Option.isSome_iff_exists.2 ⟨k, hk⟩) hn
  have henough : 2 ≤ (Text.splitOn '_' (s ++ '_' :: t) ++ [numeral]).length := by
    rw [List.length_append]
    omega
  have hbody : body? (drawn s t numeral) = some ('_', s ++ '_' :: t ++ '_' :: numeral) := rfl
  rw [ofText?, hbody]
  simp only [Option.bind_eq_bind, Option.bind_some, hparts, henough, guard_true, hordinal, hk,
    Option.some_or, Option.getD_some, hcut, Option.pure_def]

end EdgeId

end DiagramEditor.Extraction

namespace DiagramEditor.Extraction

open Markup Flowchart

variable {tree : Tree} {source : Source} {v : View} {numeral : LinkRecord → Text}
  {ordinal : LinkRecord → Nat} {l : LinkRecord}

/-! ## Edges -/

/-- The element with this id stands for an edge: it has neither the class of subgraphs nor the one
of nodes, and its id or its class is that of an edge. -/
def isEdge (p : Text × Element) : Bool :=
  Role.ofElement p.1 p.2 = .edge

/-- The ids of the edges, each once. -/
def edgeIds (tree : Tree) : List Text :=
  ((firstOfEach Prod.fst tree.identified).filter isEdge).map Prod.fst

/-- The edges are read off their ids alone. -/
theorem edges_flowchart (tree : Tree) (source : Source) : (flowchart tree source).edges =
    (edgeIds tree).filterMap fun id =>
      (EdgeId.ofText? (View.ofSource source).ids id).map
        (edgeObject (View.ofSource source) (flowchart tree source).nodeLabel
          ((edgeIds tree).filterMap (EdgeId.ofText? (View.ofSource source).ids)) id) := by
  simp only [flowchart, edgeIds, List.filterMap_map]
  rfl

/-! ## Links as they are drawn -/

/-- The id that is drawn for the link, with its number written as the numeral. -/
def linkId (l : LinkRecord) (numeral : Text) : Text :=
  EdgeId.drawn l.link.source.id l.link.target.id numeral

/-- What that id says. -/
def linkEdge (l : LinkRecord) (n : Nat) : EdgeId :=
  ⟨l.link.source.id, l.link.target.id, n⟩

/-- For every link, the two ends are the only known ids that are joined to the same text. -/
def CutsAtLinks (v : View) : Prop :=
  ∀ l ∈ v.links, IsOnlyCut '_' v.ids l.link.source.id l.link.target.id

instance : Decidable (CutsAtLinks v) :=
  inferInstanceAs (Decidable (∀ l ∈ v.links,
    IsOnlyCut '_' v.ids l.link.source.id l.link.target.id))

/-- The edges in the tree are the links of the view. -/
structure DrawsLinks (tree : Tree) (v : View) (numeral : LinkRecord → Text)
    (ordinal : LinkRecord → Nat) : Prop where
  /-- Each link is drawn once, and nothing else is drawn as an edge. -/
  edges : ((tree.identified.filter isEdge).map Prod.fst).Perm
    (v.links.map fun l => linkId l (numeral l))
  numbered : ∀ l ∈ v.links, Text.readIndex? (numeral l) = some (ordinal l)
  /-- Between the same two ends, later links have greater numbers. -/
  increasing : v.links.Pairwise fun k l => k.link.source.id = l.link.source.id →
    k.link.target.id = l.link.target.id → ordinal k < ordinal l

/-- An element in front of an edge with the same id is an edge as well. -/
def EdgesComeFirst (tree : Tree) : Prop :=
  tree.identified.Pairwise fun q p => isEdge p = true → q.1 = p.1 → isEdge q = true

instance : Decidable (EdgesComeFirst tree) :=
  inferInstanceAs (Decidable (tree.identified.Pairwise fun q p =>
    isEdge p = true → q.1 = p.1 → isEdge q = true))

/-- There is one edge for each link, with all that the source says about the link. -/
def PairsWithLinks (tree : Tree) (source : Source) (numeral : LinkRecord → Text) : Prop :=
  (flowchart tree source).edges.Perm ((View.ofSource source).links.map fun l =>
    { id := linkId l (numeral l)
      sourceCoreId := l.link.source.id
      targetCoreId := l.link.target.id
      sourceLabel := (flowchart tree source).nodeLabel l.link.source.id
      targetLabel := (flowchart tree source).nodeLabel l.link.target.id
      arrow := some l.link.connector.arrow
      text := l.link.connector.text
      linkIndex := some l.index })

instance : Decidable (PairsWithLinks tree source numeral) :=
  inferInstanceAs (Decidable (List.Perm _ _))

/-! ## Edges are links -/

/-- The id of a link says its ends and its number. -/
theorem ofText?_linkId (hcut : CutsAtLinks (View.ofSource source))
    (h : DrawsLinks tree (View.ofSource source) numeral ordinal)
    (hl : l ∈ (View.ofSource source).links) :
    EdgeId.ofText? (View.ofSource source).ids (linkId l (numeral l)) =
      some (linkEdge l (ordinal l)) :=
  EdgeId.ofText?_drawn (View.ends_mem_ids hl).1 (View.ends_mem_ids hl).2 (hcut l hl)
    (h.numbered l hl)

/-- No two links have the same id: with the same ends they have different numbers. -/
theorem nodup_map_linkId (hcut : CutsAtLinks (View.ofSource source))
    (h : DrawsLinks tree (View.ofSource source) numeral ordinal) :
    ((View.ofSource source).links.map fun l => linkId l (numeral l)).Nodup := by
  refine List.pairwise_map.2 (h.increasing.imp_of_mem fun {k l} hk hl hlt heq => ?_)
  have hsame : linkEdge k (ordinal k) = linkEdge l (ordinal l) := by
    rw [← Option.some_inj, ← ofText?_linkId hcut h hk, ← ofText?_linkId hcut h hl, heq]
  obtain ⟨hsource, htarget, hordinal⟩ := EdgeId.mk.inj hsame
  exact absurd hordinal (Nat.ne_of_lt (hlt hsource htarget))

theorem edgeIds_perm (hcut : CutsAtLinks (View.ofSource source))
    (h : DrawsLinks tree (View.ofSource source) numeral ordinal) (hfirst : EdgesComeFirst tree) :
    (edgeIds tree).Perm ((View.ofSource source).links.map fun l => linkId l (numeral l)) := by
  have hnodup := h.edges.nodup_iff.2 (nodup_map_linkId hcut h)
  have hpairs := List.pairwise_filter.1 (List.pairwise_map.1 hnodup)
  rw [edgeIds, filter_firstOfEach]
  · exact h.edges
  · -- In front of an edge only another edge could have its id, and edges differ in their ids.
    refine hfirst.imp₂ (fun q p hqp hne hp heq => ?_) hpairs
    exact hne (hqp hp heq) hp heq

/-- The rank of a link counts the links in front of it that have the same ends. -/
theorem getElem?_rank (h : DrawsLinks tree v numeral ordinal) (hl : l ∈ v.links) {all : List EdgeId}
    (hall : all.Perm (v.links.map fun k => linkEdge k (ordinal k))) :
    (v.links.filter fun k => k.link.source.id = l.link.source.id &&
      k.link.target.id = l.link.target.id)[EdgeId.rank all (linkEdge l (ordinal l))]? = some l := by
  have hrank : EdgeId.rank all (linkEdge l (ordinal l)) = (v.links.filter fun k =>
      k.link.source.id = l.link.source.id && k.link.target.id = l.link.target.id).countP
        fun k => ordinal k < ordinal l := by
    rw [EdgeId.rank, hall.countP_eq, List.countP_map, List.countP_filter]
    refine List.countP_congr fun k _ => ?_
    rw [Bool.and_comm]
    exact .rfl
  rw [hrank]
  refine getElem?_countP_lt ?_ (List.mem_filter.2 ⟨hl, by simp⟩)
  refine (h.increasing.filter _).imp_of_mem fun {i j} hi hj hlt => ?_
  have hi := (List.mem_filter.1 hi).2
  have hj := (List.mem_filter.1 hj).2
  simp only [Bool.and_eq_true, decide_eq_true_eq] at hi hj
  exact hlt (hi.1.trans hj.1.symm) (hi.2.trans hj.2.symm)

/-- The edges of a drawing pair with the links one to one, whatever gaps the numbers leave and in
whatever order the edges are drawn. -/
theorem flowchart_pairsWithLinks (hcut : CutsAtLinks (View.ofSource source))
    (h : DrawsLinks tree (View.ofSource source) numeral ordinal) (hfirst : EdgesComeFirst tree) :
    PairsWithLinks tree source numeral := by
  have hids := edgeIds_perm hcut h hfirst
  -- The rank is taken among the edges of all links, in the order in which they are drawn.
  have hall : ((edgeIds tree).filterMap (EdgeId.ofText? (View.ofSource source).ids)).Perm
      ((View.ofSource source).links.map fun l => linkEdge l (ordinal l)) := by
    refine (hids.filterMap _).trans (.of_eq ?_)
    rw [List.filterMap_map, ← List.filterMap_eq_map]
    exact List.filterMap_congr fun l hl => ofText?_linkId hcut h hl
  rw [PairsWithLinks, edges_flowchart]
  refine (hids.filterMap _).trans (.of_eq ?_)
  rw [List.filterMap_map, ← List.filterMap_eq_map]
  refine List.filterMap_congr fun l hl => ?_
  have hrank := getElem?_rank h hl hall
  rw [linkEdge] at hrank
  simp only [Function.comp_apply, ofText?_linkId hcut h hl, Option.map_some, edgeObject, linkEdge,
    hrank, Option.bind_some]

/-- The ids of ends may hold underscores and numbers, and parallel links need not be drawn in the
order of their numbers. -/
theorem flowchart_pairsWithLinks_parallel :
    let source := Source.ofText "flowchart TD\nA_1 --> B\nA_1 -->|x| B\nB --> A_1".toList
    let tree := (Tree.ofText? true ("<svg><path id='L_B_A_1_0'/><g class='node' id='B'/>" ++
      "<path id='L_A_1_B_2'/><path id='L_A_1_B_0'/></svg>").toList).getD {}
    let ordinal := fun l : LinkRecord => if l.index = 1 then 2 else 0
    let numeral := fun l => Text.ofNat (ordinal l)
    CutsAtLinks (View.ofSource source) ∧ DrawsLinks tree (View.ofSource source) numeral ordinal ∧
      EdgesComeFirst tree ∧ PairsWithLinks tree source numeral := by
  intro source tree ordinal numeral
  have hcut : CutsAtLinks (View.ofSource source) := by decide +kernel
  have hdraws : DrawsLinks tree (View.ofSource source) numeral ordinal :=
    ⟨by decide +kernel, by decide +kernel, by decide +kernel⟩
  have hfirst : EdgesComeFirst tree := by decide +kernel
  exact ⟨hcut, hdraws, hfirst, flowchart_pairsWithLinks hcut hdraws hfirst⟩

/-- A node in front of the edge takes its id, and the link has no edge. -/
theorem flowchart_not_pairsWithLinks :
    let source := Source.ofText "flowchart TD\nA --> B".toList
    let tree := (Tree.ofText? true
      "<svg><g class='node' id='L_A_B_0'/><path id='L_A_B_0'/></svg>".toList).getD {}
    CutsAtLinks (View.ofSource source) ∧
      DrawsLinks tree (View.ofSource source) (fun _ => ['0']) (fun _ => 0) ∧
      (flowchart tree source).edges = [] ∧
      ¬ PairsWithLinks tree source (fun _ => ['0']) := by
  intro source tree
  exact ⟨by decide +kernel, ⟨by decide +kernel, by decide +kernel, by decide +kernel⟩,
    by decide +kernel, by decide +kernel⟩

end DiagramEditor.Extraction
