import DiagramEditor.Proofs.Flowchart.Nested
import DiagramEditor.Proofs.Flowchart.Relabel
import Mathlib.Data.List.Chain

/-!
# Views are well formed

What the parts of a view have to do with each other and with the source, whatever the source says
(`View.IsWellFormed`). Nodes, links and subgraphs form a table without collisions and without dangling
ends. A mention is where the source has the token (`View.token?_of_mem_mentions`), the definition of a
node is the one that stands at one of its mentions, and a node is a member of the subgraph that is open
where it is mentioned (`View.mem_members`).

From a node the way outwards goes to its subgraph, and from a subgraph to the parent that is recorded for
the first subgraph with its id, until there is none (`View.Climbs`). It follows ids and not subgraphs, so
nothing in the walk itself keeps it from going round: ids may repeat, a subgraph may lie in another one of
its own id, and blocks may be left open. It ends all the same. The first subgraph with the id of a parent
begins in front of the first one with the id of the child (`View.rank_lt_rank`), so the walk meets no id
twice, and as many steps as there are subgraphs are enough for it (`View.climbs_chainIn`).
-/

namespace DiagramEditor.Flowchart

open Text Source

variable {s : Source} {r : Reader} {st : Statement} {before after : List (Nat × Statement)}
  {line i j : Nat} {text x : Text} {n : NodeRecord} {g : SubgraphRecord} {m : Mention} {t : NodeToken}

/-! ## Mentions -/

/-- The token that begins where the mention does. -/
def Mention.token? (s : Source) (m : Mention) : Option NodeToken :=
  (s.lines[m.line]?).bind fun text => (NodeToken.scan? (text.drop m.start)).map Prod.fst

/-- The definition of this token. -/
def Mention.definition? (s : Source) (m : Mention) : Option NodeDefinition :=
  (m.token? s).bind (·.definition)

namespace View

/-- A mention is where the source has the token. -/
theorem token?_of_mem_mentions (h : (m, t) ∈ mentions (statements s)) :
    m.token? s = some t ∧ m.length = t.text.length ∧ m.defines = t.definition.isSome := by
  obtain ⟨⟨i, st⟩, hst, hmt⟩ := mem_mentions.1 h
  obtain ⟨hline, hdefines⟩ := line_defines_of_mem_mentions hmt
  obtain ⟨text, hget, rfl⟩ := exists_line_of_mem_statements hst
  obtain ⟨a, rest, rfl, -, hstart, hscan⟩ := Statement.exists_scan?_of_mem_mentions hmt
  refine ⟨?_, length_of_mem_mentions hmt, hdefines⟩
  rw [Mention.token?, hline, hget, Option.bind_some, hstart, List.drop_left, hscan]
  rfl

/-- The definition of a node and its line are those of a mention. -/
theorem exists_isRichest (hn : n ∈ (View.ofSource s).nodes) :
    ∃ chosen, IsRichest (Mention.definition? s) n.mentions chosen ∧
      n.definition = chosen.bind (Mention.definition? s) ∧
        n.definitionLine = chosen.map (·.line) := by
  obtain ⟨chosen, hchosen, hdefinition, hline⟩ :=
    exists_isRichest_gather n.id (mentionsOf n.id (mentions (statements s)))
  rw [← withoutSubgraph_eq hn] at hdefinition hline
  have hread : ∀ p ∈ mentionsOf n.id (mentions (statements s)),
      Mention.definition? s p.1 = p.2.definition := by
    intro p hp
    rw [Mention.definition?, (token?_of_mem_mentions (List.mem_filter.1 hp).1).1, Option.bind_some]
  refine ⟨chosen.map Prod.fst, mentions_eq hn ▸ hchosen.map hread, ?_, ?_⟩
  · change n.definition = _ at hdefinition
    rw [hdefinition, Option.bind_map]
    cases chosen with
    | none => rfl
    | some p => exact (hread p hchosen.mem).symm
  · change n.definitionLine = _ at hline
    rw [hline, Option.map_map]
    rfl

end View

/-! ## Members -/

namespace Reader

/-- The subgraph at the position `j` has the member `x`. -/
def HasMember (j : Nat) (x : Text) (r : Reader) : Prop :=
  ∃ g, r.view.subgraphs[j]? = some g ∧ x ∈ g.members

/-- Reading takes no member away. -/
theorem HasMember.step (h : r.HasMember j x) (line : Nat) (st : Statement) :
    (r.step line st).HasMember j x := by
  obtain ⟨g, hg, hx⟩ := h
  rw [HasMember]
  cases hst : st.blockStep with
  | enter =>
    obtain ⟨header, rfl⟩ := Statement.exists_header hst
    exact ⟨g, (List.getElem?_append_left (List.getElem?_eq_some_iff.1 hg).1).trans hg, hx⟩
  | leave =>
    obtain rfl := Statement.eq_blockEnd hst
    rw [subgraphs_step_blockEnd, getElem?_alterInnermost_eq, hg]
    refine ⟨_, rfl, ?_⟩
    split <;> exact hx
  | stay =>
    rw [subgraphs_step_of_stay hst, getElem?_alterInnermost_eq, hg]
    refine ⟨_, rfl, ?_⟩
    split
    exacts [SubgraphRecord.mem_addMembers.2 (.inl hx), hx]

theorem HasMember.readAll (h : r.HasMember j x) (sts : List (Nat × Statement)) :
    (r.readAll sts).HasMember j x := by
  induction sts generalizing r with
  | nil => exact h
  | cons p sts ih => exact ih (h.step p.1 p.2)

/-- What a line mentions becomes a member of the innermost open subgraph. -/
theorem hasMember_step (hlt : ∀ i ∈ r.openBlocks, i < r.view.subgraphs.length)
    (hj : r.openBlocks.head? = some j) (hst : st.blockStep = .stay) (hx : x ∈ st.tokens.map (·.id))
    (line : Nat) : (r.step line st).HasMember j x := by
  have hget := List.getElem?_eq_getElem (hlt j (List.mem_of_head? hj))
  rw [HasMember, subgraphs_step_of_stay hst, getElem?_alterInnermost_eq, hget]
  refine ⟨_, rfl, ?_⟩
  dsimp only
  rw [if_pos hj]
  exact SubgraphRecord.mem_addMembers.2 (.inr hx)

end Reader

namespace View

/-- The end of the source leaves nodes their membership. -/
theorem mem_members_of_hasMember (hn : n ∈ (View.ofSource s).nodes)
    (h : ((Reader.start s).readAll (statements s)).HasMember j n.id)
    (hj : (View.ofSource s).subgraphs[j]? = some g) : n.id ∈ g.members := by
  obtain ⟨g₀, hg₀, hmem⟩ := h
  have hids : ((Reader.start s).readAll (statements s)).view.subgraphIds =
      (View.ofSource s).subgraphIds := by
    rw [ofSource_eq, subgraphIds_finish]
  rw [ofSource_eq, Reader.getElem?_subgraphs_finish, hg₀, hids] at hj
  obtain rfl := Option.some.inj hj
  refine List.mem_filter.2 ⟨?_, by simpa using not_mem_subgraphIds hn⟩
  split <;> exact hmem

/-- A node is a member of the innermost subgraph around each of its mentions. -/
theorem mem_members (hn : n ∈ (View.ofSource s).nodes) (hm : m ∈ n.mentions)
    (hg : g ∈ ((View.ofSource s).around m.line).head?) : n.id ∈ g.members := by
  obtain ⟨t, hmt, hid⟩ := (mem_mentions_of_node hn).1 hm
  obtain ⟨⟨i, st⟩, hst, hmt⟩ := mem_mentions.1 hmt
  rw [(line_defines_of_mem_mentions hmt).1] at hg
  obtain ⟨before, after, hsts⟩ := List.append_of_mem hst
  -- The innermost subgraph around the line is the one that the reader has open there.
  have hhead := congrArg List.head? (map_some_around hsts)
  rw [List.head?_map, List.head?_map, Option.mem_def.1 hg] at hhead
  obtain ⟨j, hj, hget⟩ := Option.map_eq_some_iff.1 hhead.symm
  have htoken : t ∈ st.tokens := Statement.map_snd_mentions i st ▸ List.mem_map_of_mem hmt
  have hstep := Reader.hasMember_step Reader.lt_of_mem_openBlocks hj (Statement.stay_of_mem_tokens htoken).1
    (List.mem_map_of_mem htoken) i
  refine mem_members_of_hasMember hn ?_ hget
  rw [hsts, Reader.readAll_append, ← hid]
  exact hstep.readAll after

/-! ## Well-formed views -/

/-- The subgraph of a node is the innermost one around its first mention that is inside of any. -/
theorem subgraph_eq_around (hn : n ∈ (View.ofSource s).nodes) : n.subgraph =
    n.mentions.findSome? fun m => ((View.ofSource s).around m.line).head?.map (·.id) := by
  have hplaces : placesIn [] ((statements s).map Prod.snd) = (mentions (statements s)).map fun q =>
      (q.2.id, ((View.ofSource s).around q.1.line).head?.map (·.id)) := by
    refine placesIn_eq_map (fun i => ((View.ofSource s).around i).head?.map (·.id)) ?_
    intro before p after hsts _
    rw [← map_id_around hsts, List.head?_map]
  rw [subgraph_eq_firstPlace_placesIn hn, hplaces, firstPlace, List.filter_map, List.findSome?_map,
    mentions_eq hn, List.findSome?_map]
  rfl

/-- The parts of the view belong together, and they are what the source says. -/
structure IsWellFormed (s : Source) (v : View) : Prop where
  nodup : (v.nodes.map (·.id)).Nodup
  disjoint : ∀ n ∈ v.nodes, n.id ∉ v.subgraphIds
  ends : ∀ r ∈ v.links, r.link.source.id ∈ v.ids ∧ r.link.target.id ∈ v.ids
  indices : v.links.map (·.index) = List.range v.links.length
  lines : (v.links.map (·.line)).Pairwise (· < ·)
  mentioned : ∀ n ∈ v.nodes, n.mentions ≠ []
  ordered : ∀ n ∈ v.nodes, n.mentions.Pairwise Before
  /-- Where a node is mentioned, a token with its id is scanned, of the length of the mention. -/
  scanned : ∀ n ∈ v.nodes, ∀ m ∈ n.mentions, ∃ t, m.token? s = some t ∧ t.id = n.id ∧
    t.text.length = m.length ∧ (t.definition.isSome ↔ m.defines)
  /-- The definition and its line are those of the first mention with the richest definition. -/
  defined : ∀ n ∈ v.nodes, ∃ chosen, IsRichest (Mention.definition? s) n.mentions chosen ∧
    n.definition = chosen.bind (Mention.definition? s) ∧ n.definitionLine = chosen.map (·.line)
  /-- Around a line are the subgraphs that the statements above have left open. -/
  opened : ∀ before p after, statements s = before ++ p :: after →
    (v.around p.1).map (·.id) = openAfter [] (before.map Prod.snd)
  innermost : ∀ line, (v.around line).Pairwise fun g h => g.span.IsWithin h.span
  /-- The subgraph of a node is the innermost one at its first mention that is inside of any. -/
  placed : ∀ n ∈ v.nodes, n.subgraph =
    n.mentions.findSome? fun m => (v.around m.line).head?.map (·.id)
  members : ∀ n ∈ v.nodes, ∀ m ∈ n.mentions, ∀ g ∈ (v.around m.line).head?, n.id ∈ g.members
  nested : v.spans.Pairwise fun b c => b.IsNested c
  parents : ∀ g ∈ v.subgraphs, ∀ p ∈ g.parent, ∃ h ∈ v.subgraphs, h.id = p ∧
    h.span.start < g.span.start ∧ g.span.IsWithin h.span

/-- The view of every source is well formed. -/
theorem isWellFormed_ofSource (s : Source) : (View.ofSource s).IsWellFormed s where
  nodup := nodup_nodes s
  disjoint _ hn := not_mem_subgraphIds hn
  ends _ hr := ends_mem_ids hr
  indices := by
    refine List.ext_getElem (by simp) fun k hk _ => ?_
    rw [List.length_map] at hk
    rw [List.getElem_map, List.getElem_range]
    exact index_of_getElem?_links (List.getElem?_eq_getElem hk)
  lines := by
    rw [map_line_links]
    exact (List.pairwise_map.2 (pairwise_statements s)).sublist (map_fst_found_sublist ..)
  mentioned _ hn := by
    rw [mentions_eq hn]
    exact mt List.map_eq_nil_iff.1 (mentionsOf_ne_nil hn)
  ordered _ hn := (List.pairwise_map.2 (pairwise_mentions s)).sublist (mentions_sublist hn)
  scanned n hn m hm := by
    obtain ⟨t, hmt, hid⟩ := (mem_mentions_of_node hn).1 hm
    obtain ⟨htoken, hlength, hdefines⟩ := token?_of_mem_mentions hmt
    exact ⟨t, htoken, hid, hlength.symm, by rw [hdefines]⟩
  defined _ hn := exists_isRichest hn
  opened _ _ _ hsts := map_id_around hsts
  innermost line := pairwise_around s line
  placed _ hn := subgraph_eq_around hn
  members _ hn _ hm _ hg := mem_members hn hm hg
  nested := pairwise_isNested_spans s
  parents _ hg _ hp := exists_parent hg hp

/-! ## Walks -/

variable {v : View} {id p nodeId : Text} {start : Option Text} {chain : List Text}
  {h : SubgraphRecord} {fuel k : Nat}

/-- The id outside of `id`: the parent recorded for the first subgraph with this id. -/
def outer? (v : View) (id : Text) : Option Text :=
  (v.subgraph? id).bind (·.parent)

/-- The walk outwards from `start` meets the ids of `chain` and ends. -/
inductive Climbs (v : View) : (start : Option Text) → (chain : List Text) → Prop where
  | stop : v.Climbs none []
  | step {id : Text} {chain : List Text} (h : v.Climbs (v.outer? id) chain) :
    v.Climbs (some id) (id :: chain)

/-- A walk takes one way only. -/
theorem Climbs.unique (h : v.Climbs start chain) {other : List Text} (h' : v.Climbs start other) :
    other = chain := by
  induction h generalizing other with
  | stop => cases h'; rfl
  | step _ ih =>
    cases h' with
    | step h' => rw [ih h']

theorem Climbs.head?_eq (h : v.Climbs start chain) : chain.head? = start := by
  cases h <;> rfl

/-- Each id of a walk is the one outside of the id before. -/
theorem Climbs.isChain (h : v.Climbs start chain) :
    chain.IsChain fun inner outer => v.outer? inner = some outer := by
  induction h with
  | stop => exact .nil
  | step h ih =>
    refine List.isChain_cons.2 ⟨fun outer houter => ?_, ih⟩
    rw [← h.head?_eq]
    exact houter

/-! ## The order of the first subgraphs -/

/-- The position of the first subgraph with the id. -/
def rank (v : View) (id : Text) : Nat :=
  v.subgraphs.findIdx (·.id = id)

theorem rank_lt_length (hid : id ∈ v.subgraphIds) : v.rank id < v.subgraphs.length := by
  obtain ⟨g, hg, hgid⟩ := List.mem_map.1 hid
  exact List.findIdx_lt_length_of_exists ⟨g, hg, by simpa using hgid⟩

theorem rank_le (hk : v.subgraphs[k]? = some h) : v.rank h.id ≤ k := by
  obtain ⟨hlt, rfl⟩ := List.getElem?_eq_some_iff.1 hk
  refine Nat.le_of_not_lt fun hbefore => ?_
  simpa using List.not_of_lt_findIdx hbefore

theorem getElem?_rank (hg : v.subgraph? id = some g) : v.subgraphs[v.rank id]? = some g := by
  rw [← hg, subgraph?, rank, List.find?_eq_getElem?_findIdx]

/-- The first subgraph with the id of a parent begins in front of the first one with the id of the child. -/
theorem rank_lt_rank (h : (View.ofSource s).outer? id = some p) :
    p ∈ (View.ofSource s).subgraphIds ∧ (View.ofSource s).rank p < (View.ofSource s).rank id := by
  obtain ⟨g, hg, hparent⟩ := Option.bind_eq_some_iff.1 h
  obtain ⟨outer, houter, rfl, hstart, -⟩ := exists_parent (List.mem_of_find?_eq_some hg) hparent
  obtain ⟨k, hk⟩ := List.getElem?_of_mem houter
  refine ⟨List.mem_map_of_mem houter, Nat.lt_of_le_of_lt (rank_le hk) (Nat.lt_of_not_le fun hle => ?_)⟩
  -- Subgraphs are listed in the order of their first lines.
  rcases Nat.eq_or_lt_of_le hle with heq | hlt
  · rw [← heq, getElem?_rank hg] at hk
    obtain rfl := Option.some.inj hk
    exact Nat.lt_irrefl _ hstart
  · exact Nat.lt_asymm hstart (start_lt_start hlt (getElem?_rank hg) hk)

/-! ## Walks end -/

/-- A walk ends within `fuel` steps if it starts at a subgraph with fewer in front of it. -/
theorem climbs_chainIn (hstart : ∀ id ∈ start, (View.ofSource s).rank id < fuel) :
    (View.ofSource s).Climbs start ((View.ofSource s).chainIn fuel start) := by
  induction fuel generalizing start with
  | zero =>
    cases start with
    | none => exact .stop
    | some id => exact absurd (hstart id rfl) (Nat.not_lt_zero _)
  | succ fuel ih =>
    cases start with
    | none => exact .stop
    | some id =>
      refine .step (ih fun p hp => ?_)
      have hlt := hstart id rfl
      have := (rank_lt_rank hp).2
      omega

/-- A walk that starts at a subgraph stays at subgraphs. -/
theorem Climbs.mem_subgraphIds (h : (View.ofSource s).Climbs start chain)
    (hstart : ∀ id ∈ start, id ∈ (View.ofSource s).subgraphIds) :
    ∀ id ∈ chain, id ∈ (View.ofSource s).subgraphIds := by
  induction h with
  | stop => exact List.forall_mem_nil _
  | step _ ih =>
    exact List.forall_mem_cons.2 ⟨hstart _ rfl, ih fun p hp => (rank_lt_rank hp).1⟩

/-- A walk meets no id twice. -/
theorem Climbs.nodup (h : (View.ofSource s).Climbs start chain) : chain.Nodup := by
  have hranks : (chain.map (View.ofSource s).rank).IsChain (· > ·) :=
    (List.isChain_map _).2 (h.isChain.imp fun _ _ houter => (rank_lt_rank houter).2)
  exact List.Nodup.of_map _ (hranks.pairwise.imp Nat.ne_of_gt)

/-- The subgraph of a node is one of the subgraphs. -/
theorem mem_subgraphIds_of_subgraph {n : NodeRecord} (hn : n ∈ (View.ofSource s).nodes)
    (hid : n.subgraph = some id) : id ∈ (View.ofSource s).subgraphIds := by
  rw [subgraph_eq_around hn] at hid
  obtain ⟨m, -, hm⟩ := List.exists_of_findSome?_eq_some hid
  obtain ⟨g, hg, rfl⟩ := Option.map_eq_some_iff.1 hm
  have hmem := List.mem_reverse.1 (List.mem_of_head? hg)
  exact List.mem_map_of_mem (List.mem_filter.1 hmem).1

/-- The ids are those on the way outwards from the node. -/
structure LeadsOut (v : View) (nodeId : Text) (chain : List Text) : Prop where
  /-- The walk from the subgraph of the node ends, and it meets these ids. -/
  climbs : v.Climbs ((v.node? nodeId).bind (·.subgraph)) chain
  nodup : chain.Nodup
  named : ∀ id ∈ chain, id ∈ v.subgraphIds
  head : chain.head? = (v.node? nodeId).bind (·.subgraph)
  /-- Each id is the recorded parent of the first subgraph with the id before. -/
  parents : chain.IsChain fun inner outer => (v.subgraph? inner).bind (·.parent) = some outer

/-- In every source the walk outwards from a node ends, and no other list is the way outwards. -/
theorem leadsOut_iff (s : Source) (nodeId : Text) (chain : List Text) :
    (View.ofSource s).LeadsOut nodeId chain ↔ chain = (View.ofSource s).ancestors nodeId := by
  have hstart : ∀ id ∈ ((View.ofSource s).node? nodeId).bind (·.subgraph),
      id ∈ (View.ofSource s).subgraphIds := by
    intro id hid
    obtain ⟨n, hn, hid⟩ := Option.bind_eq_some_iff.1 hid
    exact mem_subgraphIds_of_subgraph (List.mem_of_find?_eq_some hn) hid
  have hclimbs : (View.ofSource s).Climbs _ ((View.ofSource s).ancestors nodeId) :=
    climbs_chainIn fun id hid => rank_lt_length (hstart id hid)
  constructor
  · exact fun h => hclimbs.unique h.climbs
  · rintro rfl
    exact ⟨hclimbs, hclimbs.nodup, hclimbs.mem_subgraphIds hstart, hclimbs.head?_eq, hclimbs.isChain⟩

/-- The subgraph `a` around the node lies in another one of its id, which is the first and has no parent. -/
example : (View.ofSource (.ofText "flowchart TD\nsubgraph a\nsubgraph b\nsubgraph a\nN".toList)).ancestors
    ['N'] = [['a']] := by
  decide +kernel

end View

end DiagramEditor.Flowchart
