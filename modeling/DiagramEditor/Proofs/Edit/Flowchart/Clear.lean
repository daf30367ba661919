import DiagramEditor.Proofs.Edit.Flowchart.Cascade
import DiagramEditor.Proofs.Edit.Flowchart.Declared
import DiagramEditor.Proofs.Flowchart.Split

/-!
# Deleting a subgraph with everything inside

With a subgraph go the lines of its block, and from the lines outside everything that is about one of the
ids within the block: those of the subgraphs inside and of the nodes whose text stands there
(`View.idsWithin`). All other links and subgraphs stay, and so do the nodes that were defined
(`deleteSubgraph_isCleared`).

Of the lines outside that hold one id alone, only those of nodes go. The id of a subgraph may stand alone
on a line as well; this line stays, and with the header gone it reads as a node
(`IsCleared.isSome_node?_iff`).
-/

namespace DiagramEditor

/-- The block `c` lies inside of the block `b`. -/
def BlockSpan.encloses (b c : BlockSpan) : Bool :=
  b.start ≤ c.start && c.stop ≤ b.stop

namespace Flowchart

open Source Text

variable {s : Source} {g c : SubgraphRecord} {span : BlockSpan} {front body : List Text} {line id : Text}

/-! ## What lies within a block -/

/-- The ids that go with a block: those of the nodes whose text stands on its lines and of the subgraphs
inside of it. -/
def View.idsWithin (span : BlockSpan) (v : View) : List Text :=
  (v.nodes.filter fun n => n.anchorLine?.any span.contains).map (·.id) ++
    (v.subgraphs.filter fun g => span.encloses g.span).map (·.id)

theorem View.mem_idsWithin {v : View} : id ∈ v.idsWithin span ↔
    (∃ n ∈ v.nodes, n.anchorLine?.any span.contains = true ∧ n.id = id) ∨
      ∃ g ∈ v.subgraphs, span.encloses g.span = true ∧ g.id = id := by
  simp only [idsWithin, List.mem_append, List.mem_map, List.mem_filter, and_assoc]

/-- What deleting a block leaves of a source. -/
structure IsCleared (span : BlockSpan) (s s' : Source) : Prop where
  /-- The links stay, in order, that stand outside of the block and touch nothing that goes with it. -/
  links : (View.ofSource s').links.map (·.link) =
    ((View.ofSource s).links.filter fun r => !span.contains r.line &&
      !((View.ofSource s).idsWithin span).any r.link.touches).map (·.link)
  /-- The subgraphs stay, in order, that do not lie inside. -/
  subgraphIds : (View.ofSource s').subgraphIds =
    ((View.ofSource s).subgraphs.filter fun c => !span.encloses c.span).map (·.id)
  not_mem_subgraphIds : ∀ id ∈ (View.ofSource s).idsWithin span, id ∉ (View.ofSource s').subgraphIds
  touches : ∀ id ∈ (View.ofSource s).idsWithin span, ∀ r ∈ (View.ofSource s').links,
    r.link.touches id = false
  /-- Of the ids within, those of subgraphs are nodes afterwards that stand alone on a line outside. -/
  isSome_node?_iff : ∀ id ∈ (View.ofSource s).idsWithin span,
    ((View.ofSource s').node? id).isSome ↔ id ∈ (View.ofSource s).subgraphIds ∧
      ∃ i n, (i, Statement.node n) ∈ statements s ∧ span.contains i = false ∧ n.token.id = id
  /-- What is defined and has its text outside stays defined. -/
  definition : ∀ n ∈ (View.ofSource s).nodes, n.anchorLine?.any span.contains = false →
    n.definition.isSome → ∃ n', (View.ofSource s').node? n.id = some n' ∧ n'.definition.isSome

/-- A node with its text outside does not go. -/
theorem not_mem_idsWithin {n : NodeRecord} (hn : n ∈ (View.ofSource s).nodes)
    (hout : n.anchorLine?.any span.contains = false) : n.id ∉ (View.ofSource s).idsWithin span := by
  intro hid
  rcases View.mem_idsWithin.1 hid with ⟨m, hm, hin, heq⟩ | ⟨c, hc, -, heq⟩
  · rw [List.inj_on_of_nodup_map (View.nodup_nodes s) hm hn heq, hout] at hin
    cases hin
  · exact View.not_mem_subgraphIds hn (heq ▸ List.mem_map_of_mem hc)

/-- A subgraph has its header where it begins. -/
theorem exists_header (hg : g ∈ (View.ofSource s).subgraphs) :
    ∃ header, (g.span.start, Statement.subgraphOpen header) ∈ statements s := by
  have hmem : (g.span.start, g.id) ∈ found Statement.subgraph? (statements s) :=
    map_start_id_subgraphs s ▸ List.mem_map_of_mem hg
  obtain ⟨st, hst, hid⟩ := mem_found.1 hmem
  cases st with
  | subgraphOpen header => exact ⟨header, hst⟩
  | _ => cases hid

section Balanced

variable (h : IsDeclared .flowchart front line body s) (hbalance : s.checkBalance blockRules = .ok ())
  (hlines : ∀ text ∈ s.lines, SubgraphHeader.IsUniform text) (hg : g ∈ (View.ofSource s).subgraphs)

include h hbalance hlines hg

/-- Of two subgraphs, one lies inside of the other as soon as it begins there. -/
theorem contains_start_eq_encloses (hc : c ∈ (View.ofSource s).subgraphs) :
    g.span.contains c.span.start = g.span.encloses c.span := by
  obtain ⟨-, hle, -⟩ := View.spansWithin_ofSource s c hc
  have hself : c.span.contains c.span.start = true := by simp [BlockSpan.contains, hle]
  have hstop : g.span.contains c.span.start = true → g.span.start ≤ c.span.start →
      c.span.stop ≤ g.span.stop :=
    stop_le_stop_of_contains (View.span_mem_blocks h hbalance hlines hc)
      (View.span_mem_blocks h hbalance hlines hg) hself
  rw [Bool.eq_iff_iff]
  simp only [BlockSpan.contains, BlockSpan.encloses, Bool.and_eq_true, decide_eq_true_eq] at hstop ⊢
  exact ⟨fun hin => ⟨hin.1, hstop hin hin.1⟩, fun hin => ⟨hin.1, hle.trans hin.2⟩⟩

theorem View.idsWithin_eq : (View.ofSource s).idsWithin g.span =
    ((View.ofSource s).nodes.filter fun n => n.anchorLine?.any g.span.contains).map (·.id) ++
      ((View.ofSource s).subgraphs.filter fun c => g.span.contains c.span.start).map (·.id) := by
  rw [idsWithin, List.filter_congr fun c hc =>
    (contains_start_eq_encloses h hbalance hlines hg hc).symm]

end Balanced

end Flowchart

namespace Edit.Flowchart

open DiagramEditor.Flowchart Source Text

variable {targets : List Text} {extra : List Nat} {s s' removed : Source} {removal : Removal}
  {g : SubgraphRecord} {front body : List Text} {line id w : Text}

/-! ## Cascades -/

namespace Cascade

variable (h : Cascade targets extra removal removed w s s')

include h

/-- What is written anew mentions none of the deleted ids, so they are mentioned where the lines that
stay mention them. -/
theorem mem_tokenIds_iff_of_mem_targets (hid : id ∈ targets) :
    id ∈ tokenIds ((statements s').map Prod.snd) ↔
      ∃ p ∈ keptStatements removal s, id ∈ p.2.tokens.map (·.id) := by
  have hmem : ∀ sts : List Statement,
      id ∈ tokenIds sts ↔ sts.flatMap (fun st => st.tokens.filter (·.id = id)) ≠ [] := by
    intro sts
    simp only [tokenIds, List.mem_map, ← List.filter_flatMap, ne_eq, List.filter_eq_nil_iff,
      decide_eq_true_eq, not_forall, not_not, exists_prop]
  have hnil : ∀ w x d text, x ∉ targets →
      (Statement.node ⟨w, ⟨x, d, none, text⟩, []⟩).tokens.filter (·.id = id) = [] :=
    fun w x d text hx => List.filter_eq_nil_iff.2 <| List.forall_mem_singleton.2 <| by
      simpa using fun heq : x = id => hx (heq ▸ hid)
  have hrestored : ((restored (View.ofSource removed)
      (neighbors targets removal.lines (View.ofSource s))).flatMap fun p =>
        (Statement.node ⟨w, ⟨p.1, some p.2, none, p.2.render p.1⟩, []⟩).tokens.filter
          (·.id = id)) = [] := by
    refine List.flatMap_eq_nil_iff.2 fun p hp => ?_
    obtain ⟨n, hn, heq, -⟩ := mem_restored.1 (show (p.1, p.2) ∈ restored _ _ from hp)
    exact hnil _ _ _ _ (heq ▸ (mem_neighbors_iff.1 hn).2.1)
  rw [hmem, h.flatMap_statements_of_neighbors (fun w x hx => hnil _ _ _ _ hx) rfl rfl, hrestored,
    List.nil_append, flatMap_keptBody (f := fun st => st.tokens.filter (·.id = id)) h.plan, ← hmem,
    tokenIds, List.flatMap_map, List.map_flatMap, List.mem_flatMap]
  rintro (_ | _) ⟨⟩ <;> rfl

/-- The subgraphs are left whose headers stay. -/
theorem subgraphIds_eq : (View.ofSource s').subgraphIds =
    ((View.ofSource s).subgraphs.filter fun c => !removal.lines.contains c.span.start).map (·.id) := by
  rw [View.subgraphIds_ofSource, h.filterMap_kept (fun _ => rfl) rfl (by rintro (_ | _) ⟨⟩ <;> rfl),
    View.map_id_filter_subgraphs fun i => !removal.lines.contains i, map_snd_found]
  rfl

end Cascade

/-! ## The lines of a block -/

theorem mem_blockLines_iff {b : BlockSpan} {i : Nat} (h : b.start ≤ b.stop) :
    i ∈ blockLines b ↔ b.contains i = true := by
  simp only [blockLines, BlockSpan.length, BlockSpan.contains, List.mem_map, List.mem_range,
    Bool.and_eq_true, decide_eq_true_eq]
  constructor
  · rintro ⟨k, hk, rfl⟩
    omega
  · exact fun hi => ⟨i - b.start, by omega, by omega⟩

section Block

variable (hg : g ∈ (View.ofSource s).subgraphs)
  (h : Cascade ((View.ofSource s).idsWithin g.span) (blockLines g.span) removal removed w s s')

include hg h

/-- Of the lines that are no directives, those of the block go, and from outside links at what goes with
it and lines that hold a node alone that does. -/
theorem mem_lines_iff_of_block {i : Nat} {st : Statement} (hst : (i, st) ∈ statements s)
    (hdirective : ¬st.IsDirective) : i ∈ removal.lines ↔ g.span.contains i = true ∨
      (∃ l, st = .link l ∧ ((View.ofSource s).idsWithin g.span).any l.touches = true) ∨
      ∃ n, st = .node n ∧ n.token.id ∈ (View.ofSource s).idsWithin g.span ∧
        n.token.id ∉ (View.ofSource s).subgraphIds := by
  obtain ⟨-, hle, -⟩ := View.spansWithin_ofSource s g hg
  rw [mem_lines_iff_of_not_isDirective h.plan hst hdirective, mem_blockLines_iff hle]
  refine or_congr Iff.rfl (or_congr (exists_congr fun l => and_congr Iff.rfl ?_) Iff.rfl)
  simp only [List.any_eq_true, LinkLine.touches, Bool.or_eq_true, decide_eq_true_eq]
  constructor
  · rintro (hin | hin)
    exacts [⟨_, hin, .inl rfl⟩, ⟨_, hin, .inr rfl⟩]
  · rintro ⟨id, hin, rfl | rfl⟩
    exacts [.inl hin, .inr hin]

theorem mem_lines_iff_of_block_link {r : LinkRecord} (hr : r ∈ (View.ofSource s).links) :
    r.line ∈ removal.lines ↔ g.span.contains r.line = true ∨
      ((View.ofSource s).idsWithin g.span).any r.link.touches = true := by
  rw [mem_lines_iff_of_block hg h (View.mem_links hr) id]
  simp

theorem mem_lines_iff_of_block_node {i : Nat} {n : NodeLine} (hn : (i, Statement.node n) ∈ statements s) :
    i ∈ removal.lines ↔ g.span.contains i = true ∨
      n.token.id ∈ (View.ofSource s).idsWithin g.span ∧ n.token.id ∉ (View.ofSource s).subgraphIds := by
  rw [mem_lines_iff_of_block hg h hn id]
  simp

theorem mem_lines_iff_of_block_header {c : SubgraphRecord} (hc : c ∈ (View.ofSource s).subgraphs) :
    c.span.start ∈ removal.lines ↔ g.span.contains c.span.start = true := by
  obtain ⟨header, hheader⟩ := exists_header hc
  rw [mem_lines_iff_of_block hg h hheader id]
  simp

/-- What goes with the block and stays mentioned is the id of a subgraph, on a line of its own. -/
theorem mem_tokenIds_iff_of_block (hid : id ∈ (View.ofSource s).idsWithin g.span) :
    id ∈ tokenIds ((statements s').map Prod.snd) ↔ id ∈ (View.ofSource s).subgraphIds ∧
      ∃ i n, (i, Statement.node n) ∈ statements s ∧ g.span.contains i = false ∧ n.token.id = id := by
  simp only [h.mem_tokenIds_iff_of_mem_targets hid, keptStatements, List.mem_filter,
    Bool.not_eq_true', ← Bool.not_eq_true, List.contains_iff_mem]
  constructor
  · rintro ⟨⟨i, st⟩, ⟨hst, hstay⟩, ht⟩
    cases st with
    | link l =>
      have hends : id = l.source.id ∨ id = l.target.id := by simpa [Statement.tokens] using ht
      have htouch : l.touches id = true := by rcases hends with rfl | rfl <;> simp [LinkLine.touches]
      obtain ⟨r, hr, rfl, rfl⟩ := View.exists_mem_links hst
      exact absurd ((mem_lines_iff_of_block_link hg h hr).2
        (.inr (List.any_eq_true.2 ⟨id, hid, htouch⟩))) hstay
    | node n =>
      obtain rfl : id = n.token.id := List.mem_singleton.1 ht
      rw [mem_lines_iff_of_block_node hg h hst, not_or, not_and, not_not] at hstay
      exact ⟨hstay.2 hid, i, n, hst, hstay.1, rfl⟩
    | _ => cases ht
  · rintro ⟨hsubgraph, i, n, hst, hout, rfl⟩
    refine ⟨(i, .node n), ⟨hst, ?_⟩, List.mem_singleton_self _⟩
    rw [mem_lines_iff_of_block_node hg h hst, not_or, not_and, not_not]
    exact ⟨hout, fun _ => hsubgraph⟩

/-- What is left when the block of a subgraph goes. -/
theorem isCleared_of_block (hdecl : IsDeclared .flowchart front line body s)
    (hbalance : s.checkBalance blockRules = .ok ())
    (hlines : ∀ text ∈ s.lines, SubgraphHeader.IsUniform text)
    (hnodup : (View.ofSource s).subgraphIds.Nodup) : IsCleared g.span s s' := by
  have hlinks : (View.ofSource s').links.map (·.link) =
      ((View.ofSource s).links.filter fun r => !g.span.contains r.line &&
        !((View.ofSource s).idsWithin g.span).any r.link.touches).map (·.link) := by
    rw [h.map_link_links_eq]
    congr 1
    refine List.filter_congr fun r hr => ?_
    rw [← Bool.not_or, Bool.eq_iff_iff, Bool.not_eq_true', Bool.not_eq_true', ← Bool.not_eq_true,
      ← Bool.not_eq_true, List.contains_iff_mem, mem_lines_iff_of_block_link hg h hr, Bool.or_eq_true]
  have hids : (View.ofSource s').subgraphIds =
      ((View.ofSource s).subgraphs.filter fun c => !g.span.encloses c.span).map (·.id) := by
    rw [h.subgraphIds_eq]
    congr 1
    refine List.filter_congr fun c hc => ?_
    rw [← contains_start_eq_encloses hdecl hbalance hlines hg hc, Bool.eq_iff_iff, Bool.not_eq_true',
      Bool.not_eq_true', ← Bool.not_eq_true, ← Bool.not_eq_true, List.contains_iff_mem,
      mem_lines_iff_of_block_header hg h hc]
  have hold : ∀ n ∈ (View.ofSource s).nodes, n.id ∉ (View.ofSource s').subgraphIds := by
    intro n hn hmem
    rw [hids] at hmem
    obtain ⟨c, hc, heq⟩ := List.mem_map.1 hmem
    exact View.not_mem_subgraphIds hn (heq ▸ List.mem_map_of_mem (List.mem_filter.1 hc).1)
  have hnot : ∀ id ∈ (View.ofSource s).idsWithin g.span, id ∉ (View.ofSource s').subgraphIds := by
    intro id hid
    rcases View.mem_idsWithin.1 hid with ⟨n, hn, -, rfl⟩ | ⟨c, hc, hin, rfl⟩
    · exact hold n hn
    · rw [hids]
      intro hmem
      obtain ⟨c', hc', heq⟩ := List.mem_map.1 hmem
      obtain ⟨hc', hout⟩ := List.mem_filter.1 hc'
      -- No other subgraph has the id.
      rw [List.inj_on_of_nodup_map hnodup hc' hc heq, hin] at hout
      cases hout
  refine ⟨hlinks, hids, hnot, fun id hid r hr => ?_, fun id hid => ?_, fun n hn hout hd => ?_⟩
  · have hmem := List.mem_map_of_mem (f := LinkRecord.link) hr
    rw [hlinks] at hmem
    obtain ⟨r', hr', heq⟩ := List.mem_map.1 hmem
    have hstay := (List.mem_filter.1 hr').2
    rw [heq, Bool.and_eq_true, Bool.not_eq_true', Bool.not_eq_true', List.any_eq_false] at hstay
    simpa using hstay.2 id hid
  · rw [View.isSome_node?_iff_tokenIds, and_iff_right (hnot id hid), mem_tokenIds_iff_of_block hg h hid]
  · obtain ⟨d, hd⟩ := Option.isSome_iff_exists.1 hd
    obtain ⟨n', hn', hsome, -⟩ := h.exists_node?_of_not_mem (hold n hn)
      (View.node?_eq_some_iff.2 ⟨hn, rfl⟩) hd (not_mem_idsWithin hn hout)
    exact ⟨n', hn', hsome⟩

end Block

/-! ## The deletion -/

/-- In a balanced source in which the lines that read as headers are those that open a block, and no two
subgraphs have the same id, a subgraph that is deleted with everything inside takes its block and what
goes with it, and nothing else. -/
theorem deleteSubgraph_isCleared {e : Edited} (ids : IdAllocator) (hkind : s.kind? = some .flowchart)
    (hbalance : s.checkBalance blockRules = .ok ())
    (hlines : ∀ text ∈ s.lines, isSubgraphOpen (trim text) = (SubgraphHeader.ofLine? text).isSome)
    (hnodup : ((View.ofSource s).subgraphs.map (·.id)).Nodup)
    (hok : (apply (.deleteSubgraph id .everything) s ids).1 = .ok e) :
    ∃ g, (View.ofSource s).subgraph? id = some g ∧ g.span ∈ s.blocks blockRules ∧
      IsCleared g.span s e.source := by
  obtain ⟨front, line, body, hdecl⟩ := exists_isDeclared hkind
  have huniform : ∀ text ∈ s.lines, SubgraphHeader.IsUniform text := fun text htext =>
    SubgraphHeader.isUniform_iff.2 (hlines text htext)
  obtain ⟨g, hrequired, hok⟩ := bind_eq_ok.1 hok
  obtain ⟨s', hcascade, hok⟩ := bind_eq_ok.1 hok
  cases hok
  have hfind := requireSubgraph_eq_ok hrequired
  have hg := List.mem_of_find?_eq_some hfind
  have hstart := (View.subgraphsBehind_ofSource hdecl g hg).1
  rw [← View.idsWithin_eq hdecl hbalance huniform hg] at hcascade
  obtain ⟨removal, removed, w, h⟩ := exists_cascade_of_isDeclared hdecl
    (fun i hi => Nat.lt_of_lt_of_le hstart (start_le_of_mem_blockLines hi)) hcascade
  exact ⟨g, hfind, View.span_mem_blocks hdecl hbalance huniform hg,
    isCleared_of_block hg h hdecl hbalance huniform hnodup⟩

/-- A subgraph with another one inside. Of the nodes that are linked with them, one is defined on a link
that goes, and one has a mention in the block. -/
theorem deleteSubgraph_isCleared_nested :
    let s : Source := .ofText
      "graph\nsubgraph S\nA\nsubgraph T\nZ\nend\nend\nZ[z] --> T\nA --> D[d]\nD --> Z".toList
    let after : Source := .ofText "graph\nZ[z]\nD[d]\nD --> Z".toList
    s.kind? = some .flowchart ∧ s.checkBalance blockRules = .ok () ∧
      (∀ text ∈ s.lines, isSubgraphOpen (trim text) = (SubgraphHeader.ofLine? text).isSome) ∧
      ((View.ofSource s).subgraphs.map (·.id)).Nodup ∧
      (apply (.deleteSubgraph ['S'] .everything) s {}).1 = .ok ⟨after, none⟩ ∧
      (View.ofSource s).idsWithin ⟨1, 6⟩ = [['A'], ['S'], ['T']] ∧
      ∃ g, (View.ofSource s).subgraph? ['S'] = some g ∧ g.span ∈ s.blocks blockRules ∧
        IsCleared g.span s after := by
  intro s after
  have hkind : s.kind? = some .flowchart := by decide +kernel
  have hbalance : s.checkBalance blockRules = .ok () := by decide +kernel
  have hlines : ∀ text ∈ s.lines,
      isSubgraphOpen (trim text) = (SubgraphHeader.ofLine? text).isSome := by decide +kernel
  have hnodup : ((View.ofSource s).subgraphs.map (·.id)).Nodup := by decide +kernel
  have hok : (apply (.deleteSubgraph ['S'] .everything) s {}).1 = .ok ⟨after, none⟩ := by
    decide +kernel
  exact ⟨hkind, hbalance, hlines, hnodup, hok, by decide +kernel,
    deleteSubgraph_isCleared {} hkind hbalance hlines hnodup hok⟩

/-- The deleted subgraph stands alone on a line outside of its block, and is a node afterwards. -/
theorem not_deleteSubgraph_clears :
    let s : Source := .ofText "flowchart TD\nsubgraph S\nA\nend\nS".toList
    let after : Source := .ofText "flowchart TD\nS".toList
    s.kind? = some .flowchart ∧ s.checkBalance blockRules = .ok () ∧
      (∀ text ∈ s.lines, isSubgraphOpen (trim text) = (SubgraphHeader.ofLine? text).isSome) ∧
      ((View.ofSource s).subgraphs.map (·.id)).Nodup ∧
      (apply (.deleteSubgraph ['S'] .everything) s {}).1 = .ok ⟨after, none⟩ ∧
      ((View.ofSource after).node? ['S']).isSome := by
  decide +kernel

end Edit.Flowchart

end DiagramEditor
