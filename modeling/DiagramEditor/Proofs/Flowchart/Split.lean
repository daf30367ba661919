import DiagramEditor.Proofs.Flowchart.Extent

/-!
# A source around a block

The statements of a source that stand in front of the lines of a subgraph, on them and behind them
(`HasBlock`). Which of its subgraphs begin on these lines and which of its nodes are first mentioned
there can be told from the statements alone (`HasBlock.filter_subgraphs`,
`HasBlock.any_head?_mentions_iff`).
-/

namespace DiagramEditor.Flowchart

open Source

variable {s : Source} {st : Statement} {sts : List Statement} {x : Text} {i k n : Nat}

/-! ## Statements with their numbers -/

/-- The statements with the numbers of their lines, the first of which is `n`. -/
def numberFrom : (n : Nat) → List Statement → List (Nat × Statement)
  | _, [] => []
  | n, st :: sts => (n, st) :: numberFrom (n + 1) sts

theorem numberFrom_append (n : Nat) (sts more : List Statement) :
    numberFrom n (sts ++ more) = numberFrom n sts ++ numberFrom (n + sts.length) more := by
  induction sts generalizing n with
  | nil => rfl
  | cons st sts ih =>
    rw [List.cons_append, numberFrom, ih, List.length_cons, Nat.add_comm sts.length, ← Nat.add_assoc]
    rfl

theorem numberFrom_map (n : Nat) (lines : List Text) :
    numberFrom n (lines.map Statement.ofLine) =
      (numbered n lines).map fun p => (p.1, Statement.ofLine p.2) := by
  induction lines generalizing n with
  | nil => rfl
  | cons line lines ih => rw [List.map_cons, numberFrom, ih, numbered_cons, List.map_cons]

@[simp] theorem map_snd_numberFrom (n : Nat) (sts : List Statement) :
    (numberFrom n sts).map Prod.snd = sts := by
  induction sts generalizing n with
  | nil => rfl
  | cons st sts ih => rw [numberFrom, List.map_cons, ih]

theorem mem_numberFrom : (i, st) ∈ numberFrom n sts ↔ n ≤ i ∧ sts[i - n]? = some st := by
  induction sts generalizing n with
  | nil => simp [numberFrom]
  | cons st' sts ih =>
    rw [numberFrom, List.mem_cons, ih]
    rcases Nat.lt_trichotomy i n with hlt | rfl | hlt
    · have hne : (i, st) ≠ (n, st') := fun heq => Nat.ne_of_lt hlt (congrArg Prod.fst heq)
      rw [or_iff_right hne]
      exact ⟨fun h => absurd h.1 (by omega), fun h => absurd h.1 (by omega)⟩
    · simp [eq_comm]
    · obtain ⟨j, rfl⟩ := Nat.exists_eq_add_of_lt hlt
      have hne : (n + j + 1, st) ≠ (n, st') := fun heq =>
        Nat.ne_of_gt hlt (congrArg Prod.fst heq)
      have hindex : n + j + 1 - n = j + 1 ∧ n + j + 1 - (n + 1) = j := by omega
      rw [hindex.1, hindex.2, List.getElem?_cons_succ, or_iff_right hne]
      exact and_congr_left fun _ => by omega

theorem bounds_of_mem_numberFrom {p : Nat × Statement} (h : p ∈ numberFrom n sts) :
    n ≤ p.1 ∧ p.1 < n + sts.length := by
  obtain ⟨hle, hget⟩ := mem_numberFrom.1 (show (p.1, p.2) ∈ _ from h)
  have := (List.getElem?_eq_some_iff.1 hget).1
  omega

theorem pairwise_numberFrom (n : Nat) (sts : List Statement) :
    (numberFrom n sts).Pairwise fun p q => p.1 < q.1 := by
  induction sts generalizing n with
  | nil => exact .nil
  | cons st sts ih => exact .cons (fun p hp => (bounds_of_mem_numberFrom hp).1) (ih (n + 1))

theorem mem_numberFrom_add {i k n : Nat} (h : (i, st) ∈ numberFrom n sts) :
    (i + k, st) ∈ numberFrom (n + k) sts := by
  obtain ⟨hle, hget⟩ := mem_numberFrom.1 h
  exact mem_numberFrom.2 ⟨by omega, by rwa [Nat.add_sub_add_right]⟩

/-- Each statement has the number of its place. -/
theorem numberFrom_eq_append_cons {before after : List (Nat × Statement)}
    (h : numberFrom n sts = before ++ (i, st) :: after) :
    i = n + before.length ∧ sts = before.map Prod.snd ++ st :: after.map Prod.snd := by
  refine ⟨?_, by simpa using congrArg (List.map Prod.snd) h⟩
  induction before generalizing n sts with
  | nil =>
    cases sts <;> cases h
    rfl
  | cons p before ih =>
    cases sts with
    | nil => cases h
    | cons st' sts =>
      have hi := ih (List.cons.inj h).2
      rw [List.length_cons]
      omega

/-- Below a declaration, the statements are numbered from the line behind it on. -/
theorem statements_eq_numberFrom {front body : List Text} {line : Text}
    (h : IsDeclared .flowchart front line body s) :
    statements s = numberFrom (front.length + 1) (body.map Statement.ofLine) := by
  rw [statements, h.body_eq, numberFrom_map]

/-! ## Mentions -/

/-- The ids of the nodes and subgraphs that the tokens of some statements name. -/
def tokenIds (sts : List Statement) : List Text :=
  (sts.flatMap Statement.tokens).map (·.id)

theorem tokenIds_append (sts more : List Statement) :
    tokenIds (sts ++ more) = tokenIds sts ++ tokenIds more := by
  rw [tokenIds, List.flatMap_append, List.map_append]
  rfl

/-- A mention stands on the line of its statement. -/
theorem exists_mem_of_mem_mentions {p : Mention × NodeToken} {sts : List (Nat × Statement)}
    (h : p ∈ View.mentions sts) : ∃ q ∈ sts, q.1 = p.1.line := by
  obtain ⟨q, hq, hp⟩ := View.mem_mentions.1 h
  exact ⟨q, hq, (View.line_defines_of_mem_mentions (m := p.1) (t := p.2) hp).1.symm⟩

theorem mentionsOf_eq_nil_iff {sts : List (Nat × Statement)} :
    View.mentionsOf x (View.mentions sts) = [] ↔ x ∉ tokenIds (sts.map Prod.snd) := by
  rw [tokenIds, ← View.map_snd_mentions, List.map_map, List.mem_map, View.mentionsOf,
    List.filter_eq_nil_iff]
  simp only [decide_eq_true_eq, not_exists, not_and, Function.comp_apply]

/-- The first mention of a node in some statements. -/
def firstMention? (id : Text) (sts : List (Nat × Statement)) : Option Mention :=
  ((View.mentionsOf id (View.mentions sts)).map Prod.fst).head?

theorem firstMention?_append (id : Text) (sts more : List (Nat × Statement)) :
    firstMention? id (sts ++ more) = (firstMention? id sts).or (firstMention? id more) := by
  rw [firstMention?, View.mentions, View.mentionsOf, List.flatMap_append, List.filter_append,
    List.map_append, List.head?_append]
  rfl

theorem firstMention?_eq_none_iff {sts : List (Nat × Statement)} :
    firstMention? x sts = none ↔ x ∉ tokenIds (sts.map Prod.snd) := by
  rw [firstMention?, List.head?_eq_none_iff, List.map_eq_nil_iff, mentionsOf_eq_nil_iff]

theorem exists_mem_of_firstMention? {m : Mention} {sts : List (Nat × Statement)}
    (h : firstMention? x sts = some m) : ∃ q ∈ sts, q.1 = m.line := by
  obtain ⟨p, hp, rfl⟩ := List.mem_map.1 (List.mem_of_head? h)
  exact exists_mem_of_mem_mentions (List.mem_filter.1 hp).1

/-- A node is mentioned, and its id names no subgraph. -/
theorem View.isSome_node?_iff_tokenIds : ((View.ofSource s).node? x).isSome = true ↔
    x ∉ (View.ofSource s).subgraphIds ∧ x ∈ tokenIds ((statements s).map Prod.snd) := by
  rw [View.isSome_node?_iff, ne_eq, mentionsOf_eq_nil_iff, not_not]

theorem flatMap_definitionsOf (id : Text) (sts : List Statement) :
    sts.flatMap (Statement.definitionsOf id) =
      ((sts.flatMap Statement.tokens).filter fun t => t.id = id).filterMap (·.definition) := by
  rw [List.filter_flatMap, List.filterMap_flatMap]
  rfl

/-- An id that is not mentioned has no definition. -/
theorem flatMap_definitionsOf_eq_nil (hx : x ∉ tokenIds sts) :
    sts.flatMap (Statement.definitionsOf x) = [] := by
  have hnil : ((sts.flatMap Statement.tokens).filter fun t => t.id = x) = [] :=
    List.filter_eq_nil_iff.2 fun t ht heq =>
      hx (List.mem_map.2 ⟨t, ht, of_decide_eq_true heq⟩)
  rw [flatMap_definitionsOf, hnil, List.filterMap_nil]

/-! ## Where subgraphs begin -/

/-- The lines on which the statements open subgraphs. -/
def headerLines (sts : List (Nat × Statement)) : List Nat :=
  (sts.filter fun p => p.2.blockStep = .enter).map Prod.fst

theorem headerLines_append (sts more : List (Nat × Statement)) :
    headerLines (sts ++ more) = headerLines sts ++ headerLines more := by
  rw [headerLines, List.filter_append, List.map_append]
  rfl

theorem exists_of_mem_headerLines {i : Nat} {sts : List (Nat × Statement)}
    (h : i ∈ headerLines sts) : ∃ p ∈ sts, p.1 = i := by
  obtain ⟨p, hp, rfl⟩ := List.mem_map.1 h
  exact ⟨p, (List.mem_filter.1 hp).1, rfl⟩

theorem length_headerLines (n : Nat) (sts : List Statement) :
    (headerLines (numberFrom n sts)).length = (sts.filterMap Statement.subgraph?).length := by
  induction sts generalizing n with
  | nil => rfl
  | cons st sts ih =>
    have hfirst : (headerLines [(n, st)]).length = st.subgraph?.toList.length := by
      cases st <;> rfl
    rw [numberFrom, ← List.singleton_append, headerLines_append, List.length_append, hfirst, ih,
      List.filterMap_cons]
    cases st.subgraph? with
    | none => exact Nat.zero_add _
    | some id => exact Nat.add_comm 1 _

/-- A subgraph of the view is opened on its first line. -/
theorem map_start_id_subgraphs (s : Source) :
    (View.ofSource s).subgraphs.map (fun g => (g.span.start, g.id)) =
      found Statement.subgraph? (statements s) := by
  have hlines : (found Statement.subgraph? (statements s)).map Prod.fst =
      headerLines (statements s) := by
    induction statements s with
    | nil => rfl
    | cons p sts ih =>
      obtain ⟨line, st⟩ := p
      cases st <;> first | exact ih | exact congrArg (line :: ·) ih
  have hstarts : (View.ofSource s).subgraphs.map (·.span.start) = headerLines (statements s) :=
    (List.map_map ..).symm.trans (starts_ofSource s)
  have hids : (View.ofSource s).subgraphs.map (·.id) = _ := View.subgraphIds_ofSource s
  rw [← List.zip_map', hstarts, hids, ← hlines, ← map_snd_found, List.zip_map']
  exact List.map_id _

/-- The subgraphs that begin on certain lines are those that the statements there open. -/
theorem View.map_id_filter_subgraphs (p : Nat → Bool) (s : Source) :
    ((View.ofSource s).subgraphs.filter fun g => p g.span.start).map (·.id) =
      (found Statement.subgraph? ((statements s).filter fun q => p q.1)).map Prod.snd := by
  rw [found_filter, ← map_start_id_subgraphs, List.filter_map, List.map_map]
  rfl

/-! ## A block -/

/-- The lines of the span hold a subgraph and say `block`. In front of them stands `before` and behind
them `after`, and the first of all these lines has the number `first`. -/
structure HasBlock (s : Source) (span : BlockSpan) (first : Nat)
    (before block after : List Statement) : Prop where
  statements_eq : statements s = numberFrom first (before ++ block ++ after)
  start_eq : span.start = first + before.length
  stop_eq : span.stop + 1 = first + before.length + block.length
  isBlock : ∃ header inner, block = .subgraphOpen header :: inner ∧ ClosesFrom 1 inner

namespace HasBlock

variable {span : BlockSpan} {first : Nat} {before block after : List Statement}
  (h : HasBlock s span first before block after)
include h

theorem length_pos : 0 < block.length := by
  obtain ⟨header, inner, rfl, -⟩ := h.isBlock
  exact Nat.succ_pos _

theorem length_eq : block.length = span.length := by
  have hpos := h.length_pos
  have hstart := h.start_eq
  have hstop := h.stop_eq
  rw [BlockSpan.length]
  omega

theorem map_snd_statements :
    (statements s).map Prod.snd = before ++ block ++ after := by
  rw [h.statements_eq, map_snd_numberFrom]

theorem statements_split : statements s = numberFrom first before ++
    numberFrom (first + before.length) block ++
      numberFrom (first + before.length + block.length) after := by
  rw [h.statements_eq, numberFrom_append, numberFrom_append, List.length_append, Nat.add_assoc first]

/-- Which lines stand in front of the end of the block, in the block and behind it. -/
theorem bounds_of_lines :
    (∀ q ∈ numberFrom first before, q.1 ≤ span.stop ∧ span.contains q.1 = false) ∧
      (∀ q ∈ numberFrom (first + before.length) block,
        q.1 ≤ span.stop ∧ span.contains q.1 = true) ∧
      ∀ q ∈ numberFrom (first + before.length + block.length) after,
        span.stop < q.1 ∧ span.contains q.1 = false := by
  have hpos := h.length_pos
  have hstart := h.start_eq
  have hstop := h.stop_eq
  simp only [BlockSpan.contains, Bool.and_eq_true, Bool.and_eq_false_iff, decide_eq_true_eq,
    decide_eq_false_iff_not]
  refine ⟨fun q hq => ?_, fun q hq => ?_, fun q hq => ?_⟩ <;>
  · obtain ⟨hle, hlt⟩ := bounds_of_mem_numberFrom hq
    omega

/-- The statements in front of the end of the block, in the block and behind it. -/
theorem filter_statements :
    ((statements s).filter fun q => q.1 ≤ span.stop) = numberFrom first before ++
        numberFrom (first + before.length) block ∧
      ((statements s).filter fun q => span.contains q.1) =
        numberFrom (first + before.length) block ∧
      ((statements s).filter fun q => span.stop < q.1) =
        numberFrom (first + before.length + block.length) after := by
  obtain ⟨hbefore, hblock, hafter⟩ := h.bounds_of_lines
  simp only [h.statements_split, List.filter_append]
  refine ⟨?_, ?_, ?_⟩
  · rw [List.filter_eq_self.2 fun q hq => decide_eq_true (hbefore q hq).1,
      List.filter_eq_self.2 fun q hq => decide_eq_true (hblock q hq).1,
      List.filter_eq_nil_iff.2 fun q hq => by simpa using (hafter q hq).1, List.append_nil]
  · rw [List.filter_eq_nil_iff.2 fun q hq => by simp [(hbefore q hq).2],
      List.filter_eq_self.2 fun q hq => (hblock q hq).2,
      List.filter_eq_nil_iff.2 fun q hq => by simp [(hafter q hq).2], List.append_nil,
      List.nil_append]
  · rw [List.filter_eq_nil_iff.2 fun q hq => by simpa using (hbefore q hq).1,
      List.filter_eq_nil_iff.2 fun q hq => by simpa using (hblock q hq).1,
      List.filter_eq_self.2 fun q hq => decide_eq_true (hafter q hq).1]
    rfl

/-- What begins on the lines of headers in front of the end of the block, in the block and behind. -/
theorem filter_subgraphs {gs : List SubgraphRecord}
    (hgs : gs.map (·.span.start) = headerLines (statements s)) {b c : Nat}
    (hb : b = (before.filterMap Statement.subgraph?).length)
    (hc : c = ((before ++ block).filterMap Statement.subgraph?).length) :
    gs.take c = gs.filter (fun g => g.span.start ≤ span.stop) ∧
      (gs.take c).drop b = gs.filter (fun g => span.contains g.span.start) ∧
      gs.drop c = gs.filter fun g => span.stop < g.span.start := by
  obtain ⟨hbefore, hblock, hafter⟩ := h.bounds_of_lines
  rw [h.statements_split, headerLines_append, headerLines_append] at hgs
  obtain ⟨gs₁₂, gs₃, rfl, hmap, hmap₃⟩ := List.map_eq_append_iff.1 hgs
  obtain ⟨gs₁, gs₂, rfl, hmap₁, hmap₂⟩ := List.map_eq_append_iff.1 hmap
  have hlength : ∀ {n : Nat} {sts : List Statement} {gs : List SubgraphRecord},
      gs.map (·.span.start) = headerLines (numberFrom n sts) →
      (sts.filterMap Statement.subgraph?).length = gs.length := fun hgs => by
    rw [← length_headerLines, ← hgs, List.length_map]
  have hin : ∀ {n : Nat} {sts : List Statement} {gs : List SubgraphRecord} {p : Nat → Prop},
      gs.map (·.span.start) = headerLines (numberFrom n sts) → (∀ q ∈ numberFrom n sts, p q.1) →
      ∀ g ∈ gs, p g.span.start := by
    intro n sts gs p hgs hp g hg
    obtain ⟨q, hq, heq⟩ := exists_of_mem_headerLines (hgs ▸ List.mem_map_of_mem hg)
    exact heq ▸ hp q hq
  have h₁ := hin (p := fun i => i ≤ span.stop ∧ span.contains i = false) hmap₁ hbefore
  have h₂ := hin (p := fun i => i ≤ span.stop ∧ span.contains i = true) hmap₂ hblock
  have h₃ := hin (p := fun i => span.stop < i ∧ span.contains i = false) hmap₃ hafter
  rw [List.filterMap_append, List.length_append, hlength hmap₁, hlength hmap₂] at hc
  rw [hlength hmap₁] at hb
  have htake : (gs₁ ++ gs₂ ++ gs₃).take c = gs₁ ++ gs₂ := by
    rw [hc, ← List.length_append, List.take_left]
  have hdrop : (gs₁ ++ gs₂ ++ gs₃).drop c = gs₃ := by
    rw [hc, ← List.length_append, List.drop_left]
  rw [htake, hdrop, hb, List.drop_left]
  simp only [List.filter_append]
  refine ⟨?_, ?_, ?_⟩
  · rw [List.filter_eq_self.2 fun g hg => decide_eq_true (h₁ g hg).1,
      List.filter_eq_self.2 fun g hg => decide_eq_true (h₂ g hg).1,
      List.filter_eq_nil_iff.2 fun g hg => by simpa using (h₃ g hg).1, List.append_nil]
  · rw [List.filter_eq_nil_iff.2 fun g hg => by simp [(h₁ g hg).2],
      List.filter_eq_self.2 fun g hg => (h₂ g hg).2,
      List.filter_eq_nil_iff.2 fun g hg => by simp [(h₃ g hg).2], List.append_nil,
      List.nil_append]
  · rw [List.filter_eq_nil_iff.2 fun g hg => by simpa using (h₁ g hg).1,
      List.filter_eq_nil_iff.2 fun g hg => by simpa using (h₂ g hg).1,
      List.filter_eq_self.2 fun g hg => decide_eq_true (h₃ g hg).1]
    rfl

/-- The subgraphs that begin on the lines of the block are those that its statements open. -/
theorem map_id_subgraphs :
    ((View.ofSource s).subgraphs.filter fun g => span.contains g.span.start).map (·.id) =
      block.filterMap Statement.subgraph? := by
  rw [View.map_id_filter_subgraphs span.contains, map_snd_found, h.filter_statements.2.1,
    map_snd_numberFrom]

/-- A node is first mentioned in the block exactly if it is mentioned there and not in front of it. -/
theorem any_head?_mentions_iff {n : NodeRecord} (hn : n ∈ (View.ofSource s).nodes) :
    (n.mentions.head?.any fun m => span.contains m.line) = true ↔
      n.id ∈ tokenIds block ∧ n.id ∉ tokenIds before := by
  obtain ⟨hbefore, hblock, hafter⟩ := h.bounds_of_lines
  -- The first mention stands in front of the block, else in it, else behind it.
  have hsplit : n.mentions.head? = ((firstMention? n.id (numberFrom first before)).or
      (firstMention? n.id (numberFrom (first + before.length) block))).or
        (firstMention? n.id (numberFrom (first + before.length + block.length) after)) := by
    rw [View.mentions_eq hn, h.statements_split, ← firstMention?_append, ← firstMention?_append]
    rfl
  have hnone : ∀ {k : Nat} {sts : List Statement},
      firstMention? n.id (numberFrom k sts) = none ↔ n.id ∉ tokenIds sts := by
    intro k sts
    rw [firstMention?_eq_none_iff, map_snd_numberFrom]
  have hfront : firstMention? n.id (numberFrom first before) = none ↔ _ := hnone
  have hinside : firstMention? n.id (numberFrom (first + before.length) block) = none ↔ _ := hnone
  rw [hsplit, ← hfront, ← not_not (a := n.id ∈ tokenIds block), ← hinside]
  cases hfirst : firstMention? n.id (numberFrom first before) with
  | some m =>
    obtain ⟨q, hq, hline⟩ := exists_mem_of_firstMention? hfirst
    simp [← hline, (hbefore q hq).2]
  | none =>
    cases hmention : firstMention? n.id (numberFrom (first + before.length) block) with
    | some m =>
      obtain ⟨q, hq, hline⟩ := exists_mem_of_firstMention? hmention
      simp [← hline, (hblock q hq).2]
    | none =>
      cases hbehind : firstMention? n.id
          (numberFrom (first + before.length + block.length) after) with
      | some m =>
        obtain ⟨q, hq, hline⟩ := exists_mem_of_firstMention? hbehind
        simp [← hline, (hafter q hq).2]
      | none => simp

end HasBlock

end DiagramEditor.Flowchart
