import DiagramEditor.Edit.Flowchart.Duplicate
import DiagramEditor.Proofs.Edit.Flowchart.Move
import DiagramEditor.Proofs.Flowchart.Definition

/-!
# Lines that are copied

The copy of a node and of the directives about it are lines below their originals, and none of them
is a mark (`duplicateNode_carries`). The copy of a subgraph is one block of lines in the middle of
the source, with more lines at the end that are no marks (`duplicateSubgraph_eq_ok`). Links and
directives of the block are copied with it, and this is what can go wrong.
-/

namespace DiagramEditor.Edit.Flowchart

open DiagramEditor.Flowchart Source Text
open NodeToken (IsIdent IsClassName isClassName_of_scan?)

variable {s s' : Source} {front body : List Text} {line : Text} {n : NodeRecord}

/-! ## Lines below others -/

/-- The number of a line after one line was inserted below each of the given ones. -/
def lineAfterBelow (lines : List Nat) (j : Nat) : Nat :=
  j + (lines.filter (· < j)).length

/-- Where the lines are given from below, the lines above one of them do not count the later ones. -/
theorem lineAfterBelow_cons {i : Nat} {lines : List Nat} (h : ∀ l ∈ lines, l ≤ i) (j : Nat) :
    lineAfterBelow lines (lineAfterInsert (i + 1) 1 j) = lineAfterBelow (i :: lines) j := by
  rw [lineAfterInsert, lineAfterBelow, lineAfterBelow]
  rcases Nat.lt_or_ge i j with hij | hji
  · have hall : ∀ k, i < k → lines.filter (· < k) = lines := fun k hk =>
      List.filter_eq_self.2 fun l hl => decide_eq_true (Nat.lt_of_le_of_lt (h l hl) hk)
    rw [if_pos (Nat.succ_le_of_lt hij), List.filter_cons_of_pos (by simpa using hij), hall j hij,
      hall (j + 1) (Nat.lt_succ_of_lt hij), List.length_cons]
    omega
  · rw [if_neg (Nat.not_le.2 (Nat.lt_succ_of_le hji)),
      List.filter_cons_of_neg (by simpa using hji)]

/-- The lowest lines come first. -/
theorem pairwise_inserts (inserts : List (Nat × Text)) :
    (inserts.mergeSort fun a b => b.1 ≤ a.1).Pairwise fun a b => b.1 ≤ a.1 := by
  refine (List.pairwise_mergeSort (fun a b c hab hbc => ?_) (fun a b => ?_) inserts).imp
    fun hab => of_decide_eq_true hab
  · simp only [decide_eq_true_eq] at hab hbc ⊢
    omega
  · simp only [Bool.or_eq_true, decide_eq_true_eq]
    omega

/-- Lines that are no marks are inserted below lines of the body. -/
theorem carries_insertBelow {inserts : List (Nat × Text)}
    (h : IsDeclared .flowchart front line body s)
    (hin : ∀ p ∈ inserts, front.length < p.1 ∧ (Statement.ofLine p.2).isMark = false)
    (hok : insertBelow inserts s = .ok s') :
    Carries (lineAfterBelow (inserts.map Prod.fst)) s s' := by
  have hsorted : ∀ (l : List (Nat × Text)) {body : List Text} {s : Source},
      l.Pairwise (fun a b => b.1 ≤ a.1) →
      (∀ p ∈ l, front.length < p.1 ∧ (Statement.ofLine p.2).isMark = false) →
      IsDeclared .flowchart front line body s →
      l.foldlM (fun s p => insertLines (p.1 + 1) [p.2] s) s = .ok s' →
      Carries (lineAfterBelow (l.map Prod.fst)) s s' := by
    intro l
    induction l with
    | nil =>
      intro body s _ _ _ hok
      cases hok
      exact (List.map_id _).symm
    | cons p l ih =>
      intro body s hpair hin h hok
      rw [List.foldlM_cons] at hok
      obtain ⟨s₁, hinsert, hok⟩ := bind_eq_ok.1 hok
      obtain ⟨hline, hmark⟩ := hin p List.mem_cons_self
      obtain ⟨hle, hpair⟩ := List.pairwise_cons.1 hpair
      obtain ⟨before, after, rfl, hbefore, hdecl⟩ :=
        insertLines_body h (Nat.lt_succ_of_lt hline) hinsert
      have hfirst := carries_insert h hdecl fun t ht => by rwa [List.mem_singleton.1 ht]
      have hrest := ih hpair (fun q hq => hin q (List.mem_cons_of_mem _ hq)) hdecl hok
      rw [show front.length + 1 + before.length = p.1 + 1 by omega] at hfirst
      have hcomp := hfirst.trans hrest
      rw [List.map_cons]
      refine hcomp.congr fun j => lineAfterBelow_cons (fun k hk => ?_) j
      obtain ⟨q, hq, rfl⟩ := List.mem_map.1 hk
      exact hle q hq
  have hperm := List.mergeSort_perm inserts fun a b => decide (b.1 ≤ a.1)
  refine (hsorted _ (pairwise_inserts inserts) (fun p hp => hin p (hperm.mem_iff.1 hp)) h hok).congr fun j => ?_
  rw [lineAfterBelow, lineAfterBelow, ((hperm.map Prod.fst).filter _).length_eq]

/-! ## Nodes -/

/-- The lines below which the copies of a node and of the directives about it are written. -/
def copiedLines (id : Text) (v : View) : List Nat :=
  match (v.node? id).bind (·.anchorLine?) with
  | none => []
  | some anchor => anchor :: ((v.styles.filter (·.2.target = id)).map Prod.fst ++
      (v.classes.filter (·.2.ids.contains id)).map Prod.fst)

/-- The line that carries the text of a node holds one of its mentions. -/
theorem exists_mention_of_anchorLine? (hn : n ∈ (View.ofSource s).nodes) {i : Nat}
    (h : n.anchorLine? = some i) : ∃ m ∈ n.mentions, m.line = i := by
  rcases Option.or_eq_some_iff.1 h with h | ⟨-, h⟩
  · exact View.exists_mem_mentions_definitionLine hn h
  · rcases Option.or_eq_some_iff.1 h with h | ⟨-, h⟩
    · obtain ⟨m, hm, -, hline⟩ := exists_mention_of_standaloneLine? h
      exact ⟨m, hm, hline⟩
    · obtain ⟨m, hm, rfl⟩ := Option.map_eq_some_iff.1 h
      exact ⟨m, List.mem_of_head? hm, rfl⟩

/-- The copy of a node is no mark. -/
theorem isMark_of_copy (hn : n ∈ (View.ofSource s).nodes) {w copy : Text} (hw : IsBlank w)
    (hcopy : IsIdent copy) {suffix : Option Text} (hsuffix : ∀ name ∈ suffix, IsClassName name) :
    (Statement.ofLine (w ++ withClass ((n.definition.getD (.classic .rect n.label)).render copy)
      suffix)).isMark = false := by
  have hmark : ∀ {t : Text} {suffix : Option Text}, NodeToken.NoDelimiter t →
      NodeToken.scanClass t = (suffix, []) → (Statement.ofLine (w ++
        ((n.definition.getD (.classic .rect n.label)).render copy ++ t))).isMark = false := by
    intro t suffix ht hclass
    cases hd : n.definition with
    | none => exact isMark_of_classic .rect n.label hw hcopy ht hclass
    | some d =>
      obtain ⟨u, token, rest, hscan, hdef⟩ := (areScanned_nodes s n hn).2 d hd
      obtain ⟨after, -, hread, -⟩ := NodeToken.scan?_eq_some_iff.1 hscan
      rw [hdef] at hread
      exact isMark_of_render hread hw hcopy ht hclass
  cases suffix with
  | none =>
    have := hmark (t := []) (fun _ hc => nomatch hc) rfl
    rwa [List.append_nil] at this
  | some name =>
    have hname := hsuffix name rfl
    rw [withClass, List.append_assoc]
    exact hmark (NodeToken.noDelimiter_of_isClassName hname) (NodeToken.scanClass_classMark hname)

/-- Directives are copied to lines that are no marks, each below the one that it copies. -/
theorem mapM_copies {α : Type} {ds : List (Nat × α)} {out : List (Nat × Text)}
    {f : Nat × α → Except EditError (Nat × Text)} (hok : ds.mapM f = .ok out)
    (hf : ∀ p q, f p = .ok q → q.1 = p.1 ∧ (Statement.ofLine q.2).isMark = false) :
    out.map Prod.fst = ds.map Prod.fst ∧ ∀ q ∈ out, (Statement.ofLine q.2).isMark = false := by
  have hall := mapM_eq_ok hok
  clear hok
  induction hall with
  | nil => exact ⟨rfl, nofun⟩
  | cons hfirst _ ih =>
    obtain ⟨hline, hmark⟩ := hf _ _ hfirst
    obtain ⟨hlines, hmarks⟩ := ih
    refine ⟨by rw [List.map_cons, List.map_cons, hline, hlines], fun q hq => ?_⟩
    rcases List.mem_cons.1 hq with rfl | hq
    exacts [hmark, hmarks q hq]

theorem copiedStyles_eq_ok {id copy : Text} {v : View} {out : List (Nat × Text)}
    (hok : copiedStyles id copy v s = .ok out) :
    out.map Prod.fst = (v.styles.filter (·.2.target = id)).map Prod.fst ∧
      ∀ q ∈ out, (Statement.ofLine q.2).isMark = false := by
  refine mapM_copies hok fun p q hq => ?_
  obtain ⟨text, -, hq⟩ := bind_eq_ok.1 hq
  cases hq
  exact ⟨rfl, isMark_nodeStyle (isBlank_indent text) _⟩

theorem copiedClasses_eq_ok {id copy : Text} {v : View} {out : List (Nat × Text)}
    (hok : copiedClasses id copy v s = .ok out) :
    out.map Prod.fst = (v.classes.filter (·.2.ids.contains id)).map Prod.fst ∧
      ∀ q ∈ out, (Statement.ofLine q.2).isMark = false := by
  refine mapM_copies hok fun p q hq => ?_
  obtain ⟨text, -, hq⟩ := bind_eq_ok.1 hq
  cases hq
  exact ⟨rfl, isMark_classUse (isBlank_indent text) _⟩

/-- Every line that a node and its directives are copied from is one of the body. -/
theorem lt_of_mem_copiedLines (h : IsDeclared .flowchart front line body s) {id : Text} {i : Nat}
    (hi : i ∈ copiedLines id (View.ofSource s)) : front.length < i := by
  rw [copiedLines] at hi
  split at hi
  · cases hi
  · next anchor hanchor =>
    obtain ⟨n, hn, hanchor⟩ := Option.bind_eq_some_iff.1 hanchor
    obtain ⟨hmem, -⟩ := View.node?_eq_some_iff.1 hn
    rcases List.mem_cons.1 hi with rfl | hi
    · obtain ⟨m, hm, rfl⟩ := exists_mention_of_anchorLine? hmem hanchor
      obtain ⟨st, hst, -⟩ := (View.exists_mention_iff hmem).1 ⟨m, hm, rfl⟩
      exact lt_of_mem_statements h hst
    · rw [View.styles_ofSource, View.classes_ofSource] at hi
      rcases List.mem_append.1 hi with hi | hi <;>
        · obtain ⟨p, hp, rfl⟩ := List.mem_map.1 hi
          obtain ⟨st, hst, -⟩ := mem_found.1 (show (p.1, p.2) ∈ _ from (List.mem_filter.1 hp).1)
          exact lt_of_mem_statements h hst

/-- Duplicating a node carries every mark along. -/
theorem duplicateNode_carries {id : Text} {e : Edited} (h : IsDeclared .flowchart front line body s)
    (hok : duplicateNode id s = .ok e) :
    Carries (lineAfterBelow (copiedLines id (View.ofSource s))) s e.source := by
  obtain ⟨n, hn, hok⟩ := bind_eq_ok.1 hok
  have hnode := requireNode_eq_ok hn
  obtain ⟨hmem, rfl⟩ := View.node?_eq_some_iff.1 hnode
  cases hanchor : n.anchorLine? with
  | none =>
    simp only [hanchor] at hok
    cases hok
  | some anchor =>
    simp only [hanchor] at hok
    obtain ⟨_, ⟨⟩, hok⟩ := bind_eq_ok.1 hok
    obtain ⟨text, -, hok⟩ := bind_eq_ok.1 hok
    obtain ⟨styles, hstyles, hok⟩ := bind_eq_ok.1 hok
    obtain ⟨classes, hclasses, hok⟩ := bind_eq_ok.1 hok
    obtain ⟨s', hinsert, hok⟩ := bind_eq_ok.1 hok
    cases hok
    obtain ⟨hstyleLines, hstyleMarks⟩ := copiedStyles_eq_ok hstyles
    obtain ⟨hclassLines, hclassMarks⟩ := copiedClasses_eq_ok hclasses
    have hcopy := isIdent_suffixed (areScanned_nodes s n hmem).1 (View.ofSource s).ids
    have hsuffix : ∀ name ∈ classSuffixOn anchor text n, IsClassName name := by
      intro name hname
      obtain ⟨token, htoken, hname⟩ := Option.bind_eq_some_iff.1 hname
      obtain ⟨m, -, hscan⟩ := List.exists_of_findSome?_eq_some htoken
      obtain ⟨p, hp, rfl⟩ := Option.map_eq_some_iff.1 hscan
      exact isClassName_of_scan? hp hname
    have hlines : ∀ copy : Text, copiedLines n.id (View.ofSource s) =
        ((anchor, copy) :: styles ++ classes).map Prod.fst := by
      intro copy
      rw [copiedLines, hnode, Option.bind_some, hanchor, List.cons_append, List.map_cons,
        List.map_append, hstyleLines, hclassLines]
    rw [hlines]
    refine carries_insertBelow h (fun p hp => ⟨?_, ?_⟩) hinsert
    · have hline : p.1 ∈ copiedLines n.id (View.ofSource s) := by
        rw [hlines]
        exact List.mem_map_of_mem hp
      exact lt_of_mem_copiedLines h hline
    · rcases List.mem_cons.1 hp with rfl | hp
      · exact isMark_of_copy hmem (isBlank_indent text) hcopy hsuffix
      · rcases List.mem_append.1 hp with hp | hp
        exacts [hstyleMarks p hp, hclassMarks p hp]

/-! ## Subgraphs -/

/-- The lines of the copy of a subgraph. -/
def copiedBlock (g : SubgraphRecord) (ids : IdAllocator) (s : Source) : List Text :=
  (s.slice g.span.start g.span.length).map
    (copyLine (Renaming.ofBlock (View.ofSource s) g.span ids).1)

/-- The source goes on with lines that are no marks. -/
def GoesOn (s s' : Source) : Prop :=
  ∃ tail : List Text, (∀ text ∈ tail, (Statement.ofLine text).isMark = false) ∧
    s'.lines = s.lines ++ tail

theorem GoesOn.refl (s : Source) : GoesOn s s :=
  ⟨[], nofun, (List.append_nil _).symm⟩

theorem GoesOn.pushLine (h : GoesOn s s') {text : Text}
    (htext : (Statement.ofLine text).isMark = false) : GoesOn s (s'.pushLine text) := by
  obtain ⟨tail, htail, hlines⟩ := h
  refine ⟨tail ++ [text], fun t ht => ?_, ?_⟩
  · rcases List.mem_append.1 ht with ht | ht
    exacts [htail t ht, List.mem_singleton.1 ht ▸ htext]
  · rw [Source.pushLine, hlines, List.append_assoc]

theorem GoesOn.copyStyle {s₀ : Source} (h : GoesOn s₀ s) {map : Renaming} {span : BlockSpan}
    {p : Nat × NodeStyle} (hok : copyStyle map span s p = .ok s') : GoesOn s₀ s' := by
  rw [Flowchart.copyStyle] at hok
  split at hok
  · cases hok
    exact h
  · obtain ⟨text, -, hok⟩ := bind_eq_ok.1 hok
    cases hok
    exact h.pushLine (isMark_nodeStyle (isBlank_indent text) _)

theorem GoesOn.copyClass {s₀ : Source} (h : GoesOn s₀ s) {map : Renaming} {span : BlockSpan}
    {p : Nat × ClassUse} (hok : copyClass map span s p = .ok s') : GoesOn s₀ s' := by
  rw [Flowchart.copyClass] at hok
  split at hok
  · cases hok
    exact h
  · obtain ⟨text, -, hok⟩ := bind_eq_ok.1 hok
    cases hok
    exact h.pushLine (isMark_classUse (isBlank_indent text) _)

/-- The copy of a subgraph is written below the block, and lines that are no marks follow at the
end. -/
theorem duplicateSubgraph_eq_ok {id : Text} {ids : IdAllocator} {e : Edited}
    (h : IsDeclared .flowchart front line body s) (hok : (duplicateSubgraph id s ids).1 = .ok e) :
    ∃ g before after tail, (View.ofSource s).subgraph? id = some g ∧ body = before ++ after ∧
      front.length + 1 + before.length = g.span.stop + 1 ∧
      (∀ text ∈ tail, (Statement.ofLine text).isMark = false) ∧
      IsDeclared .flowchart front line (before ++ copiedBlock g ids s ++ after ++ tail)
        e.source := by
  rw [duplicateSubgraph] at hok
  simp only [] at hok
  split at hok
  · cases hok
  · next g hg =>
    have hg := requireSubgraph_eq_ok hg
    have hstop := View.lt_stop_of_mem_subgraphs h (List.mem_of_find?_eq_some hg)
    obtain ⟨s₁, hinsert, hok⟩ := bind_eq_ok.1 hok
    obtain ⟨s₂, hstyles, hok⟩ := bind_eq_ok.1 hok
    obtain ⟨s₃, hclasses, hok⟩ := bind_eq_ok.1 hok
    cases hok
    obtain ⟨before, after, hbody, hbefore, hdecl⟩ :=
      insertLines_body h (Nat.lt_succ_of_lt hstop) hinsert
    have hstyled : GoesOn s₁ s₂ :=
      foldlM_invariant (fun _ _ _ _ hgoes hstep => hgoes.copyStyle hstep) (.refl s₁) hstyles
    have hgoes : GoesOn s₁ s₃ :=
      foldlM_invariant (fun _ _ _ _ hgoes hstep => hgoes.copyClass hstep) hstyled hclasses
    obtain ⟨tail, htail, hlines⟩ := hgoes
    refine ⟨g, before, after, tail, hg, hbody, by omega, htail, hdecl.with_body ?_⟩
    rw [hlines, hdecl.lines, List.append_assoc]
    rfl

end DiagramEditor.Edit.Flowchart
