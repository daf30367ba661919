import DiagramEditor.Proofs.Flowchart.Block

/-!
# The lines of a subgraph

In a balanced source in which both notions of a header agree, every subgraph is closed by a line of its
own, and the lines in between close what they open (`View.exists_extent`). Lines in front of
the declaration may open blocks as well; the reader does not see them, and has fewer blocks open than
the source (`Source.openersAfter_prefix`). But what it closes is a block of the source
(`View.span_mem_blocks`).
-/

namespace DiagramEditor

namespace Source

variable {rules : BlockRules} {index : Nat} {openers more : List Nat} {lines : List Text}

theorem BlockStep.openersBehind_prefix (step : BlockStep) (h : openers <+: more) :
    step.openersBehind index openers <+: step.openersBehind index more := by
  cases step with
  | enter => exact (List.prefix_cons_inj index).2 h
  | leave =>
    obtain ⟨rest, rfl⟩ := h
    cases openers with
    | nil => exact List.nil_prefix
    | cons start outer => exact List.prefix_append outer rest
  | stay => exact h

/-- Where fewer blocks are open in front of some lines, fewer are open behind them. -/
theorem openersAfter_prefix (h : openers <+: more) :
    openersAfter rules index openers lines <+: openersAfter rules index more lines := by
  induction lines generalizing index openers more with
  | nil => exact h
  | cons line lines ih => exact ih (BlockStep.openersBehind_prefix _ h)

/-- What is closed where fewer blocks are open is closed where more are. -/
theorem closedBlocks_subset (h : openers <+: more) :
    closedBlocks rules index openers lines ⊆ closedBlocks rules index more lines := by
  induction lines generalizing index openers more with
  | nil => exact List.nil_subset _
  | cons line lines ih =>
    intro b hb
    rw [closedBlocks_cons] at hb ⊢
    rcases List.mem_append.1 hb with hb | hb
    · obtain ⟨hstep, start, outer, rfl, rfl⟩ := BlockStep.mem_closed.1 hb
      obtain ⟨rest, rfl⟩ := h
      exact List.mem_append_left _ (BlockStep.mem_closed.2 ⟨hstep, start, outer ++ rest, rfl, rfl⟩)
    · exact List.mem_append_right _ (ih (BlockStep.openersBehind_prefix _ h) hb)

end Source

namespace Flowchart

open Source Text

variable {s : Source} {front body lines : List Text} {line : Text} {index start stop : Nat}
  {openers inner outer : List Nat} {sts : List Statement} {g : SubgraphRecord}

/-- With `d` blocks open, the statements close all of them, the outermost with the last one. -/
inductive ClosesFrom : (d : Nat) → List Statement → Prop where
  | enter {d : Nat} {st : Statement} {sts : List Statement} (hst : st.blockStep = .enter)
      (h : ClosesFrom (d + 2) sts) : ClosesFrom (d + 1) (st :: sts)
  | stay {d : Nat} {st : Statement} {sts : List Statement} (hst : st.blockStep = .stay)
      (h : ClosesFrom (d + 1) sts) : ClosesFrom (d + 1) (st :: sts)
  | leave {d : Nat} {st : Statement} {sts : List Statement} (hst : st.blockStep = .leave)
      (h : ClosesFrom (d + 1) sts) : ClosesFrom (d + 2) (st :: sts)
  | last {st : Statement} (hst : st.blockStep = .leave) : ClosesFrom 1 [st]

theorem ClosesFrom.ne_nil {d : Nat} (h : ClosesFrom d sts) : d ≠ 0 ∧ sts ≠ [] := by
  cases h <;> simp

/-- A block that is open is closed with the blocks inside of it. -/
theorem exists_closesFrom
    (h : ⟨start, stop⟩ ∈ closedBlocks blockRules index (inner ++ start :: outer) lines)
    (ho : (index :: (inner ++ start :: outer)).Pairwise (· > ·))
    (hlines : ∀ text ∈ lines, SubgraphHeader.IsUniform text) :
    ∃ block rest, lines = block ++ rest ∧ index + block.length = stop + 1 ∧
      ClosesFrom (inner.length + 1) (block.map Statement.ofLine) := by
  induction lines generalizing index inner with
  | nil => cases h
  | cons text lines ih =>
    obtain ⟨htext, hlines⟩ := List.forall_mem_cons.1 hlines
    have hnext := BlockStep.pairwise_openersBehind ho (Source.blockStep blockRules text)
    have hread := htext.blockStep_ofLine
    rw [closedBlocks_cons] at h
    -- The lines behind close the block, and this line comes in front of them.
    have hcons : ∀ (inner' : List Nat) {d : Nat},
        ⟨start, stop⟩ ∈ closedBlocks blockRules (index + 1) (inner' ++ start :: outer) lines →
        ((index + 1) :: (inner' ++ start :: outer)).Pairwise (· > ·) →
        (∀ {block : List Text}, ClosesFrom (inner'.length + 1) (block.map Statement.ofLine) →
          ClosesFrom d (Statement.ofLine text :: block.map Statement.ofLine)) →
        ∃ block rest, text :: lines = block ++ rest ∧ index + block.length = stop + 1 ∧
          ClosesFrom d (block.map Statement.ofLine) := by
      intro inner' d hmem hpair hstep
      obtain ⟨block, rest, rfl, hlength, hcloses⟩ := ih hmem hpair hlines
      exact ⟨text :: block, rest, rfl, by rw [List.length_cons]; omega, hstep hcloses⟩
    cases hblock : Source.blockStep blockRules text with
    | enter =>
      rw [hblock] at h hnext hread
      exact hcons (index :: inner) h hnext (.enter hread)
    | stay =>
      rw [hblock] at h hnext hread
      exact hcons inner h hnext (.stay hread)
    | leave =>
      rw [hblock] at h hnext hread
      cases inner with
      | nil =>
        rcases List.mem_append.1 h with h | h
        · obtain ⟨-, _, _, heq, hspan⟩ := BlockStep.mem_closed.1 h
          obtain ⟨rfl, rfl⟩ := List.cons.inj heq
          obtain rfl : stop = index := congrArg BlockSpan.stop hspan
          exact ⟨[text], lines, rfl, rfl, .last hread⟩
        · -- The blocks around begin further up.
          obtain ⟨-, -, hstart⟩ := bounds_of_mem_closedBlocks h
          have hlt : start < index := List.rel_of_pairwise_cons ho List.mem_cons_self
          rcases hstart with hstart | hstart
          · exact absurd (List.rel_of_pairwise_cons ho.of_cons hstart) (Nat.lt_irrefl start)
          · dsimp at hstart
            omega
      | cons i inner =>
        rcases List.mem_append.1 h with h | h
        · obtain ⟨-, _, _, heq, hspan⟩ := BlockStep.mem_closed.1 h
          obtain ⟨rfl, -⟩ := List.cons.inj heq
          obtain rfl : start = i := congrArg BlockSpan.start hspan
          have hlt := List.rel_of_pairwise_cons ho.of_cons
            (List.mem_append_right inner List.mem_cons_self)
          exact absurd hlt (Nat.lt_irrefl start)
        · exact hcons inner h hnext (.leave hread)

/-- The lines of a block that is opened and closed on some lines. -/
theorem exists_block (h : ⟨start, stop⟩ ∈ closedBlocks blockRules index openers lines)
    (hstart : index ≤ start) (ho : (index :: openers).Pairwise (· > ·))
    (hlines : ∀ text ∈ lines, SubgraphHeader.IsUniform text) :
    ∃ before opener block rest, lines = before ++ opener :: (block ++ rest) ∧
      start = index + before.length ∧ start + block.length = stop ∧
      (SubgraphHeader.ofLine? opener).isSome = true ∧ ClosesFrom 1 (block.map Statement.ofLine) := by
  induction lines generalizing index openers with
  | nil => cases h
  | cons text lines ih =>
    obtain ⟨htext, hlines⟩ := List.forall_mem_cons.1 hlines
    have hnext := BlockStep.pairwise_openersBehind ho (Source.blockStep blockRules text)
    have hnew : start ∉ openers := fun hmem =>
      Nat.not_lt.2 hstart (List.rel_of_pairwise_cons ho hmem)
    rw [closedBlocks_cons] at h
    have hrest := (List.mem_append.1 h).resolve_left fun hclosed => by
      obtain ⟨-, _, _, rfl, hspan⟩ := BlockStep.mem_closed.1 hclosed
      obtain rfl : start = _ := congrArg BlockSpan.start hspan
      exact hnew List.mem_cons_self
    rcases Nat.eq_or_lt_of_le hstart with rfl | hlt
    · have henter : Source.blockStep blockRules text = .enter := by
        have hopen := (bounds_of_mem_closedBlocks hrest).2.2.resolve_right (by dsimp; omega)
        cases hblock : Source.blockStep blockRules text with
        | enter => rfl
        | stay => rw [hblock] at hopen; exact absurd hopen hnew
        | leave => rw [hblock] at hopen; exact absurd (List.mem_of_mem_tail hopen) hnew
      rw [henter] at hrest hnext
      have hopened : ⟨index, stop⟩ ∈
          closedBlocks blockRules (index + 1) ([] ++ index :: openers) lines := hrest
      obtain ⟨block, rest, rfl, hlength, hcloses⟩ := exists_closesFrom hopened hnext hlines
      refine ⟨[], text, block, rest, rfl, rfl, by omega, ?_, hcloses⟩
      rw [← Statement.blockStep_eq_enter_iff, htext.blockStep_ofLine, henter]
    · obtain ⟨before, opener, block, rest, rfl, hbefore, hblock⟩ := ih hrest hlt hnext hlines
      exact ⟨text :: before, opener, block, rest, rfl, by rw [List.length_cons]; omega, hblock⟩

section Declared

variable (h : IsDeclared .flowchart front line body s) (hbalance : s.checkBalance blockRules = .ok ())
  (hlines : ∀ text ∈ s.lines, SubgraphHeader.IsUniform text)
include h hbalance hlines

/-- The reader of a balanced source has met its blocks below the declaration, and none is open at the
end. -/
theorem follows_statements : ((Reader.start s).readAll (statements s)).Follows
    (closedBlocks blockRules (front.length + 1) [] body) [] := by
  have hstart : (Reader.start s).Follows [] [] := ⟨.refl [], rfl⟩
  have hbody : ∀ text ∈ body, SubgraphHeader.IsUniform text := fun text htext =>
    hlines text (h.lines ▸ List.mem_append_right _ (List.mem_cons_of_mem _ htext))
  have hfollows := hstart.readAll (List.pairwise_singleton _ (front.length + 1)) hbody
  rw [← h.body_eq, ← statements] at hfollows
  rw [Source.checkBalance, h.lines, List.append_cons] at hbalance
  have hend := openersAfter_eq_nil hbalance
  rw [openersAfter_append] at hend
  have hnone : openersAfter blockRules (front.length + 1) [] body = [] := by
    have hprefix : openersAfter blockRules (front.length + 1) [] body <+:
        openersAfter blockRules (front.length + 1)
          (openersAfter blockRules 0 [] (front ++ [line])) body :=
      openersAfter_prefix List.nil_prefix
    rw [List.length_append, List.length_singleton, Nat.zero_add] at hend
    rw [hend] at hprefix
    exact List.prefix_nil.1 hprefix
  rw [hnone, List.nil_append] at hfollows
  exact hfollows

/-- The view of a balanced source is what the reader has met. -/
theorem ofSource_eq_dropSubgraphIds :
    View.ofSource s = ((Reader.start s).readAll (statements s)).view.dropSubgraphIds := by
  have hopen : ((Reader.start s).readAll (statements s)).openBlocks = [] :=
    List.map_eq_nil_iff.1 (follows_statements h hbalance hlines).openBlocks
  rw [View.ofSource_eq, Reader.finish, hopen, List.foldl_nil]

/-- A subgraph is opened and closed in the body. -/
theorem View.span_mem_closedBlocks (hg : g ∈ (View.ofSource s).subgraphs) :
    g.span ∈ closedBlocks blockRules (front.length + 1) [] body := by
  have hspans := (follows_statements h hbalance hlines).spans
  rw [List.map_nil, List.append_nil] at hspans
  have hspan : g.span ∈ (View.ofSource s).spans := List.mem_map_of_mem hg
  rw [ofSource_eq_dropSubgraphIds h hbalance hlines, View.spans_dropSubgraphIds] at hspan
  exact hspans.mem_iff.1 hspan

/-- The lines of a subgraph are a block of the source. -/
theorem View.span_mem_blocks (hg : g ∈ (View.ofSource s).subgraphs) :
    g.span ∈ s.blocks blockRules := by
  rw [(blocks_perm blockRules s).mem_iff, h.lines, List.append_cons, closedBlocks_append,
    List.length_append, List.length_singleton, Nat.zero_add]
  exact List.mem_append_right _
    (closedBlocks_subset List.nil_prefix (View.span_mem_closedBlocks h hbalance hlines hg))

/-- What stands on the lines of a subgraph. -/
theorem View.exists_extent (hg : g ∈ (View.ofSource s).subgraphs) :
    ∃ before opener block after, body = before ++ opener :: (block ++ after) ∧
      g.span.start = front.length + 1 + before.length ∧
      g.span.start + block.length = g.span.stop ∧
      (SubgraphHeader.ofLine? opener).isSome = true ∧
      ClosesFrom 1 (block.map Statement.ofLine) := by
  have hbody : ∀ text ∈ body, SubgraphHeader.IsUniform text := fun text htext =>
    hlines text (h.lines ▸ List.mem_append_right _ (List.mem_cons_of_mem _ htext))
  exact exists_block (View.span_mem_closedBlocks h hbalance hlines hg)
    (subgraphsBehind_ofSource h g hg).1 (List.pairwise_singleton ..) hbody

end Declared

end Flowchart

end DiagramEditor
