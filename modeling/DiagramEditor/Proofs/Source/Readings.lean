import DiagramEditor.Proofs.Source.Nesting

/-!
# Three readings of the same blocks

`blockAt?` counts the depth from one opener on, `blocks` keeps the open lines on a stack, and
`checkBalance` looks only for what has no partner. They say the same about every source, balanced or
not (`readings_agree`): the depth counter comes down to zero where the stack gives up the opener
(`linesToClose?_eq_some_iff`), and the check succeeds exactly where the stack is empty at the end and
never empty in front of a closer (`checkBalanceFrom_eq_ok_iff_openersAfter`).
-/

namespace DiagramEditor

namespace BlockSpan

/-- The lines of `b` belong to `c` as well. -/
def IsWithin (b c : BlockSpan) : Prop :=
  c.start ≤ b.start ∧ b.stop ≤ c.stop

/-- One of the two ends in front of the other. -/
def IsApart (b c : BlockSpan) : Prop :=
  b.stop < c.start ∨ c.stop < b.start

/-- One of the two lies inside of the other, or they are apart. -/
def IsNested (b c : BlockSpan) : Prop :=
  b.IsWithin c ∨ c.IsWithin b ∨ b.IsApart c

end BlockSpan

namespace Source

open BlockStep

variable {rules : BlockRules} {index start n i : Nat} {openers inner outer : List Nat} {line : Text}
  {lines : List Text} {b c : BlockSpan} {s : Source}

/-! ## Counter and stack -/

/-- With the lines of `inner` open inside of the block that begins on the line `start`, the counter
comes down to zero on the line that takes `start` from the stack. -/
theorem linesToClose?_eq_some_iff (ho : (index :: (inner ++ start :: outer)).Pairwise (· > ·)) :
    linesToClose? rules (inner.length + 1) lines = some n ↔
      ⟨start, index + n⟩ ∈ closedBlocks rules index (inner ++ start :: outer) lines := by
  induction lines generalizing index inner n with
  | nil => simp [linesToClose?, closedBlocks]
  | cons line lines ih =>
    have hnext := pairwise_openersBehind ho (blockStep rules line)
    -- Behind the line, the counter has one line less to go.
    have hrest : ∀ inner' : List Nat,
        ((index + 1) :: (inner' ++ start :: outer)).Pairwise (· > ·) →
        ((linesToClose? rules (inner'.length + 1) lines).map (· + 1) = some n ↔
          ⟨start, index + n⟩ ∈ closedBlocks rules (index + 1) (inner' ++ start :: outer) lines) := by
      intro inner' ho'
      rw [Option.map_eq_some_iff]
      constructor
      · rintro ⟨m, hm, rfl⟩
        rw [← Nat.add_assoc, Nat.add_right_comm]
        exact (ih ho').1 hm
      · intro hmem
        obtain ⟨m, rfl⟩ : ∃ m, n = m + 1 := by
          have := (bounds_of_mem_closedBlocks hmem).1
          exact ⟨n - 1, by dsimp only at this; omega⟩
        rw [← Nat.add_assoc, Nat.add_right_comm] at hmem
        exact ⟨m, (ih ho').2 hmem, rfl⟩
    rw [closedBlocks_cons]
    cases hstep : blockStep rules line with
    | enter =>
      rw [hstep] at hnext
      simp only [linesToClose?, hstep, closed, List.nil_append]
      exact hrest (index :: inner) hnext
    | stay =>
      rw [hstep] at hnext
      simp only [linesToClose?, hstep, closed, List.nil_append]
      exact hrest _ hnext
    | leave =>
      rw [hstep] at hnext
      cases inner with
      | nil =>
        -- The blocks that are still open begin further up, so none of them is this one.
        have hgone : ⟨start, index + n⟩ ∉ closedBlocks rules (index + 1) outer lines := by
          intro hmem
          have hlt : start < index := List.rel_of_pairwise_cons ho List.mem_cons_self
          rcases (bounds_of_mem_closedBlocks hmem).2.2 with hstart | hstart
          · exact absurd (List.rel_of_pairwise_cons ho.of_cons hstart) (Nat.lt_irrefl start)
          · dsimp only at hstart
            omega
        simp [linesToClose?, hstep, closed, openersBehind, hgone, eq_comm]
      | cons first inner =>
        have hne : first ≠ start := Nat.ne_of_gt <| List.rel_of_pairwise_cons ho.of_cons <|
          List.mem_append_right inner List.mem_cons_self
        have hclosed : ⟨start, index + n⟩ ∉ closed index (first :: (inner ++ start :: outer)) .leave := by
          simp [closed, Ne.symm hne]
        simp only [linesToClose?, hstep, List.length_cons, Nat.add_sub_cancel, Nat.succ_ne_zero,
          if_false, List.cons_append, List.mem_append, hclosed, false_or]
        exact hrest _ hnext

/-- What is closed behind an opener and begins there is closed with the opener on the stack. -/
theorem mem_closedBlocks_of_enter (hline : s.lines[i]? = some line)
    (hstep : blockStep rules line = .enter) {stop : Nat} :
    ⟨i, stop⟩ ∈ closedBlocks rules 0 [] s.lines ↔
      ⟨i, stop⟩ ∈ closedBlocks rules (i + 1) (i :: openersAt rules s i) (s.lines.drop (i + 1)) := by
  obtain ⟨hlt, rfl⟩ := List.getElem?_eq_some_iff.1 hline
  have hlength := List.length_take_of_le (Nat.le_of_lt hlt)
  conv_lhs => rw [← List.take_append_drop i s.lines, List.drop_eq_getElem_cons hlt]
  rw [closedBlocks_append, closedBlocks_cons, hstep, hlength, Nat.zero_add, List.mem_append]
  refine or_iff_right fun hbefore => ?_
  have hstop := (bounds_of_mem_closedBlocks hbefore).2.1
  have hlt := start_lt_stop_of_mem_closedBlocks (List.pairwise_singleton ..) hbefore
  dsimp only at hstop hlt
  omega

/-- Following one block by its depth finds it among all blocks, and finds nothing else. -/
theorem blockAt?_eq_some_iff : s.blockAt? rules i = some b ↔ b ∈ s.blocks rules ∧ b.start = i := by
  rw [(blocks_perm rules s).mem_iff]
  by_cases hopener : ∃ line, s.lines[i]? = some line ∧ blockStep rules line = .enter
  · obtain ⟨line, hline, hstep⟩ := hopener
    obtain ⟨hlt, hget⟩ := List.getElem?_eq_some_iff.1 hline
    have ho : ((i + 1) :: ([] ++ i :: openersAt rules s i)).Pairwise (· > ·) :=
      pairwise_openersBehind (pairwise_openersAt rules (Nat.le_of_lt hlt)) .enter
    have hfollow : s.blockAt? rules i =
        (linesToClose? rules 1 (s.lines.drop (i + 1))).map fun n => ⟨i, i + 1 + n⟩ := by
      rw [blockAt?, line?, hline, List.drop_eq_getElem_cons hlt, hget, linesToClose?, hstep]
      cases linesToClose? rules 1 (s.lines.drop (i + 1)) <;>
        simp [blockStep_eq_enter_iff.1 hstep, Nat.add_comm 1, Nat.add_assoc]
    rw [hfollow, Option.map_eq_some_iff]
    constructor
    · rintro ⟨n, hn, rfl⟩
      exact ⟨(mem_closedBlocks_of_enter hline hstep).2 ((linesToClose?_eq_some_iff ho).1 hn), rfl⟩
    · rintro ⟨hb, rfl⟩
      have hbehind := (mem_closedBlocks_of_enter hline hstep).1 hb
      obtain ⟨n, hn⟩ := Nat.exists_eq_add_of_le (bounds_of_mem_closedBlocks hbehind).1
      rw [hn] at hbehind
      exact ⟨n, (linesToClose?_eq_some_iff ho).2 hbehind, by rw [← hn]⟩
  · constructor
    · intro h
      rw [blockAt?] at h
      simp only [Option.bind_eq_bind, Option.bind_eq_some_iff, Option.guard_eq_some'] at h
      obtain ⟨line, hline, -, hopens, -⟩ := h
      exact absurd ⟨line, hline, blockStep_eq_enter_iff.2 hopens⟩ hopener
    · rintro ⟨hb, rfl⟩
      rcases start_of_mem_closedBlocks hb with hmem | ⟨k, line, hline, hstep, hstart⟩
      · cases hmem
      · rw [Nat.zero_add] at hstart
        exact absurd ⟨line, hstart ▸ hline, hstep⟩ hopener

/-! ## Stack and check -/

/-- Of two blocks, the one that begins further down lies inside of the other or behind it. -/
theorem stop_lt_of_start_lt (hb : b ∈ s.blocks rules) (hc : c ∈ s.blocks rules)
    (h : b.start < c.start) : b.stop < c.start ∨ c.stop < b.stop := by
  rw [(blocks_perm rules s).mem_iff] at hb hc
  have hclose := pairwise_closedBlocks_source rules s
  refine List.Pairwise.forall_of_forall_of_flip
    (R := fun b c => b.start < c.start → b.stop < c.start ∨ c.stop < b.stop) ?_ ?_ ?_ hb hc h
  · exact fun b _ hlt => absurd hlt (Nat.lt_irrefl _)
  · exact hclose.imp fun hclose hlt => hclose.start.resolve_left (Nat.lt_asymm hlt) |> .inl
  · exact hclose.imp fun hclose _ => .inr hclose.stop

theorem pairwise_isNested_blocks (rules : BlockRules) (s : Source) :
    (s.blocks rules).Pairwise BlockSpan.IsNested := by
  refine (pairwise_blocks rules s).imp_of_mem fun hb hc hlt => ?_
  rcases stop_lt_of_start_lt hb hc hlt with hapart | hstop
  · exact .inr (.inr (.inl hapart))
  · exact .inr (.inl ⟨Nat.le_of_lt hlt, Nat.le_of_lt hstop⟩)

theorem pairwise_stop_ne_blocks (rules : BlockRules) (s : Source) :
    (s.blocks rules).Pairwise fun b c => b.stop ≠ c.stop :=
  ((pairwise_closedBlocks_source rules s).imp fun h => Nat.ne_of_lt h.stop).perm
    (blocks_perm rules s).symm Ne.symm

/-- The check succeeds exactly where a block is open in front of each closer and none at the end. -/
theorem checkBalanceFrom_eq_ok_iff_openersAfter :
    checkBalanceFrom rules index openers lines = .ok () ↔ openersAfter rules index openers lines = [] ∧
      ∀ k line, lines[k]? = some line → blockStep rules line = .leave →
        openersAfter rules index openers (lines.take k) ≠ [] := by
  induction lines generalizing index openers with
  | nil => cases openers <;> simp [checkBalanceFrom, openersAfter]
  | cons line lines ih =>
    -- What holds of the line itself, and of the lines behind it.
    have hlines : (∀ k text, (line :: lines)[k]? = some text → blockStep rules text = .leave →
          openersAfter rules index openers ((line :: lines).take k) ≠ []) ↔
        (blockStep rules line = .leave → openers ≠ []) ∧
          ∀ k text, lines[k]? = some text → blockStep rules text = .leave →
            openersAfter rules (index + 1) ((blockStep rules line).openersBehind index openers)
              (lines.take k) ≠ [] := by
      constructor
      · exact fun h => ⟨h 0 line rfl, fun k text hk => h (k + 1) text hk⟩
      · rintro ⟨hfirst, hrest⟩ (_ | k) text hk
        · obtain rfl := Option.some.inj hk
          exact hfirst
        · exact hrest k text hk
    rw [openersAfter, hlines]
    cases hstep : blockStep rules line with
    | leave => cases openers <;> simp [checkBalanceFrom, hstep, ih, openersBehind]
    | _ => simp [checkBalanceFrom, hstep, ih, openersBehind]

/-- A closer ends a block exactly where one is open. -/
theorem exists_stop_eq_iff (hline : s.lines[i]? = some line) (hstep : blockStep rules line = .leave) :
    (∃ b ∈ s.blocks rules, b.stop = i) ↔ openersAt rules s i ≠ [] := by
  obtain ⟨hlt, rfl⟩ := List.getElem?_eq_some_iff.1 hline
  have hlength := List.length_take_of_le (Nat.le_of_lt hlt)
  have hblocks : closedBlocks rules 0 [] s.lines = closedBlocks rules 0 [] (s.lines.take i) ++
      (closed i (openersAt rules s i) .leave ++
        closedBlocks rules (i + 1) (openersAt rules s i).tail (s.lines.drop (i + 1))) := by
    conv_lhs => rw [← List.take_append_drop i s.lines, List.drop_eq_getElem_cons hlt]
    rw [closedBlocks_append, closedBlocks_cons, hstep, hlength, Nat.zero_add]
    rfl
  constructor
  · rintro ⟨b, hb, rfl⟩
    rw [(blocks_perm rules s).mem_iff, hblocks, List.mem_append, List.mem_append] at hb
    rcases hb with hb | hb | hb
    · have := (bounds_of_mem_closedBlocks hb).2.1
      omega
    · obtain ⟨-, start, outer, hopen, -⟩ := mem_closed.1 hb
      exact hopen ▸ List.cons_ne_nil start outer
    · have := (bounds_of_mem_closedBlocks hb).1
      omega
  · intro hne
    obtain ⟨start, outer, hopen⟩ := List.exists_cons_of_ne_nil hne
    refine ⟨⟨start, i⟩, (blocks_perm rules s).mem_iff.2 ?_, rfl⟩
    rw [hblocks]
    exact List.mem_append_right _ (List.mem_append_left _ (mem_closed.2 ⟨rfl, start, outer, hopen, rfl⟩))

/-- An opener begins a block unless that is still open at the end. -/
theorem exists_start_eq_iff (hline : s.lines[i]? = some line) (hstep : blockStep rules line = .enter) :
    (∃ b ∈ s.blocks rules, b.start = i) ↔ i ∉ openersAfter rules 0 [] s.lines := by
  obtain ⟨hlt, hget⟩ := List.getElem?_eq_some_iff.1 hline
  have hlength := List.length_take_of_le (Nat.le_of_lt hlt)
  have ho : ((i + 1) :: i :: openersAt rules s i).Pairwise (· > ·) :=
    pairwise_openersBehind (pairwise_openersAt rules (Nat.le_of_lt hlt)) .enter
  have hopen : openersAfter rules 0 [] s.lines =
      openersAfter rules (i + 1) (i :: openersAt rules s i) (s.lines.drop (i + 1)) := by
    conv_lhs => rw [← List.take_append_drop i s.lines, List.drop_eq_getElem_cons hlt]
    rw [openersAfter_append, hget, openersAfter, hstep, hlength, Nat.zero_add]
    rfl
  rw [hopen, ← exists_mem_closedBlocks_iff ho List.mem_cons_self]
  constructor
  · rintro ⟨⟨start, stop⟩, hb, rfl⟩
    rw [(blocks_perm rules s).mem_iff] at hb
    exact ⟨_, (mem_closedBlocks_of_enter hline hstep).1 hb, rfl⟩
  · rintro ⟨⟨start, stop⟩, hb, rfl⟩
    exact ⟨_, (blocks_perm rules s).mem_iff.2 ((mem_closedBlocks_of_enter hline hstep).2 hb), rfl⟩

theorem checkBalance_eq_ok_iff_blocks : s.checkBalance rules = .ok () ↔
    ∀ i line, s.lines[i]? = some line →
      (rules.opens (Text.trim line) = true → ∃ b ∈ s.blocks rules, b.start = i) ∧
      (rules.opens (Text.trim line) = false → rules.closes (Text.trim line) = true →
        ∃ b ∈ s.blocks rules, b.stop = i) := by
  rw [checkBalance, checkBalanceFrom_eq_ok_iff_openersAfter]
  constructor
  · rintro ⟨hend, hclosers⟩ i line hline
    refine ⟨fun hopens => ?_, fun hopens hcloses => ?_⟩
    · rw [exists_start_eq_iff hline (blockStep_eq_enter_iff.2 hopens), hend]
      exact List.not_mem_nil
    · have hstep := blockStep_eq_leave_iff.2 ⟨hopens, hcloses⟩
      exact (exists_stop_eq_iff hline hstep).2 (hclosers i line hline hstep)
  · intro h
    constructor
    · refine List.eq_nil_iff_forall_not_mem.2 fun i hi => ?_
      obtain ⟨k, line, hline, hstep, rfl⟩ := (mem_openersAfter hi).resolve_left List.not_mem_nil
      rw [Nat.zero_add] at hi
      have hblock := (h k line hline).1 (blockStep_eq_enter_iff.1 hstep)
      exact (exists_start_eq_iff hline hstep).1 hblock hi
    · intro i line hline hstep
      obtain ⟨hopens, hcloses⟩ := blockStep_eq_leave_iff.1 hstep
      exact (exists_stop_eq_iff hline hstep).1 ((h i line hline).2 hopens hcloses)

/-- The three readings agree on every source. Following an opener by its depth gives the block that
begins there. The blocks come in the order of their openers, no two end on the same line, and of two
one lies inside of the other or they are apart. And a source is balanced exactly if each line that
opens begins a block and each line that only closes ends one. -/
theorem readings_agree (rules : BlockRules) (s : Source) :
    (∀ i b, s.blockAt? rules i = some b ↔ b ∈ s.blocks rules ∧ b.start = i) ∧
      (s.blocks rules).Pairwise (fun b c => b.start < c.start) ∧
      (s.blocks rules).Pairwise (fun b c => b.stop ≠ c.stop) ∧
      (s.blocks rules).Pairwise BlockSpan.IsNested ∧
      (s.checkBalance rules = .ok () ↔ ∀ i line, s.lines[i]? = some line →
        (rules.opens (Text.trim line) = true → ∃ b ∈ s.blocks rules, b.start = i) ∧
        (rules.opens (Text.trim line) = false → rules.closes (Text.trim line) = true →
          ∃ b ∈ s.blocks rules, b.stop = i)) :=
  ⟨fun _ _ => blockAt?_eq_some_iff, pairwise_blocks rules s, pairwise_stop_ne_blocks rules s,
    pairwise_isNested_blocks rules s, checkBalance_eq_ok_iff_blocks⟩

end Source

end DiagramEditor
