import DiagramEditor.Proofs.Source.Block
import Mathlib.Data.List.Pairwise
import Mathlib.Data.List.Sort

/-!
# The blocks around a line

While the lines of a source are read, some blocks are closed and some stay open. A line opens one
block, closes the innermost one or does neither (`BlockStep.closed`, `BlockStep.openersBehind`), and
the blocks of the source are the ones closed in turn. Of two of them, one lies inside of the other or
they are apart (`pairwise_closedBlocks`).

In a balanced source the blocks around a line that neither opens nor closes are exactly those that
are open there (`contains_iff_mem_openersAt`).

A view keeps a table of its blocks while it is read. Where it opens and closes a block on the same
lines, the table goes along with the source (`BlockTable.Follows`).
-/

namespace DiagramEditor

namespace Source

variable {rules : BlockRules} {index : Nat} {openers : List Nat} {line : Text}
  {lines more : List Text} {b c : BlockSpan} {s : Source}

namespace BlockStep

variable {step : BlockStep}

/-- The block that the line with this number closes, where `openers` are the lines of the blocks
open in front of it, the innermost first. -/
def closed (index : Nat) (openers : List Nat) : BlockStep → List BlockSpan
  | leave => openers.head?.toList.map (⟨·, index⟩)
  | _ => []

/-- The lines of the blocks open behind the line with this number. -/
def openersBehind (index : Nat) (openers : List Nat) : BlockStep → List Nat
  | enter => index :: openers
  | leave => openers.tail
  | stay => openers

theorem mem_closed : b ∈ step.closed index openers ↔
    step = .leave ∧ ∃ start outer, openers = start :: outer ∧ b = ⟨start, index⟩ := by
  cases step with
  | leave => cases openers <;> simp [closed]
  | _ => simp [closed]

theorem mem_of_mem_openersBehind {i : Nat} (h : i ∈ step.openersBehind index openers) :
    i ∈ openers ∨ i = index := by
  cases step with
  | enter => exact (List.mem_cons.1 h).symm
  | leave => exact .inl (List.mem_of_mem_tail h)
  | stay => exact .inl h

/-- Blocks are opened further down than the ones around them. -/
theorem pairwise_openersBehind (h : (index :: openers).Pairwise (· > ·)) (step : BlockStep) :
    ((index + 1) :: step.openersBehind index openers).Pairwise (· > ·) := by
  refine .cons (fun i hi => ?_) ?_
  · rcases mem_of_mem_openersBehind hi with hi | rfl
    exacts [Nat.lt_succ_of_lt (List.rel_of_pairwise_cons h hi), Nat.lt_succ_self i]
  · cases step with
    | enter => exact h
    | leave => exact h.of_cons.sublist (List.tail_sublist _)
    | stay => exact h.of_cons

end BlockStep

open BlockStep

/-- The lines of the blocks open behind `lines`, the first of which has the number `index`, where
`openers` are those open in front of them. -/
def openersAfter (rules : BlockRules) : (index : Nat) → (openers : List Nat) → List Text → List Nat
  | _, openers, [] => openers
  | index, openers, line :: rest =>
    openersAfter rules (index + 1) ((blockStep rules line).openersBehind index openers) rest

/-! ## One line after the other -/

theorem closedBlocks_cons (rules : BlockRules) (index : Nat) (openers : List Nat) (line : Text)
    (lines : List Text) : closedBlocks rules index openers (line :: lines) =
      (blockStep rules line).closed index openers ++
        closedBlocks rules (index + 1) ((blockStep rules line).openersBehind index openers) lines := by
  cases hstep : blockStep rules line with
  | leave => cases openers <;> simp [closedBlocks, hstep, closed, openersBehind]
  | _ => simp [closedBlocks, hstep, closed, openersBehind]

theorem closedBlocks_append (rules : BlockRules) (index : Nat) (openers : List Nat)
    (lines more : List Text) : closedBlocks rules index openers (lines ++ more) =
      closedBlocks rules index openers lines ++
        closedBlocks rules (index + lines.length) (openersAfter rules index openers lines) more := by
  induction lines generalizing index openers with
  | nil => rfl
  | cons line lines ih =>
    rw [List.cons_append, closedBlocks_cons, closedBlocks_cons, ih, List.append_assoc, openersAfter,
      List.length_cons, Nat.add_comm lines.length, Nat.add_assoc]

theorem openersAfter_append (rules : BlockRules) (index : Nat) (openers : List Nat)
    (lines more : List Text) : openersAfter rules index openers (lines ++ more) =
      openersAfter rules (index + lines.length) (openersAfter rules index openers lines) more := by
  induction lines generalizing index openers with
  | nil => rfl
  | cons line lines ih =>
    rw [List.cons_append, openersAfter, ih, openersAfter, List.length_cons, Nat.add_comm lines.length,
      Nat.add_assoc]

/-- A balanced line closes only what is open, and the lines behind it are balanced. -/
theorem checkBalanceFrom_step
    (h : checkBalanceFrom rules index openers (line :: lines) = .ok ()) :
    checkBalanceFrom rules (index + 1) ((blockStep rules line).openersBehind index openers) lines =
      .ok () := by
  cases hstep : blockStep rules line with
  | leave =>
    cases openers with
    | nil => simp [checkBalanceFrom, hstep] at h
    | cons start outer => simpa [checkBalanceFrom, hstep, openersBehind] using h
  | _ => simpa [checkBalanceFrom, hstep, openersBehind] using h

theorem checkBalanceFrom_openersAfter
    (h : checkBalanceFrom rules index openers (lines ++ more) = .ok ()) :
    checkBalanceFrom rules (index + lines.length) (openersAfter rules index openers lines) more =
      .ok () := by
  induction lines generalizing index openers with
  | nil => exact h
  | cons line lines ih =>
    rw [openersAfter, List.length_cons, Nat.add_comm lines.length, ← Nat.add_assoc]
    exact ih (checkBalanceFrom_step h)

/-- Behind balanced lines no block is open. -/
theorem openersAfter_eq_nil (h : checkBalanceFrom rules index openers lines = .ok ()) :
    openersAfter rules index openers lines = [] := by
  rw [← List.append_nil lines] at h
  have hend := checkBalanceFrom_openersAfter h
  cases hopen : openersAfter rules index openers lines with
  | nil => rfl
  | cons start outer =>
    rw [hopen] at hend
    cases hend

theorem pairwise_openersAfter (h : (index :: openers).Pairwise (· > ·)) (lines : List Text) :
    ((index + lines.length) :: openersAfter rules index openers lines).Pairwise (· > ·) := by
  induction lines generalizing index openers with
  | nil => exact h
  | cons line lines ih =>
    rw [openersAfter, List.length_cons, Nat.add_comm lines.length, ← Nat.add_assoc]
    exact ih (pairwise_openersBehind h _)

/-- Lines that neither open nor close a block change nothing. -/
theorem nesting_of_stay (h : ∀ line ∈ lines, blockStep rules line = .stay) :
    closedBlocks rules index openers lines = [] ∧
      openersAfter rules index openers lines = openers := by
  induction lines generalizing index with
  | nil => exact ⟨rfl, rfl⟩
  | cons line lines ih =>
    obtain ⟨hline, hlines⟩ := List.forall_mem_cons.1 h
    rw [closedBlocks_cons, openersAfter, hline]
    exact ih hlines

/-! ## The closed blocks -/

/-- A block is closed on one of the lines, and it was open in front of them or is opened there. -/
theorem bounds_of_mem_closedBlocks (h : b ∈ closedBlocks rules index openers lines) :
    index ≤ b.stop ∧ b.stop < index + lines.length ∧ (b.start ∈ openers ∨ index ≤ b.start) := by
  induction lines generalizing index openers with
  | nil => cases h
  | cons line lines ih =>
    rw [closedBlocks_cons] at h
    rw [List.length_cons]
    rcases List.mem_append.1 h with h | h
    · obtain ⟨-, start, outer, rfl, rfl⟩ := mem_closed.1 h
      exact ⟨Nat.le_refl _, by dsimp; omega, .inl List.mem_cons_self⟩
    · obtain ⟨hle, hlt, hstart⟩ := ih h
      refine ⟨by omega, by omega, ?_⟩
      rcases hstart with hstart | hstart
      · exact (mem_of_mem_openersBehind hstart).imp id fun h => Nat.le_of_eq h.symm
      · exact .inr (by omega)

/-- The block `b` is closed in front of the block `c`: either `c` goes around `b`, or it begins
behind it. -/
structure ClosesBefore (b c : BlockSpan) : Prop where
  stop : b.stop < c.stop
  start : c.start < b.start ∨ b.stop < c.start

/-- Of two blocks, one lies inside of the other or they are apart. -/
theorem pairwise_closedBlocks (ho : (index :: openers).Pairwise (· > ·)) :
    (closedBlocks rules index openers lines).Pairwise ClosesBefore := by
  induction lines generalizing index openers with
  | nil => exact .nil
  | cons line lines ih =>
    rw [closedBlocks_cons]
    refine List.pairwise_append.2 ⟨?_, ih (pairwise_openersBehind ho _), ?_⟩
    · cases blockStep rules line with
      | leave => cases openers <;> simp [closed]
      | _ => exact .nil
    · intro b hb c hc
      obtain ⟨hstep, start, outer, rfl, rfl⟩ := mem_closed.1 hb
      rw [hstep] at hc
      -- The blocks open behind this line are those around `b`.
      obtain ⟨hle, -, hstart⟩ := bounds_of_mem_closedBlocks hc
      exact ⟨hle, hstart.imp (fun h => List.rel_of_pairwise_cons ho.of_cons h) id⟩

theorem start_lt_stop_of_mem_closedBlocks (ho : (index :: openers).Pairwise (· > ·))
    (h : b ∈ closedBlocks rules index openers lines) : b.start < b.stop := by
  induction lines generalizing index openers with
  | nil => cases h
  | cons line lines ih =>
    rw [closedBlocks_cons] at h
    rcases List.mem_append.1 h with h | h
    · obtain ⟨-, start, outer, rfl, rfl⟩ := mem_closed.1 h
      exact List.rel_of_pairwise_cons ho List.mem_cons_self
    · exact ih (pairwise_openersBehind ho _) h

/-- What is open behind the lines was open in front of them or is opened on one of them. -/
theorem mem_openersAfter {start : Nat} (h : start ∈ openersAfter rules index openers lines) :
    start ∈ openers ∨ ∃ k line, lines[k]? = some line ∧ blockStep rules line = .enter ∧
      start = index + k := by
  induction lines generalizing index openers with
  | nil => exact .inl h
  | cons line lines ih =>
    rcases ih h with hmem | ⟨k, line', hline', hstep, rfl⟩
    · cases hstep : blockStep rules line with
      | enter =>
        rw [hstep] at hmem
        rcases List.mem_cons.1 hmem with rfl | hmem
        exacts [.inr ⟨0, line, rfl, hstep, rfl⟩, .inl hmem]
      | leave =>
        rw [hstep] at hmem
        exact .inl (List.mem_of_mem_tail hmem)
      | stay =>
        rw [hstep] at hmem
        exact .inl hmem
    · exact .inr ⟨k + 1, line', hline', hstep, by omega⟩

/-- A block that is open in front of the lines is closed on one of them, or it is open behind them. -/
theorem exists_mem_closedBlocks_iff {start : Nat} (ho : (index :: openers).Pairwise (· > ·))
    (hstart : start ∈ openers) : (∃ b ∈ closedBlocks rules index openers lines, b.start = start) ↔
      start ∉ openersAfter rules index openers lines := by
  induction lines generalizing index openers with
  | nil => simpa [closedBlocks, openersAfter] using hstart
  | cons line lines ih =>
    rw [closedBlocks_cons, openersAfter]
    have hnext := pairwise_openersBehind ho (blockStep rules line)
    have hlt : start < index := List.rel_of_pairwise_cons ho hstart
    by_cases hopen : start ∈ (blockStep rules line).openersBehind index openers
    · -- It is not the block that this line closes.
      rw [← ih hnext hopen]
      refine exists_congr fun b => and_congr_left fun hb => ?_
      rw [List.mem_append]
      refine or_iff_right fun hclosed => ?_
      obtain ⟨hstep, first, outer, rfl, rfl⟩ := mem_closed.1 hclosed
      rw [hstep, ← hb] at hopen
      exact absurd (List.rel_of_pairwise_cons ho.of_cons hopen) (Nat.lt_irrefl _)
    · constructor
      · intro _ hafter
        rcases mem_openersAfter hafter with hmem | ⟨k, _, -, -, rfl⟩
        exacts [hopen hmem, by omega]
      · intro _
        refine ⟨⟨start, index⟩, List.mem_append_left _ (mem_closed.2 ?_), rfl⟩
        cases hstep : blockStep rules line with
        | enter => exact absurd (List.mem_cons_of_mem _ hstart) (by rwa [hstep] at hopen)
        | stay => exact absurd hstart (by rwa [hstep] at hopen)
        | leave =>
          obtain ⟨first, outer, rfl⟩ := List.exists_cons_of_ne_nil (List.ne_nil_of_mem hstart)
          rw [hstep, openersBehind, List.tail_cons] at hopen
          rw [(List.mem_cons.1 hstart).resolve_right hopen]
          exact ⟨rfl, first, outer, rfl, rfl⟩

/-- Balanced lines close every block that is open in front of them. -/
theorem exists_mem_closedBlocks {start : Nat} (ho : (index :: openers).Pairwise (· > ·))
    (h : checkBalanceFrom rules index openers lines = .ok ()) (hstart : start ∈ openers) :
    ∃ b ∈ closedBlocks rules index openers lines, b.start = start := by
  rw [exists_mem_closedBlocks_iff ho hstart, openersAfter_eq_nil h]
  exact List.not_mem_nil

/-! ## The blocks of a source -/

theorem blocks_perm (rules : BlockRules) (s : Source) :
    (s.blocks rules).Perm (closedBlocks rules 0 [] s.lines) :=
  List.mergeSort_perm _ _

theorem pairwise_closedBlocks_source (rules : BlockRules) (s : Source) :
    (closedBlocks rules 0 [] s.lines).Pairwise ClosesBefore :=
  pairwise_closedBlocks (List.pairwise_singleton ..)

theorem nodup_blocks (rules : BlockRules) (s : Source) : (s.blocks rules).Nodup := by
  refine (blocks_perm rules s).nodup_iff.2 ?_
  refine (pairwise_closedBlocks_source rules s).imp fun h heq => ?_
  exact absurd h.stop (by rw [heq]; exact Nat.lt_irrefl _)

theorem start_lt_stop_of_mem_blocks (hb : b ∈ s.blocks rules) : b.start < b.stop :=
  start_lt_stop_of_mem_closedBlocks (List.pairwise_singleton ..) ((blocks_perm rules s).mem_iff.1 hb)

/-- A line opens one block. -/
theorem pairwise_start_ne (rules : BlockRules) (s : Source) :
    (closedBlocks rules 0 [] s.lines).Pairwise fun b c => b.start ≠ c.start := by
  refine (pairwise_closedBlocks_source rules s).imp_of_mem fun {b c} hb _ h => ?_
  have := start_lt_stop_of_mem_closedBlocks (List.pairwise_singleton ..) hb
  rcases h.start with hstart | hstart <;> omega

/-- The blocks are listed in the order of their openers. -/
theorem pairwise_blocks (rules : BlockRules) (s : Source) :
    (s.blocks rules).Pairwise fun b c => b.start < c.start := by
  have hsort : (s.blocks rules).Pairwise fun b c => decide (b.start ≤ c.start) = true :=
    List.pairwise_mergeSort (fun a b c hab hbc => by simp only [decide_eq_true_eq] at *; omega)
      (fun a b => by simp only [Bool.or_eq_true, decide_eq_true_eq]; omega) _
  have hne : (s.blocks rules).Pairwise fun b c => b.start ≠ c.start :=
    (pairwise_start_ne rules s).perm (blocks_perm rules s).symm Ne.symm
  exact hsort.imp₂ (fun _ _ hle hne => Nat.lt_of_le_of_ne (of_decide_eq_true hle) hne) hne

theorem eq_of_start_eq (hb : b ∈ s.blocks rules) (hc : c ∈ s.blocks rules)
    (h : b.start = c.start) : b = c :=
  List.inj_on_of_nodup_map (List.pairwise_map.2 ((pairwise_blocks rules s).imp Nat.ne_of_lt)) hb hc h

/-- A list of the same blocks in the order of their openers is the list of blocks. -/
theorem eq_blocks {spans : List BlockSpan} (hperm : spans.Perm (closedBlocks rules 0 [] s.lines))
    (hsorted : spans.Pairwise fun b c => b.start < c.start) : spans = s.blocks rules := by
  have hperm := hperm.trans (blocks_perm rules s).symm
  refine hperm.eq_of_pairwise (fun b c _ _ hbc hcb => ?_) hsorted (pairwise_blocks rules s)
  exact absurd hcb (Nat.lt_asymm hbc)

/-- The lines of the blocks open in front of the line with this number, the innermost first. -/
def openersAt (rules : BlockRules) (s : Source) (index : Nat) : List Nat :=
  openersAfter rules 0 [] (s.lines.take index)

theorem pairwise_openersAt (rules : BlockRules) (h : index ≤ s.lines.length) :
    (index :: openersAt rules s index).Pairwise (· > ·) := by
  have hopen : ((0 + (s.lines.take index).length) :: openersAt rules s index).Pairwise (· > ·) :=
    pairwise_openersAfter (List.pairwise_singleton ..) _
  rwa [List.length_take_of_le h, Nat.zero_add] at hopen

/-- Of two blocks around a line, the one that begins further down lies inside of the other. -/
theorem stop_le_stop_of_contains (hb : b ∈ s.blocks rules) (hc : c ∈ s.blocks rules)
    (hbi : b.contains index = true) (hci : c.contains index = true) (h : c.start ≤ b.start) :
    b.stop ≤ c.stop := by
  rw [BlockSpan.contains, Bool.and_eq_true, decide_eq_true_eq, decide_eq_true_eq] at hbi hci
  rw [(blocks_perm rules s).mem_iff] at hb hc
  have hclose := pairwise_closedBlocks_source rules s
  refine List.Pairwise.forall_of_forall_of_flip
    (R := fun b c => b.start ≤ index ∧ index ≤ b.stop → c.start ≤ index ∧ index ≤ c.stop →
      c.start ≤ b.start → b.stop ≤ c.stop) ?_ ?_ ?_ hb hc hbi hci h
  · exact fun b _ _ _ _ => Nat.le_refl _
  · exact hclose.imp fun h _ _ _ => Nat.le_of_lt h.stop
  · refine hclose.imp fun hclose hc hb h => ?_
    rcases hclose.start with hstart | hstart <;> omega

/-- The blocks begin where a line opens one. -/
theorem start_of_mem_closedBlocks (h : b ∈ closedBlocks rules index openers lines) :
    b.start ∈ openers ∨ ∃ k line, lines[k]? = some line ∧ blockStep rules line = .enter ∧
      b.start = index + k := by
  induction lines generalizing index openers with
  | nil => cases h
  | cons line lines ih =>
    rw [closedBlocks_cons] at h
    rcases List.mem_append.1 h with h | h
    · obtain ⟨-, start, outer, rfl, rfl⟩ := mem_closed.1 h
      exact .inl List.mem_cons_self
    · rcases ih h with hstart | ⟨k, line', hline', hstep, hstart⟩
      · cases hstep : blockStep rules line with
        | enter =>
          rw [hstep] at hstart
          rcases List.mem_cons.1 hstart with heq | hstart
          exacts [.inr ⟨0, line, rfl, hstep, heq⟩, .inl hstart]
        | leave =>
          rw [hstep] at hstart
          exact .inl (List.mem_of_mem_tail hstart)
        | stay =>
          rw [hstep] at hstart
          exact .inl hstart
      · exact .inr ⟨k + 1, line', hline', hstep, by omega⟩

/-- In a balanced source, every line that opens a block begins one of the blocks. -/
theorem mem_starts_iff (hbalance : s.checkBalance rules = .ok ()) :
    index ∈ (s.blocks rules).map (·.start) ↔
      ∃ line, s.lines[index]? = some line ∧ blockStep rules line = .enter := by
  rw [List.mem_map]
  constructor
  · rintro ⟨b, hb, rfl⟩
    rw [(blocks_perm rules s).mem_iff] at hb
    rcases start_of_mem_closedBlocks hb with hstart | ⟨k, line, hline, hstep, hstart⟩
    · cases hstart
    · rw [hstart, Nat.zero_add]
      exact ⟨line, hline, hstep⟩
  · rintro ⟨line, hline, hstep⟩
    obtain ⟨hlt, rfl⟩ := List.getElem?_eq_some_iff.1 hline
    have hlength := List.length_take_of_le (Nat.le_of_lt hlt)
    rw [checkBalance, ← List.take_append_drop index s.lines, List.drop_eq_getElem_cons hlt] at hbalance
    have hrest := checkBalanceFrom_step (checkBalanceFrom_openersAfter hbalance)
    rw [hstep, hlength, Nat.zero_add] at hrest
    have hopen := pairwise_openersBehind (pairwise_openersAt rules (Nat.le_of_lt hlt)) .enter
    obtain ⟨b, hb, hstart⟩ := exists_mem_closedBlocks hopen hrest List.mem_cons_self
    refine ⟨b, (blocks_perm rules s).mem_iff.2 ?_, hstart⟩
    rw [← List.take_append_drop index s.lines, List.drop_eq_getElem_cons hlt, closedBlocks_append,
      closedBlocks_cons, hstep, hlength, Nat.zero_add]
    exact List.mem_append_right _ (List.mem_append_right _ hb)

section Prelude

variable {n : Nat} (hn : n ≤ s.lines.length)
  (hprelude : ∀ line ∈ s.lines.take n, blockStep rules line = .stay)
include hn hprelude

/-- Lines in front that neither open nor close a block have no say in what the blocks are. -/
theorem closedBlocks_drop :
    closedBlocks rules 0 [] s.lines = closedBlocks rules n [] (s.lines.drop n) := by
  conv_lhs => rw [← List.take_append_drop n s.lines]
  rw [closedBlocks_append, (nesting_of_stay hprelude).1, (nesting_of_stay hprelude).2,
    List.length_take_of_le hn, Nat.zero_add]
  rfl

theorem openersAt_add (k : Nat) : openersAt rules s (n + k) =
    openersAfter rules n [] ((s.lines.drop n).take k) := by
  rw [openersAt, List.take_add, openersAfter_append, (nesting_of_stay hprelude).2,
    List.length_take_of_le hn, Nat.zero_add]

theorem openersAfter_drop (hbalance : s.checkBalance rules = .ok ()) :
    openersAfter rules n [] (s.lines.drop n) = [] := by
  have hall := openersAt_add hn hprelude (s.lines.drop n).length
  rw [List.take_length, List.length_drop, Nat.add_sub_cancel' hn, openersAt, List.take_length] at hall
  exact hall.symm.trans (openersAfter_eq_nil hbalance)

end Prelude

section Around

variable (hline : s.lines[index]? = some line) (hstay : blockStep rules line = .stay)
include hline hstay

/-- Around a line that neither opens nor closes, the blocks are closed in front of it or behind it. -/
theorem closedBlocks_split : closedBlocks rules 0 [] s.lines =
    closedBlocks rules 0 [] (s.lines.take index) ++
      closedBlocks rules (index + 1) (openersAt rules s index) (s.lines.drop (index + 1)) := by
  obtain ⟨hlt, rfl⟩ := List.getElem?_eq_some_iff.1 hline
  conv_lhs => rw [← List.take_append_drop index s.lines, List.drop_eq_getElem_cons hlt]
  rw [closedBlocks_append, closedBlocks_cons, hstay, List.length_take_of_le (Nat.le_of_lt hlt),
    Nat.zero_add]
  rfl

theorem checkBalanceFrom_split (hbalance : s.checkBalance rules = .ok ()) :
    checkBalanceFrom rules (index + 1) (openersAt rules s index) (s.lines.drop (index + 1)) =
      .ok () := by
  obtain ⟨hlt, rfl⟩ := List.getElem?_eq_some_iff.1 hline
  rw [checkBalance, ← List.take_append_drop index s.lines, List.drop_eq_getElem_cons hlt] at hbalance
  have := checkBalanceFrom_step (checkBalanceFrom_openersAfter hbalance)
  rwa [hstay, List.length_take_of_le (Nat.le_of_lt hlt), Nat.zero_add] at this

/-- The blocks around the line are open there. -/
theorem mem_openersAt_of_contains (hb : b ∈ s.blocks rules) (h : b.contains index = true) :
    b.start ∈ openersAt rules s index := by
  rw [BlockSpan.contains, Bool.and_eq_true, decide_eq_true_eq, decide_eq_true_eq] at h
  rw [(blocks_perm rules s).mem_iff, closedBlocks_split hline hstay] at hb
  rcases List.mem_append.1 hb with hb | hb
  · have := (bounds_of_mem_closedBlocks hb).2.1
    rw [List.length_take] at this
    omega
  · exact (bounds_of_mem_closedBlocks hb).2.2.resolve_right (by omega)

/-- The blocks open at the line begin in front of it and, in a balanced source, end behind it. -/
theorem lt_of_mem_openersAt (hbalance : s.checkBalance rules = .ok ()) (hb : b ∈ s.blocks rules)
    (h : b.start ∈ openersAt rules s index) : b.start < index ∧ index < b.stop := by
  have hopen := pairwise_openersAt rules (Nat.le_of_lt (List.getElem?_eq_some_iff.1 hline).1)
  refine ⟨List.rel_of_pairwise_cons hopen h, ?_⟩
  have hpair := pairwise_closedBlocks_source rules s
  rw [closedBlocks_split hline hstay] at hpair
  rw [(blocks_perm rules s).mem_iff, closedBlocks_split hline hstay] at hb
  rcases List.mem_append.1 hb with hb | hb
  · -- A block that is closed in front of the line is not open there.
    obtain ⟨c, hc, hcb⟩ := exists_mem_closedBlocks (pairwise_openersBehind hopen .stay)
      (checkBalanceFrom_split hline hstay hbalance) h
    have hclose := (List.pairwise_append.1 hpair).2.2 b hb c hc
    have := start_lt_stop_of_mem_closedBlocks (List.pairwise_singleton ..) hb
    rcases hclose.start with h | h <;> omega
  · exact (bounds_of_mem_closedBlocks hb).1

/-- In a balanced source the blocks around a line that neither opens nor closes are those that are
open there. -/
theorem contains_iff_mem_openersAt (hbalance : s.checkBalance rules = .ok ())
    (hb : b ∈ s.blocks rules) : b.contains index = true ↔ b.start ∈ openersAt rules s index := by
  refine ⟨mem_openersAt_of_contains hline hstay hb, fun h => ?_⟩
  have := lt_of_mem_openersAt hline hstay hbalance hb h
  rw [BlockSpan.contains, Bool.and_eq_true, decide_eq_true_eq, decide_eq_true_eq]
  omega

end Around

end Source

/-! ## Tables of blocks -/

/-- The blocks that a reader has met, each under a name, and the names of those still open, the
innermost first. A block that is open has the span of its first line. -/
structure BlockTable (β : Type) where
  spans : List BlockSpan
  span? : β → Option BlockSpan
  openBlocks : List β

namespace BlockTable

variable {β : Type} {t u : BlockTable β} {closed : List BlockSpan} {openers : List Nat} {line : Nat}
  {b : β}

/-- The table holds the blocks `closed`, and the blocks that begin on the lines `openers` are open,
the innermost first. -/
structure Follows (t : BlockTable β) (closed : List BlockSpan) (openers : List Nat) : Prop where
  spans : t.spans.Perm (closed ++ openers.map .single)
  openBlocks : t.openBlocks.map t.span? = openers.map fun start => some (.single start)

namespace Follows

theorem span?_of_mem (h : t.Follows closed openers) (hb : b ∈ t.openBlocks) :
    ∃ start ∈ openers, t.span? b = some (.single start) := by
  have hmem := List.mem_map_of_mem (f := t.span?) hb
  rw [h.openBlocks] at hmem
  obtain ⟨start, hstart, heq⟩ := List.mem_map.1 hmem
  exact ⟨start, hstart, heq.symm⟩

theorem eq_nil (h : t.Follows closed openers) (hopen : t.openBlocks = []) : openers = [] := by
  have hblocks := h.openBlocks
  rw [hopen] at hblocks
  exact List.map_eq_nil_iff.1 hblocks.symm

/-- A block that is opened comes to the others. -/
theorem enter (h : t.Follows closed openers) (hspans : u.spans.Perm (t.spans ++ [.single line]))
    (hopen : u.openBlocks = b :: t.openBlocks) (hb : u.span? b = some (.single line))
    (hsame : ∀ c span, t.span? c = some span → u.span? c = some span) :
    u.Follows closed (line :: openers) where
  spans := by
    refine hspans.trans ((h.spans.append_right _).trans ?_)
    rw [List.append_assoc]
    exact List.perm_append_comm.append_left _
  openBlocks := by
    rw [hopen, List.map_cons, List.map_cons, hb, ← h.openBlocks]
    congr 1
    refine List.map_congr_left fun c hc => ?_
    obtain ⟨start, -, hspan⟩ := h.span?_of_mem hc
    rw [hspan, hsame c _ hspan]

/-- The innermost block is closed. -/
theorem leave (h : t.Follows closed openers) (ho : openers.Pairwise (· > ·))
    (hopen : t.openBlocks = b :: u.openBlocks)
    (hspans : ∀ span, t.span? b = some span → ∃ rest, t.spans.Perm (span :: rest) ∧
      u.spans.Perm (⟨span.start, line⟩ :: rest))
    (hsame : ∀ c, b ≠ c → u.span? c = t.span? c) :
    u.Follows (closed ++ Source.BlockStep.leave.closed line openers) openers.tail := by
  have hblocks := h.openBlocks
  rw [hopen] at hblocks
  cases openers with
  | nil => cases hblocks
  | cons start outer =>
    obtain ⟨hb, houter⟩ := List.cons.inj hblocks
    obtain ⟨others, hothers, hclose⟩ := hspans _ hb
    constructor
    · -- All blocks but the one that is closed stay as they are.
      have hrest : others.Perm (closed ++ outer.map .single) := by
        refine List.Perm.cons_inv (a := .single start) (hothers.symm.trans (h.spans.trans ?_))
        exact List.perm_middle
      refine hclose.trans ((hrest.cons _).trans ?_)
      rw [List.append_assoc]
      exact List.perm_middle.symm
    · change u.openBlocks.map _ = outer.map _
      rw [← houter]
      refine List.map_congr_left fun c hc => hsame c ?_
      rintro rfl
      have hmem := List.mem_map_of_mem (f := t.span?) hc
      rw [houter, hb] at hmem
      obtain ⟨start', hstart', heq⟩ := List.mem_map.1 hmem
      have hsame : start' = start := congrArg BlockSpan.start (Option.some.inj heq)
      exact Nat.ne_of_gt (List.rel_of_pairwise_cons ho hstart') hsame.symm

end Follows

/-! ## Tables as lists -/

theorem perm_modify {α : Type} {l : List α} {i : Nat} {a : α} (h : l[i]? = some a) (f : α → α) :
    ∃ rest, l.Perm (a :: rest) ∧ (l.modify i f).Perm (f a :: rest) := by
  obtain ⟨l₁, b, l₂, rfl, hlength, hmodify⟩ :=
    List.exists_of_modify f (List.getElem?_eq_some_iff.1 h).1
  obtain rfl : b = a := by simpa [← hlength] using h
  exact ⟨l₁ ++ l₂, List.perm_middle, by rw [hmodify]; exact List.perm_middle⟩

theorem getElem?_append_of_eq_some {α : Type} {l : List α} {i : Nat} {a : α} (h : l[i]? = some a)
    (more : List α) : (l ++ more)[i]? = some a := by
  rw [List.getElem?_append_left (List.getElem?_eq_some_iff.1 h).1, h]

end BlockTable

end DiagramEditor
