import DiagramEditor.Proofs.Source.Declaration
import DiagramEditor.Source.Block

/-!
# Lines that get other numbers

Where some lines are deleted, a line that is kept gets the number of kept lines in front of it
(`rank`), and its text may have been changed as well (`numbered_map_filter`). What is read of the new
source are those lines, unless the source only now declares its kind: then the lines up to the
declaration are no longer read (`unreadLines`).
-/

namespace DiagramEditor

namespace BlockSpan

/-- The block with its lines moved. -/
def moved (f : Nat → Nat) (b : BlockSpan) : BlockSpan :=
  ⟨f b.start, f b.stop⟩

/-- Lines that stay in order stay in their blocks. -/
theorem contains_moved {f : Nat → Nat} (h : ∀ i j, i < j → f i < f j) (b : BlockSpan) (i : Nat) :
    (b.moved f).contains (f i) = b.contains i := by
  have hle : ∀ i j, f i ≤ f j ↔ i ≤ j := fun i j =>
    ⟨fun hle => Nat.le_of_not_lt fun hlt => Nat.not_le.2 (h j i hlt) hle,
      fun hle => (Nat.lt_or_eq_of_le hle).elim (fun hlt => Nat.le_of_lt (h i j hlt)) fun heq =>
        heq ▸ Nat.le_refl _⟩
  simp [contains, moved, hle]

end BlockSpan

namespace Source

variable {keep : Nat → Bool} {start slot n i j : Nat} {lines : List Text} {kind : Kind} {s s' : Source}

/-! ## Kept lines -/

/-- How many of the lines in front of this one are kept. -/
def rank (keep : Nat → Bool) (i : Nat) : Nat :=
  (List.range i).countP keep

theorem rank_succ (keep : Nat → Bool) (i : Nat) :
    rank keep (i + 1) = rank keep i + if keep i then 1 else 0 := by
  rw [rank, List.range_succ, List.countP_append, List.countP_singleton]
  rfl

/-- In front of the first line that is deleted, no line moves. -/
theorem rank_of_forall (h : ∀ j < i, keep j = true) : rank keep i = i := by
  rw [rank, List.countP_eq_length.2 fun j hj => h j (List.mem_range.1 hj), List.length_range]

/-- Behind a single line that is deleted, every line moves up by one. -/
theorem rank_ne (i j : Nat) : rank (fun l => !([i].contains l)) j = if i < j then j - 1 else j := by
  induction j with
  | zero => rfl
  | succ j ih =>
    have hkeep : (! [i].contains j) = true ↔ j ≠ i := by simp
    rw [rank_succ, ih]
    simp only [hkeep]
    split <;> split <;> split <;> omega

theorem rank_mono (h : i ≤ j) : rank keep i ≤ rank keep j :=
  (List.range_sublist.2 h).countP_le

/-- Kept lines stay in order. -/
theorem rank_lt_rank (hi : keep i = true) (h : i < j) : rank keep i < rank keep j := by
  have hsucc := rank_succ keep i
  rw [if_pos hi] at hsucc
  have hle : rank keep (i + 1) ≤ rank keep j := rank_mono h
  omega

/-- The lines that are kept, perhaps with another text, and their new numbers. -/
theorem numbered_map_filter (keep : Nat → Bool) (g : Nat × Text → Text) (start : Nat)
    (lines : List Text) :
    numbered (rank keep start) (((numbered start lines).filter fun p => keep p.1).map g) =
      ((numbered start lines).filter fun p => keep p.1).map fun p => (rank keep p.1, g p) := by
  induction lines generalizing start with
  | nil => rfl
  | cons line lines ih =>
    have hrest := ih (start + 1)
    rw [rank_succ] at hrest
    rw [numbered_cons]
    cases hline : keep start with
    | true =>
      rw [hline, if_pos rfl] at hrest
      rw [List.filter_cons_of_pos (by exact hline), List.map_cons, numbered_cons, hrest, List.map_cons]
    | false =>
      rw [hline, if_neg Bool.false_ne_true, Nat.add_zero] at hrest
      rw [List.filter_cons_of_neg (by simp [hline]), hrest]

/-- In front of a place where nothing is left out, all lines stay. -/
theorem filter_numbered_eq_append (hkeep : ∀ i < n, keep i = true) (hn : n ≤ lines.length) :
    (numbered 0 lines).filter (fun p => keep p.1) =
      numbered 0 (lines.take n) ++ (numbered n (lines.drop n)).filter fun p => keep p.1 := by
  have hlength : (lines.take n).length = n := List.length_take_of_le hn
  have hfront : ∀ p ∈ numbered 0 (lines.take n), keep p.1 = true := by
    intro p hp
    have := (List.getElem?_eq_some_iff.1 (mem_numbered.1 hp).2).1
    exact hkeep _ (by omega)
  conv_lhs => rw [← List.take_append_drop n lines]
  rw [numbered_append, hlength, Nat.zero_add, List.filter_append, List.filter_eq_self.2 hfront]

theorem take_map_filter (hkeep : ∀ i < n, keep i = true) (hn : n ≤ lines.length) :
    (((numbered 0 lines).filter fun p => keep p.1).map Prod.snd).take n = lines.take n := by
  rw [filter_numbered_eq_append hkeep hn, List.map_append, map_snd_numbered]
  exact List.take_left' (List.length_take_of_le hn)

/-- From a line on in front of which nothing is left out, the lines that are kept have their new
numbers. -/
theorem numbered_drop_map_filter {g : Nat × Text → Text} (hkeep : ∀ i < n, keep i = true)
    (hn : n ≤ lines.length) :
    numbered n ((((numbered 0 lines).filter fun p => keep p.1).map g).drop n) =
      ((numbered n (lines.drop n)).filter fun p => keep p.1).map fun p => (rank keep p.1, g p) := by
  have hlength : ((numbered 0 (lines.take n)).map g).length = n := by
    rw [List.length_map, ← List.length_map Prod.snd, map_snd_numbered, List.length_take_of_le hn]
  have hnumbered := numbered_map_filter keep g n (lines.drop n)
  rw [rank_of_forall hkeep] at hnumbered
  rw [filter_numbered_eq_append hkeep hn, List.map_append, List.drop_left' hlength, hnumbered]

/-! ## New lines -/

/-- The number of a line behind `count` new ones in front of line number `slot`. -/
def moveDown (slot count i : Nat) : Nat :=
  if i < slot then i else i + count

theorem moveDown_of_lt (h : i < slot) (count : Nat) : moveDown slot count i = i :=
  if_pos h

/-- Lines stay in order. -/
theorem moveDown_lt_moveDown (slot count : Nat) (h : i < j) :
    moveDown slot count i < moveDown slot count j := by
  rw [moveDown, moveDown]
  split <;> split <;> omega

/-! ## The lines that are read -/

/-- The lines of the new source that are not read although they stand where lines of the old one were
read: those up to a declaration that the old source did not have. -/
def unreadLines (kind : Kind) (s s' : Source) : List Text :=
  (s'.lines.take (s'.bodyIndex kind)).drop (s.bodyIndex kind)

theorem unreadLines_eq_nil (h : s'.declarationOf? kind = s.declarationOf? kind) :
    unreadLines kind s s' = [] := by
  rw [unreadLines, bodyIndex, bodyIndex, h]
  exact List.drop_eq_nil_of_le (List.length_take_le _ _)

/-- A source without a declaration is read from its first line on. -/
theorem bodyIndex_le_bodyIndex
    (h : ∀ d, s.declarationOf? kind = some d → s'.declarationOf? kind = some d) :
    s.bodyIndex kind ≤ s'.bodyIndex kind := by
  cases hd : s.declarationOf? kind with
  | none =>
    rw [bodyIndex, hd]
    exact Nat.zero_le _
  | some d => rw [bodyIndex, bodyIndex, hd, h d hd]

/-- What is read of the new source, in front of which the unread lines stand. -/
theorem body_eq_drop (h : s.bodyIndex kind ≤ s'.bodyIndex kind) :
    s'.body kind = (numbered (s.bodyIndex kind) (s'.lines.drop (s.bodyIndex kind))).drop
      (unreadLines kind s s').length := by
  obtain ⟨k, hk⟩ := Nat.exists_eq_add_of_le h
  have hlength : (unreadLines kind s s').length = k := by
    rw [unreadLines, List.length_drop, List.length_take_of_le (bodyIndex_le kind s'), hk]
    omega
  rw [hlength, ← numbered_drop, List.drop_drop, ← hk, body_eq_numbered]

theorem unreadLines_eq_take (kind : Kind) (s s' : Source) : unreadLines kind s s' =
      (s'.lines.drop (s.bodyIndex kind)).take (unreadLines kind s s').length := by
  rw [unreadLines, List.length_drop, List.length_take_of_le (bodyIndex_le kind s'), List.drop_take]

end Source

end DiagramEditor
