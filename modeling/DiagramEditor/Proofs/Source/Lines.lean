import DiagramEditor.Edit.Basic
import Mathlib.Tactic.Common

/-!
# Lines and their numbers

The edits of a source are edits of a list, and a line is found again by its number. `numbered` pairs
the lines with their numbers; replacing lines and deleting a set of lines are a map and a filter on
these pairs (`lines_replaceLines`, `lines_deleteLineSet`).
-/

namespace DiagramEditor.Source

variable {start i : Nat} {line : Text} {lines texts : List Text} {s s' : Source}

/-- The lines with their numbers, the first of which is `start`. -/
def numbered (start : Nat) (lines : List Text) : List (Nat × Text) :=
  (lines.zipIdx start).map Prod.swap

@[simp] theorem numbered_nil (start : Nat) : numbered start [] = [] := rfl

theorem numbered_cons (start : Nat) (line : Text) (lines : List Text) :
    numbered start (line :: lines) = (start, line) :: numbered (start + 1) lines := rfl

theorem numbered_append (start : Nat) (lines texts : List Text) :
    numbered start (lines ++ texts) =
      numbered start lines ++ numbered (start + lines.length) texts := by
  rw [numbered, List.zipIdx_append, List.map_append]
  rfl

/-- The same lines further down. -/
theorem numbered_add (start k : Nat) (lines : List Text) :
    numbered (start + k) lines = (numbered start lines).map fun p => (p.1 + k, p.2) := by
  induction lines generalizing start with
  | nil => rfl
  | cons line lines ih => rw [numbered_cons, numbered_cons, Nat.add_right_comm, ih, List.map_cons]

@[simp] theorem map_snd_numbered (start : Nat) (lines : List Text) :
    (numbered start lines).map Prod.snd = lines := by
  induction lines generalizing start with
  | nil => rfl
  | cons line lines ih => rw [numbered_cons, List.map_cons, ih]

theorem mem_numbered : (i, line) ∈ numbered start lines ↔
    start ≤ i ∧ lines[i - start]? = some line := by
  rw [numbered, List.mem_map]
  constructor
  · rintro ⟨⟨line', i'⟩, hmem, heq⟩
    obtain ⟨rfl, rfl⟩ := Prod.mk.inj heq
    exact List.mk_mem_zipIdx_iff_le_and_getElem?_sub.1 hmem
  · intro h
    exact ⟨(line, i), List.mk_mem_zipIdx_iff_le_and_getElem?_sub.2 h, rfl⟩

/-- A number stands for one line. -/
theorem eq_of_mem_numbered {line' : Text} (h : (i, line) ∈ numbered start lines)
    (h' : (i, line') ∈ numbered start lines) : line = line' :=
  Option.some.inj ((mem_numbered.1 h).2.symm.trans (mem_numbered.1 h').2)

theorem map_fst_numbered (start : Nat) (lines : List Text) :
    (numbered start lines).map Prod.fst = List.range' start lines.length := by
  rw [numbered, List.map_map]
  exact List.zipIdx_map_snd start lines

theorem nodup_map_fst_numbered (start : Nat) (lines : List Text) :
    ((numbered start lines).map Prod.fst).Nodup := by
  rw [map_fst_numbered]
  exact List.nodup_range'

theorem pairwise_numbered (start : Nat) (lines : List Text) :
    (numbered start lines).Pairwise fun p q => p.1 < q.1 := by
  induction lines generalizing start with
  | nil => exact .nil
  | cons line lines ih =>
    rw [numbered_cons]
    exact .cons (fun p hp => (mem_numbered.1 hp).1) (ih (start + 1))

theorem numbered_drop (start n : Nat) (lines : List Text) :
    numbered (start + n) (lines.drop n) = (numbered start lines).drop n := by
  induction lines generalizing start n with
  | nil => simp
  | cons line lines ih =>
    cases n with
    | zero => rfl
    | succ n => rw [numbered_cons, List.drop_succ_cons, List.drop_succ_cons, ← ih]; congr 1; omega

theorem numberedFrom_eq (start : Nat) (s : Source) :
    s.numberedFrom start = numbered start (s.lines.drop start) := by
  have := numbered_drop 0 start s.lines
  rw [Nat.zero_add] at this
  rw [this, numberedFrom, numbered, ← List.map_drop]
  rfl

theorem getElem?_numbered (start j : Nat) (lines : List Text) :
    (numbered start lines)[j]? = lines[j]?.map fun line => (start + j, line) := by
  rw [numbered, List.getElem?_map, List.getElem?_zipIdx, Option.map_map]
  rfl

theorem mapIdx_eq_map_numbered (f : Nat → Text → Text) (lines : List Text) :
    lines.mapIdx f = (numbered 0 lines).map fun p => f p.1 p.2 := by
  rw [numbered, List.map_map]
  exact List.mapIdx_eq_zipIdx_map

/-- Lines that are changed one by one, in step with the old ones. -/
theorem forall₂_map_numbered {R : Text → Text → Prop} {f : Nat × Text → Text}
    (h : ∀ p ∈ numbered start lines, R p.2 (f p)) :
    List.Forall₂ R lines ((numbered start lines).map f) := by
  induction lines generalizing start with
  | nil => exact .nil
  | cons line lines ih =>
    rw [numbered_cons, List.map_cons]
    exact .cons (h (start, line) List.mem_cons_self) (ih fun p hp => h p (List.mem_cons_of_mem _ hp))

/-! ## Replacing and deleting -/

/-- The line number `i` after some lines were replaced in turn. -/
def changedLine (changes : List (Nat × Text)) (i : Nat) (line : Text) : Text :=
  changes.foldl (fun line p => if p.1 = i then p.2 else line) line

/-- The text of a line after the changes is the old one, or one that was written. -/
theorem changedLine_cases (changes : List (Nat × Text)) (i : Nat) (line : Text) :
    (changedLine changes i line = line ∧ ∀ p ∈ changes, p.1 ≠ i) ∨
      (i, changedLine changes i line) ∈ changes := by
  induction changes generalizing line with
  | nil => exact .inl ⟨rfl, by simp⟩
  | cons p changes ih =>
    rw [changedLine, List.foldl_cons]
    rcases ih (if p.1 = i then p.2 else line) with ⟨heq, hno⟩ | hmem
    · rw [changedLine] at heq
      rw [heq]
      by_cases hp : p.1 = i
      · subst hp
        exact .inr (by simp)
      · rw [if_neg hp]
        refine .inl ⟨rfl, ?_⟩
        intro q hq
        rcases List.mem_cons.1 hq with rfl | hq
        exacts [hp, hno q hq]
    · exact .inr (List.mem_cons_of_mem p hmem)

theorem map_changedLine_nil (lines : List Text) :
    (numbered start lines).map (fun p => changedLine [] p.1 p.2) = lines :=
  map_snd_numbered start lines

theorem replaceLine_eq_ok {text : Text} (h : Edit.replaceLine i text s = .ok s') :
    i < s.lines.length ∧ s' = { s with lines := s.lines.set i text } := by
  rw [Edit.replaceLine, replaceLine] at h
  split at h
  · next hlt => exact ⟨hlt, (Except.ok.inj h).symm⟩
  · cases h

theorem lines_replaceLine {text : Text} (h : Edit.replaceLine i text s = .ok s') :
    s'.lines = s.lines.take i ++ [text] ++ s.lines.drop (i + 1) := by
  obtain ⟨hlt, rfl⟩ := replaceLine_eq_ok h
  exact (List.set_eq_take_append_cons_drop.trans (if_pos hlt)).trans (List.append_cons ..)

theorem numbered_set (start i : Nat) (text : Text) (lines : List Text) :
    numbered start (lines.set i text) =
      (numbered start lines).map fun p => (p.1, if start + i = p.1 then text else p.2) := by
  induction lines generalizing start i with
  | nil => rfl
  | cons line lines ih =>
    rw [numbered_cons, List.map_cons]
    cases i with
    | zero =>
      have hrest : (numbered (start + 1) lines).map
          (fun p => (p.1, if start + 0 = p.1 then text else p.2)) = numbered (start + 1) lines := by
        refine (List.map_congr_left fun p hp => ?_).trans (List.map_id _)
        have hle := (mem_numbered.1 hp).1
        rw [if_neg (by omega)]
        rfl
      rw [hrest]
      simp [numbered_cons]
    | succ i =>
      rw [List.set_cons_succ, numbered_cons, ih, if_neg (by omega)]
      congr 2
      funext p
      rw [show start + 1 + i = start + (i + 1) by omega]

/-- Replacing lines in turn changes each line by itself. -/
theorem lines_replaceLines {changes : List (Nat × Text)}
    (h : changes.foldlM (fun s p => Edit.replaceLine p.1 p.2 s) s = .ok s') :
    s'.lines = (numbered 0 s.lines).map fun p => changedLine changes p.1 p.2 := by
  induction changes generalizing s with
  | nil =>
    obtain rfl := Except.ok.inj h
    exact (map_changedLine_nil s.lines).symm
  | cons change changes ih =>
    rw [List.foldlM_cons] at h
    cases hr : Edit.replaceLine change.1 change.2 s with
    | error e => rw [hr] at h; cases h
    | ok s₁ =>
      rw [hr] at h
      obtain ⟨-, rfl⟩ := replaceLine_eq_ok hr
      rw [ih h, numbered_set, List.map_map]
      refine List.map_congr_left fun p _ => ?_
      simp only [Function.comp_apply, changedLine, List.foldl_cons, Nat.zero_add]

theorem lines_deleteLineSet (indices : List Nat) (s : Source) :
    (s.deleteLineSet indices).lines =
      ((numbered 0 s.lines).filter fun p => !indices.contains p.1).map Prod.snd := by
  rw [deleteLineSet, numbered, List.filter_map, List.map_map]
  rfl

theorem deleteLineSet_eq {indices : List Nat} (h : (s.deleteLineSet indices).lines = lines) :
    s.deleteLineSet indices = { s with lines := lines } := by
  rw [← h]
  rfl

theorem deleteLineSet_nil (s : Source) : s.deleteLineSet [] = s := by
  refine deleteLineSet_eq ?_
  rw [lines_deleteLineSet, List.filter_eq_self.2 (by simp), map_snd_numbered]

/-- Deleting lines of a source whose lines all have an index. -/
theorem deleteLines_of_le {count : Nat} (hi : i + count ≤ s.length)
    (hlength : s.length < Text.indexBound) : Edit.deleteLines i count s =
      .ok { s with lines := s.lines.take i ++ s.lines.drop (i + count) } := by
  have hstop : min (i + count) (Text.indexBound - 1) = i + count := by omega
  rw [Edit.deleteLines, deleteLines]
  simp only [hstop]
  rw [if_pos hi]
  rfl

/-- Deleting one line of a source whose lines all have an index. -/
theorem deleteLines_one (hi : i < s.length) (hlength : s.length < Text.indexBound) :
    Edit.deleteLines i 1 s = .ok (s.deleteLineSet [i]) := by
  have hkeep : ∀ start (lines : List Text), (∀ p ∈ numbered start lines, p.1 ≠ i) →
      ((numbered start lines).filter fun p => !([i].contains p.1)).map Prod.snd = lines := by
    intro start lines h
    rw [List.filter_eq_self.2 fun p hp => by simpa using h p hp, map_snd_numbered]
  have hlines : (s.deleteLineSet [i]).lines = s.lines.take i ++ s.lines.drop (i + 1) := by
    have hlength : (s.lines.take i).length = i := List.length_take_of_le (Nat.le_of_lt hi)
    conv_lhs => rw [lines_deleteLineSet, ← List.take_append_drop i s.lines,
      List.drop_eq_getElem_cons hi, numbered_append, numbered_cons, hlength, Nat.zero_add]
    rw [List.filter_append, List.filter_cons_of_neg (by simp), List.map_append]
    congr 1
    · refine hkeep 0 _ fun p hp => ?_
      have := (List.getElem?_eq_some_iff.1 (mem_numbered.1 hp).2).1
      omega
    · exact hkeep (i + 1) _ fun p hp => Nat.ne_of_gt (mem_numbered.1 hp).1
  rw [deleteLines_of_le (Nat.succ_le_of_lt hi) hlength, deleteLineSet_eq hlines]

theorem numbered_map (start : Nat) (lines : List Text) (f : Nat × Text → Text) :
    numbered start ((numbered start lines).map f) =
      (numbered start lines).map fun p => (p.1, f p) := by
  induction lines generalizing start with
  | nil => rfl
  | cons line lines ih => rw [numbered_cons, List.map_cons, List.map_cons, numbered_cons, ih]

/-- Replacing lines and then deleting some, numbered as before the deletion. -/
theorem lines_replaceLines_deleteLineSet {changes : List (Nat × Text)} (indices : List Nat)
    (h : changes.foldlM (fun s p => Edit.replaceLine p.1 p.2 s) s = .ok s') :
    (s'.deleteLineSet indices).lines =
      ((numbered 0 s.lines).filter fun p => !indices.contains p.1).map fun p =>
        changedLine changes p.1 p.2 := by
  rw [lines_deleteLineSet, lines_replaceLines h, numbered_map, List.filter_map, List.map_map]
  rfl

/-! ## Inserting -/

theorem insertLines_eq_ok (h : Edit.insertLines i texts s = .ok s') :
    i ≤ s.lines.length ∧
      s' = { s with lines := s.lines.take i ++ texts ++ s.lines.drop i } := by
  rw [Edit.insertLines, insertLines] at h
  split at h
  · next hle => exact ⟨hle, (Except.ok.inj h).symm⟩
  · cases h

theorem lines_pushLines (texts : List Text) (s : Source) :
    (texts.foldl (fun s line => s.pushLine line) s).lines = s.lines ++ texts := by
  induction texts generalizing s with
  | nil => exact (List.append_nil _).symm
  | cons text texts ih => rw [List.foldl_cons, ih, pushLine, List.append_assoc, List.singleton_append]

theorem take_append_drop_take {j : Nat} (h : i ≤ j) (lines : List Text) :
    lines.take i ++ (lines.take j).drop i = lines.take j := by
  conv_rhs => rw [← List.take_append_drop i (lines.take j), List.take_take, Nat.min_eq_left h]

theorem drop_take_succ (h : lines[i]? = some line) : (lines.take (i + 1)).drop i = [line] := by
  obtain ⟨hi, rfl⟩ := List.getElem?_eq_some_iff.1 h
  rw [List.drop_take, Nat.add_sub_cancel_left, List.drop_eq_getElem_cons hi]
  rfl

theorem lineAt_eq_ok (h : Edit.lineAt i s = .ok line) : s.lines[i]? = some line := by
  rw [Edit.lineAt] at h
  split at h
  · next hl => rw [← Except.ok.inj h]; exact hl
  · cases h

end DiagramEditor.Source
