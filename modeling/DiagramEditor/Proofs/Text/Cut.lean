import DiagramEditor.Text.Basic
import Mathlib.Data.Option.Basic
import Mathlib.Tactic.Common

/-!
# Cutting and splitting

What the cutting functions return is found again when the text grows at its end, and when what was
left of it is cut off: a first match does not depend on what stands behind it
(`cutText?_append`, `cutText?_of_append`, `cutChar?_append`).

Splitting is the one of the standard library (`splitWhere_eq_splitOnP`), so joining fields that are
free of the separator and splitting again gives the fields back (`splitOn_join`).
-/

namespace DiagramEditor.Text

variable {s t a b front rest : Text} {c : Char} {p : Char → Bool}

/-! ## Fronts -/

@[simp] theorem stripFront?_self_append (front rest : Text) :
    stripFront? front (front ++ rest) = some rest :=
  stripFront?_eq_some.2 rfl

@[simp] theorem stripFront?_nil (s : Text) : stripFront? [] s = some s := by
  cases s <;> rfl

/-- A front that is there stays there when the text grows. -/
theorem stripFront?_append (h : stripFront? front s = some rest) (t : Text) :
    stripFront? front (s ++ t) = some (rest ++ t) := by
  rw [stripFront?_eq_some] at h ⊢
  rw [h, List.append_assoc]

theorem stripFront?_eq_none_of_append (h : stripFront? front (s ++ t) = none) :
    stripFront? front s = none := by
  cases hs : stripFront? front s with
  | none => rfl
  | some rest => rw [stripFront?_append hs] at h; contradiction

theorem stripFront?_of_append (h : stripFront? front (s ++ t) = some (rest ++ t)) :
    stripFront? front s = some rest := by
  rw [stripFront?_eq_some] at h ⊢
  exact List.append_cancel_right (h.trans (List.append_assoc ..).symm)

theorem stripFront?_eq_none_of_head (h : ∀ d ∈ s.head?, d ≠ c) :
    stripFront? (c :: front) s = none := by
  cases s with
  | nil => rfl
  | cons d s => rw [stripFront?, if_neg (h d rfl).symm]

/-- What is left behind a front is an end of the text. -/
theorem stripFront?_suffix (h : stripFront? front s = some rest) : rest <:+ s :=
  ⟨front, (stripFront?_eq_some.1 h).symm⟩

theorem stripEnd?_eq_some {tail s rest : Text} : stripEnd? tail s = some rest ↔ s = rest ++ tail := by
  rw [stripEnd?, Option.map_eq_some_iff]
  constructor
  · rintro ⟨front, hfront, rfl⟩
    simpa using congrArg List.reverse (stripFront?_eq_some.1 hfront)
  · rintro rfl
    exact ⟨rest.reverse, stripFront?_eq_some.2 List.reverse_append, List.reverse_reverse rest⟩

/-- An end of the text and what stands before it. -/
theorem before_self_append (front rest : Text) : before (front ++ rest) rest = front := by
  simp [before]

/-! ## Cutting at a character -/

theorem cutWhere?_append_cons (ha : ∀ d ∈ a, p d = false) (hc : p c = true) (b : Text) :
    cutWhere? p (a ++ c :: b) = some (a, b) := by
  induction a with
  | nil => rw [List.nil_append, cutWhere?, if_pos hc]
  | cons d a ih =>
    rw [List.cons_append, cutWhere?, ha d List.mem_cons_self, if_neg (by simp),
      ih fun e he => ha e (List.mem_cons_of_mem d he)]
    rfl

theorem cutWhere?_eq_none (h : ∀ d ∈ s, p d = false) : cutWhere? p s = none := by
  induction s with
  | nil => rfl
  | cons d s ih =>
    rw [cutWhere?, h d List.mem_cons_self, if_neg (by simp),
      ih fun e he => h e (List.mem_cons_of_mem d he)]
    rfl

theorem cutChar?_append_cons (h : c ∉ a) (b : Text) : cutChar? c (a ++ c :: b) = some (a, b) :=
  cutWhere?_append_cons (fun _ hd => beq_false_of_ne (ne_of_mem_of_not_mem hd h))
    (beq_self_eq_true c) b

theorem cutChar?_eq_none (h : c ∉ s) : cutChar? c s = none :=
  cutWhere?_eq_none fun _ hd => beq_false_of_ne (ne_of_mem_of_not_mem hd h)

theorem cutChar?_eq_none_iff : cutChar? c s = none ↔ c ∉ s := by
  refine ⟨fun h hc => ?_, cutChar?_eq_none⟩
  obtain ⟨a, b, rfl, ha⟩ := List.eq_append_cons_of_mem hc
  rw [cutChar?_append_cons ha] at h
  contradiction

/-! ## Cutting at a text -/

theorem cutText?_of_stripFront? {needle : Text} (h : stripFront? needle s = some rest) :
    cutText? needle s = some ([], rest) := by
  rw [cutText?.eq_def, h]

theorem cutText?_cons {needle : Text} (h : stripFront? needle (c :: s) = none) :
    cutText? needle (c :: s) = (cutText? needle s).map fun (a, b) => (c :: a, b) := by
  rw [cutText?.eq_def, h]

theorem cutText?_eq_some {needle : Text} (h : cutText? needle s = some (a, b)) :
    s = a ++ needle ++ b := by
  induction s generalizing a with
  | nil =>
    cases hn : stripFront? needle [] with
    | none => simp [cutText?, hn] at h
    | some rest =>
      rw [cutText?_of_stripFront? hn, Option.some.injEq, Prod.mk.injEq] at h
      rw [stripFront?_eq_some.1 hn, ← h.1, ← h.2, List.nil_append]
  | cons c s ih =>
    cases hn : stripFront? needle (c :: s) with
    | none =>
      simp only [cutText?_cons hn, Option.map_eq_some_iff, Prod.exists, Prod.mk.injEq] at h
      obtain ⟨a', b', h', rfl, rfl⟩ := h
      rw [ih h', List.cons_append, List.cons_append]
    | some rest =>
      rw [cutText?_of_stripFront? hn, Option.some.injEq, Prod.mk.injEq] at h
      rw [stripFront?_eq_some.1 hn, ← h.1, ← h.2, List.nil_append]

/-- In front of the first match there is none. -/
theorem hasText_of_cutText? {needle : Text} (hne : needle ≠ []) (h : cutText? needle s = some (a, b)) :
    hasText needle a = false := by
  obtain ⟨d, needle, rfl⟩ := List.exists_cons_of_ne_nil hne
  induction s generalizing a with
  | nil => cases h
  | cons c s ih =>
    cases hn : stripFront? (d :: needle) (c :: s) with
    | some rest =>
      rw [cutText?_of_stripFront? hn, Option.some.injEq, Prod.mk.injEq] at h
      rw [← h.1]
      rfl
    | none =>
      rw [cutText?_cons hn] at h
      obtain ⟨⟨a', b'⟩, h', heq⟩ := Option.map_eq_some_iff.1 h
      obtain ⟨rfl, rfl⟩ := Prod.mk.inj heq
      have hfront : stripFront? (d :: needle) (c :: a') = none := by
        rw [cutText?_eq_some h', List.append_assoc, ← List.cons_append] at hn
        exact stripFront?_eq_none_of_append hn
      rw [hasText, cutText?_cons hfront, Option.isSome_map]
      exact ih h'

/-- A front that ends inside `s` is a front of `s`. -/
theorem stripFront?_eq_none_append (h : stripFront? front s = none)
    (hlen : front.length ≤ s.length) (t : Text) : stripFront? front (s ++ t) = none := by
  cases hst : stripFront? front (s ++ t) with
  | none => rfl
  | some rest =>
    obtain ⟨r, hr⟩ := List.prefix_of_prefix_length_le
      ⟨rest, (stripFront?_eq_some.1 hst).symm⟩ (List.prefix_append s t) hlen
    rw [stripFront?_eq_some.2 hr.symm] at h
    contradiction

/-- A match is still the first one when the text grows at its end: no other one starts before it
and reaches that far. -/
theorem cutText?_append {needle : Text} (h : cutText? needle s = some (a, b)) (t : Text) :
    cutText? needle (s ++ t) = some (a, b ++ t) := by
  induction s generalizing a with
  | nil =>
    cases hn : stripFront? needle [] with
    | none => simp [cutText?, hn] at h
    | some rest =>
      rw [cutText?_of_stripFront? hn, Option.some.injEq, Prod.mk.injEq] at h
      rw [cutText?_of_stripFront? (stripFront?_append hn t), h.1, h.2]
  | cons c s ih =>
    cases hn : stripFront? needle (c :: s) with
    | none =>
      simp only [cutText?_cons hn, Option.map_eq_some_iff, Prod.exists, Prod.mk.injEq] at h
      obtain ⟨a', b', h', rfl, rfl⟩ := h
      have hlen : needle.length ≤ (c :: s).length := by
        have := congrArg List.length (cutText?_eq_some h')
        simp only [List.length_append, List.length_cons] at this ⊢
        omega
      have hst : stripFront? needle (c :: (s ++ t)) = none := stripFront?_eq_none_append hn hlen t
      rw [List.cons_append, cutText?_cons hst, ih h']
      rfl
    | some rest =>
      rw [cutText?_of_stripFront? hn, Option.some.injEq, Prod.mk.injEq] at h
      rw [cutText?_of_stripFront? (stripFront?_append hn t), h.1, h.2]

/-- The first match does not depend on what stands behind it. -/
theorem cutText?_of_append {needle : Text} (hne : needle ≠ [])
    (h : cutText? needle (s ++ t) = some (a, b ++ t)) : cutText? needle s = some (a, b) := by
  induction s generalizing a with
  | nil =>
    have hlen := congrArg List.length (cutText?_eq_some h)
    have hpos := List.length_pos_iff.2 hne
    simp only [List.length_append, List.length_nil] at hlen
    omega
  | cons c s ih =>
    cases hn : stripFront? needle (c :: s ++ t) with
    | none =>
      rw [List.cons_append] at h hn
      simp only [cutText?_cons hn, Option.map_eq_some_iff, Prod.exists, Prod.mk.injEq] at h
      obtain ⟨a', b', h', rfl, rfl⟩ := h
      rw [← List.cons_append] at hn
      rw [cutText?_cons (stripFront?_eq_none_of_append hn), ih h']
      rfl
    | some rest =>
      rw [cutText?_of_stripFront? hn, Option.some.injEq, Prod.mk.injEq] at h
      rw [h.2] at hn
      rw [cutText?_of_stripFront? (stripFront?_of_append hn), h.1]

/-! ## Splitting -/

theorem splitWhere_eq_splitOnP (p : Char → Bool) (s : Text) : splitWhere p s = s.splitOnP p := by
  induction s with
  | nil => rfl
  | cons c s ih =>
    rw [splitWhere, List.splitOnP_cons_eq_if_modifyHead, ih]
    cases h : s.splitOnP p with
    | nil => exact absurd h (List.splitOnP_ne_nil p s)
    | cons field fields => rfl

theorem splitOn_eq_splitOn (sep : Char) (s : Text) : splitOn sep s = List.splitOn sep s :=
  splitWhere_eq_splitOnP (· == sep) s

theorem splitOn_ne_nil (sep : Char) (s : Text) : splitOn sep s ≠ [] :=
  splitWhere_ne_nil _ s

/-- Around a separator both sides are split on their own. -/
theorem splitOn_append_cons (sep : Char) (s t : Text) :
    splitOn sep (s ++ sep :: t) = splitOn sep s ++ splitOn sep t := by
  simp only [splitOn, splitWhere_eq_splitOnP]
  exact List.splitOnP_append_cons s t (beq_self_eq_true sep)

theorem splitOn_eq_singleton {sep : Char} (h : sep ∉ s) : splitOn sep s = [s] := by
  rw [splitOn_eq_splitOn, List.splitOn_eq_singleton h]

/-- Fields without the separator come back. -/
theorem splitOn_join {sep : Char} {fields : List Text} (hne : fields ≠ [])
    (h : ∀ field ∈ fields, sep ∉ field) : splitOn sep (join [sep] fields) = fields := by
  rw [splitOn_eq_splitOn, join, List.splitOn_intercalate sep h hne]

/-- The fields make up the text again. -/
theorem join_splitOn (sep : Char) (s : Text) : join [sep] (splitOn sep s) = s := by
  rw [splitOn_eq_splitOn, join, List.intercalate_splitOn]

theorem not_mem_of_mem_splitOn {sep : Char} {field : Text} (h : field ∈ splitOn sep s) :
    sep ∉ field := by
  rw [splitOn] at h
  induction s generalizing field with
  | nil => simp_all [splitWhere]
  | cons c s ih =>
    rw [splitWhere] at h
    split at h
    · rcases List.mem_cons.1 h with rfl | h
      exacts [List.not_mem_nil, ih h]
    · next hc =>
      cases hs : splitWhere (· == sep) s with
      | nil => exact absurd hs (splitWhere_ne_nil _ s)
      | cons first fields =>
        rw [hs, consFirst] at h
        rcases List.mem_cons.1 h with rfl | h
        · intro hm
          rcases List.mem_cons.1 hm with rfl | hm
          exacts [hc (beq_self_eq_true _), ih (hs ▸ List.mem_cons_self) hm]
        · exact ih (hs ▸ List.mem_cons_of_mem first h)

@[simp] theorem join_nil (sep : Text) : join sep [] = [] := rfl

@[simp] theorem join_singleton (sep field : Text) : join sep [field] = field :=
  List.intercalate_singleton

theorem join_cons (sep field : Text) {fields : List Text} (h : fields ≠ []) :
    join sep (field :: fields) = field ++ sep ++ join sep fields :=
  List.intercalate_cons_of_ne_nil h

/-- A character in front of the first field comes out in front. -/
theorem join_cons_cons (sep : Text) (c : Char) (field : Text) (fields : List Text) :
    join sep ((c :: field) :: fields) = c :: join sep (field :: fields) := by
  cases fields with
  | nil => simp
  | cons next fields => simp [join_cons]

/-- What is joined stands in the result as it was. -/
theorem isInfix_join {sep field : Text} {fields : List Text} (h : field ∈ fields) :
    field <:+: join sep fields := by
  induction fields with
  | nil => cases h
  | cons first fields ih =>
    by_cases hnil : fields = []
    · subst hnil
      rw [join_singleton]
      exact List.mem_singleton.1 h ▸ List.infix_refl field
    · rw [join_cons _ _ hnil]
      rcases List.mem_cons.1 h with rfl | h
      · rw [List.append_assoc]
        exact (List.prefix_append ..).isInfix
      · exact (ih h).trans (List.suffix_append ..).isInfix

theorem mem_join_of_mem {sep field : Text} {fields : List Text} {c : Char} (h : field ∈ fields)
    (hc : c ∈ field) : c ∈ join sep fields :=
  (isInfix_join h).subset hc

/-- Joining brings no characters but those of the separator. -/
theorem join_subset (sep : Text) (fields : List Text) : join sep fields ⊆ sep ++ fields.flatten := by
  induction fields with
  | nil => exact List.nil_subset _
  | cons field fields ih =>
    rw [List.flatten_cons]
    by_cases hne : fields = []
    · subst hne
      rw [join_singleton]
      exact fun c hc => List.mem_append_right _ (List.mem_append_left _ hc)
    · rw [join_cons _ _ hne]
      intro c hc
      have hrest := @ih c
      simp only [List.mem_append] at hc hrest ⊢
      tauto

theorem join_append {sep : Text} {fields more : List Text} (hfields : fields ≠ [])
    (hmore : more ≠ []) : join sep (fields ++ more) = join sep fields ++ sep ++ join sep more := by
  induction fields with
  | nil => contradiction
  | cons t rest ih =>
    rw [List.cons_append, join_cons _ _ (List.append_ne_nil_of_right_ne_nil rest hmore)]
    by_cases hnil : rest = []
    · subst hnil
      rw [List.nil_append, join_singleton]
    · rw [ih hnil, join_cons _ _ hnil]
      simp only [List.append_assoc]

theorem join_append_singleton {sep : Text} {fields : List Text} (hne : fields ≠ []) (s : Text) :
    join sep (fields ++ [s]) = join sep fields ++ sep ++ s := by
  rw [join_append hne (List.cons_ne_nil s []), join_singleton]

end DiagramEditor.Text
