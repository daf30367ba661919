import DiagramEditor.Flowchart.Token
import DiagramEditor.Proofs.Text.Quoted

/-!
# Labels between delimiters

Whether a label is read in front of a delimiter depends on the label alone: it either goes from one
double quote to the next, or it is a first match that is not refused (`IsLabel`). With this
description the recognizer says no more than that the text consists of label, delimiter and rest
(`scanLabel?_eq_some_iff`), and the same holds of a shape as a whole (`scanAs?_eq_some_iff`). So
the text behind a shape may be cut off (`scanShape?_of_append`).
-/

namespace DiagramEditor.Flowchart

open Text

namespace NodeToken

variable {s t raw rest closing : Text} {c : Char}

/-- A label that goes from one double quote to the next, with blanks around it. -/
def IsQuotedLabel (raw : Text) : Prop :=
  ∃ w inner v, IsBlank w ∧ '"' ∉ inner ∧ IsBlank v ∧ raw = w ++ '"' :: (inner ++ '"' :: v)

/-- A label without a quote at its start, which goes to the first closing delimiter. -/
structure IsPlainLabel (closing raw : Text) : Prop where
  head : (trimStart raw).head? ≠ some '"'
  first : cutText? closing (raw ++ closing) = some (raw, [])
  last : ∀ c ∈ closing.getLast?, c ∉ raw

/-- A label that is read in front of the closing delimiter. -/
def IsLabel (closing raw : Text) : Prop :=
  IsQuotedLabel raw ∨ IsPlainLabel closing raw

/-- A delimiter that is neither blank nor a quote. -/
structure IsDelimiter (closing : Text) : Prop where
  ne_nil : closing ≠ []
  not_space : ∀ c ∈ closing, isSpace c = false
  not_quote : '"' ∉ closing

theorem isDelimiter_closing (shape : NodeShape) : IsDelimiter shape.closing where
  ne_nil := by cases shape <;> decide
  not_space _ := eq_false_of_any (by cases shape <;> decide)
  not_quote := by cases shape <;> decide

theorem scanLabel?_of_quote {inner : Text} (h : trimStart s = '"' :: inner) :
    scanLabel? closing s = (cutChar? '"' inner).bind fun p =>
      (stripFront? closing (trimStart p.2)).map fun rest => (before s (trimStart p.2), rest) := by
  rw [scanLabel?, h]
  simp only []
  cases cutChar? '"' inner with
  | none => rfl
  | some p =>
    rw [Option.bind_some]
    change (stripFront? closing (trimStart p.2)).bind _ = _
    cases stripFront? closing (trimStart p.2) <;> rfl

theorem scanLabel?_of_ne_quote (h : (trimStart s).head? ≠ some '"') :
    scanLabel? closing s = (cutText? closing s).bind fun p =>
      closing.getLast?.bind fun last => if !p.1.contains last then some p else none := by
  rw [scanLabel?.eq_def]
  split
  · next hq => rw [hq] at h; exact absurd rfl h
  · cases cutText? closing s with
    | none => rfl
    | some p =>
      cases closing.getLast? with
      | none => rfl
      | some last => by_cases hp : last ∈ p.1 <;> simp [hp]

/-- What stands behind a delimiter does not decide whether the label in front of it starts with a
quote. -/
theorem head?_trimStart_delimited (hc : IsDelimiter closing) (raw rest : Text) :
    (trimStart (raw ++ (closing ++ rest))).head? = some '"' ↔
      (trimStart raw).head? = some '"' := by
  by_cases hraw : IsBlank raw
  · obtain ⟨d, ds, rfl⟩ := List.exists_cons_of_ne_nil hc.ne_nil
    have hd : d ≠ '"' := ne_of_mem_of_not_mem List.mem_cons_self hc.not_quote
    have hsp : isSpace d = false := hc.not_space d List.mem_cons_self
    rw [trimStart_of_isBlank_append hraw, trimStart_eq_nil_iff.2 hraw, List.cons_append,
      trimStart_eq_self (by simpa using hsp)]
    simpa using hd
  · obtain ⟨d, ds, hd⟩ := List.exists_cons_of_ne_nil (mt trimStart_eq_nil_iff.1 hraw)
    rw [trimStart_append hraw, hd, List.cons_append]
    rfl

theorem scanLabel?_quoted (hc : IsDelimiter closing) {w inner v : Text} (hw : IsBlank w)
    (hinner : '"' ∉ inner) (hv : IsBlank v) (rest : Text) :
    scanLabel? closing (w ++ '"' :: (inner ++ '"' :: (v ++ (closing ++ rest)))) =
      some (w ++ '"' :: (inner ++ '"' :: v), rest) := by
  have hclose : trimStart (v ++ (closing ++ rest)) = closing ++ rest := by
    obtain ⟨d, ds, rfl⟩ := List.exists_cons_of_ne_nil hc.ne_nil
    rw [trimStart_of_isBlank_append hv, List.cons_append, trimStart_eq_self]
    simpa using hc.not_space d List.mem_cons_self
  have hquote : trimStart (w ++ '"' :: (inner ++ '"' :: (v ++ (closing ++ rest)))) =
      '"' :: (inner ++ '"' :: (v ++ (closing ++ rest))) := by
    rw [trimStart_of_isBlank_append hw, trimStart_eq_self (by simp [isSpace_quote])]
  rw [scanLabel?_of_quote hquote, cutChar?_append_cons hinner]
  simp only [Option.bind_some, hclose, stripFront?_self_append, Option.map_some]
  rw [show w ++ '"' :: (inner ++ '"' :: (v ++ (closing ++ rest))) =
    w ++ '"' :: (inner ++ '"' :: v) ++ (closing ++ rest) by simp, before_self_append]

theorem scanLabel?_plain (hc : IsDelimiter closing) (h : IsPlainLabel closing raw)
    (rest : Text) : scanLabel? closing (raw ++ (closing ++ rest)) = some (raw, rest) := by
  have hhead := mt (head?_trimStart_delimited hc raw rest).1 h.head
  have hcut := cutText?_append h.first rest
  rw [List.append_assoc, List.nil_append] at hcut
  rw [scanLabel?_of_ne_quote hhead, hcut, Option.bind_some,
    List.getLast?_eq_some_getLast hc.ne_nil, Option.bind_some, if_pos]
  have := h.last _ (List.getLast?_eq_some_getLast hc.ne_nil)
  simpa using this

/-- The recognizer takes the text apart into label, delimiter and rest, and the label alone decides
whether it does. -/
theorem scanLabel?_eq_some_iff (hc : IsDelimiter closing) :
    scanLabel? closing s = some (raw, rest) ↔
      s = raw ++ (closing ++ rest) ∧ IsLabel closing raw := by
  constructor
  · intro h
    by_cases hq : (trimStart s).head? = some '"'
    · obtain ⟨inner, hs⟩ := List.head?_eq_some_iff.1 hq
      have h' := h
      rw [scanLabel?_of_quote hs, Option.bind_eq_some_iff] at h
      obtain ⟨⟨label, after⟩, hcut, h⟩ := h
      obtain ⟨rest', hrest, -⟩ := Option.map_eq_some_iff.1 h
      obtain ⟨rfl, hlabel⟩ := cutChar?_eq_some hcut
      -- Put together again, the parts are a text of the form above, which reads in one way only.
      have hsplit : s =
          indent s ++ '"' :: (label ++ '"' :: (indent after ++ (closing ++ rest'))) := by
        rw [← stripFront?_eq_some.1 hrest, indent_append_trimStart, ← hs, indent_append_trimStart]
      have hread := scanLabel?_quoted hc (isBlank_indent s) hlabel (isBlank_indent after) rest'
      rw [← hsplit, h'] at hread
      simp only [Option.some.injEq, Prod.mk.injEq] at hread
      obtain ⟨hraw, rfl⟩ := hread
      refine ⟨?_, .inl ⟨_, _, _, isBlank_indent s, hlabel, isBlank_indent after, hraw⟩⟩
      rw [hraw]
      simpa using hsplit
    · rw [scanLabel?_of_ne_quote hq, Option.bind_eq_some_iff] at h
      obtain ⟨⟨raw', rest'⟩, hcut, h⟩ := h
      obtain ⟨last, hlast, h⟩ := Option.bind_eq_some_iff.1 h
      simp only [Option.ite_none_right_eq_some, Option.some.injEq] at h
      obtain ⟨hnot, heq⟩ := h
      obtain ⟨rfl, rfl⟩ := Prod.mk.inj heq
      have hs := cutText?_eq_some hcut
      rw [List.append_assoc] at hs
      refine ⟨hs, .inr ⟨?_, ?_, ?_⟩⟩
      · rwa [hs, head?_trimStart_delimited hc] at hq
      · apply cutText?_of_append hc.ne_nil (t := rest')
        rw [List.append_assoc, ← hs]
        exact hcut
      · intro c hcl
        rw [hlast] at hcl
        simpa [← Option.some.inj hcl] using hnot
  · rintro ⟨rfl, ⟨w, inner, v, hw, hinner, hv, rfl⟩ | hplain⟩
    · have := scanLabel?_quoted hc hw hinner hv rest
      simpa using this
    · exact scanLabel?_plain hc hplain rest

/-! ## Shapes -/

/-- The reading of the text as one shape. -/
def scanAs? (s : Text) (shape : NodeShape) : Option (NodeShape × Text × Text) := do
  let inner ← stripFront? shape.opening s
  let (raw, rest) ← scanLabel? shape.closing inner
  return (shape, raw, rest)

theorem scanShape?_eq_findSome? (s : Text) : scanShape? s = NodeShape.all.findSome? (scanAs? s) :=
  rfl

variable {shape shape' : NodeShape}

/-- A label with the delimiters of a shape around it. -/
def shaped (shape : NodeShape) (raw : Text) : Text :=
  shape.opening ++ (raw ++ shape.closing)

theorem scanAs?_eq_some_iff : scanAs? s shape = some (shape', raw, rest) ↔
    shape' = shape ∧ s = shaped shape raw ++ rest ∧ IsLabel shape.closing raw := by
  simp only [scanAs?, Option.bind_eq_bind, Option.bind_eq_some_iff, Prod.exists,
    scanLabel?_eq_some_iff (isDelimiter_closing shape), Option.pure_def, Option.some.injEq,
    Prod.mk.injEq, stripFront?_eq_some, shaped, List.append_assoc]
  constructor
  · rintro ⟨_, rfl, _, _, ⟨rfl, hl⟩, rfl, rfl, rfl⟩
    exact ⟨rfl, rfl, hl⟩
  · rintro ⟨rfl, rfl, hl⟩
    exact ⟨_, rfl, raw, rest, ⟨rfl, hl⟩, rfl, rfl, rfl⟩

/-- The shape that is read is the first in the list whose delimiters fit. -/
theorem scanShape?_eq_some (h : scanShape? s = some (shape, raw, rest)) :
    s = shaped shape raw ++ rest ∧ IsLabel shape.closing raw := by
  rw [scanShape?_eq_findSome?] at h
  obtain ⟨shape', -, hs⟩ := List.exists_of_findSome?_eq_some h
  obtain ⟨rfl, hs⟩ := scanAs?_eq_some_iff.1 hs
  exact hs

/-- A shape is read without what stands behind it as well: a shape that is tried earlier and does
not fit the longer text does not fit its front. -/
theorem scanShape?_of_append (h : scanShape? (s ++ t) = some (shape, raw, rest ++ t)) :
    scanShape? s = some (shape, raw, rest) := by
  rw [scanShape?_eq_findSome?] at h ⊢
  obtain ⟨before, shape', after, hall, hread, hno⟩ := List.findSome?_eq_some_iff.1 h
  obtain ⟨rfl, hs, hl⟩ := scanAs?_eq_some_iff.1 hread
  refine List.findSome?_eq_some_iff.2 ⟨before, shape, after, hall, ?_, ?_⟩
  · rw [← List.append_assoc] at hs
    exact scanAs?_eq_some_iff.2 ⟨rfl, List.append_cancel_right hs, hl⟩
  · intro earlier hmem
    cases hr : scanAs? s earlier with
    | none => rfl
    | some p =>
      obtain ⟨shape', raw', rest'⟩ := p
      obtain ⟨rfl, hs', hl'⟩ := scanAs?_eq_some_iff.1 hr
      have hmore : scanAs? (s ++ t) shape' = some (shape', raw', rest' ++ t) :=
        scanAs?_eq_some_iff.2 ⟨rfl, by rw [hs', List.append_assoc], hl'⟩
      rw [hno shape' hmem] at hmore
      contradiction

end NodeToken

end DiagramEditor.Flowchart
