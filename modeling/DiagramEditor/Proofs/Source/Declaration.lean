import DiagramEditor.Kind
import DiagramEditor.Proofs.Source.Lines
import DiagramEditor.Proofs.Text.Cut
import DiagramEditor.Proofs.Text.Trim

/-!
# The declaration of a source

A source that declares a flowchart consists of a prelude, the declaration and the body
(`IsDeclared`). The body has no say in where the declaration is, and neither have the lines of front
matter, its fences apart: lines may come and go there and the declaration stays the declaration
(`IsDeclared.of_filter`). A line at the end may declare a kind if no other line does
(`declarationOf?_pushLine`).
-/

namespace DiagramEditor.Source

open Text

variable {index d : Nat} {inside fenced : Bool} {line : Text} {front rest body lines : List Text}
  {kind : Kind} {state : Bool × Bool} {s s' : Source}

/-- Whether front matter is open, and whether there was any, behind lines that declare nothing;
`none` if one of the lines is content. -/
def preludeState : (inside fenced : Bool) → List Text → Option (Bool × Bool)
  | inside, fenced, [] => some (inside, fenced)
  | inside, fenced, line :: rest =>
    if trim line = frontMatterFence ∧ (!fenced || inside) = true then
      preludeState (!inside) true rest
    else if (inside || isSilent (trim line)) = true then preludeState inside fenced rest
    else none

/-- The line declares the kind where front matter is in this state. -/
structure DeclaresAt (state : Bool × Bool) (kind : Kind) (line : Text) : Prop where
  not_fence : ¬(trim line = frontMatterFence ∧ (!state.2 || state.1) = true)
  not_inside : state.1 = false
  not_silent : isSilent (trim line) = false
  keyword : Kind.ofKeyword? (firstWord (trim line)) = some kind

theorem declarationFrom?_append (h : preludeState inside fenced front = some state) :
    declarationFrom? index inside fenced (front ++ rest) =
      declarationFrom? (index + front.length) state.1 state.2 rest := by
  induction front generalizing index inside fenced with
  | nil =>
    rw [preludeState, Option.some.injEq] at h
    subst h
    rfl
  | cons line front ih =>
    rw [preludeState] at h
    rw [List.cons_append, declarationFrom?, List.length_cons, Nat.add_comm front.length,
      ← Nat.add_assoc]
    simp only [Bool.and_eq_true, decide_eq_true_eq]
    split at h
    · next hf => rw [if_pos hf, ih h]
    · next hf =>
      split at h
      · next hi => rw [if_neg hf, if_pos hi, ih h]
      · cases h

theorem declarationFrom?_cons (h : DeclaresAt state kind line) :
    declarationFrom? index state.1 state.2 (line :: rest) = some (index, kind) := by
  rw [declarationFrom?]
  simp only [Bool.and_eq_true, decide_eq_true_eq]
  rw [if_neg h.not_fence, h.not_inside, h.not_silent, h.keyword]
  rfl

theorem declarationFrom?_eq_some
    (h : declarationFrom? index inside fenced lines = some (d, kind)) :
    ∃ front line rest state, lines = front ++ line :: rest ∧ d = index + front.length ∧
      preludeState inside fenced front = some state ∧ DeclaresAt state kind line := by
  induction lines generalizing index inside fenced with
  | nil => cases h
  | cons line lines ih =>
    rw [declarationFrom?] at h
    simp only [Bool.and_eq_true, decide_eq_true_eq] at h
    split at h
    · next hf =>
      obtain ⟨front, decl, rest, state, rfl, rfl, hstate, hdecl⟩ := ih h
      refine ⟨line :: front, decl, rest, state, rfl, ?_, ?_, hdecl⟩
      · rw [List.length_cons]; omega
      · rw [preludeState, if_pos hf, hstate]
    · next hf =>
      split at h
      · next hi =>
        obtain ⟨front, decl, rest, state, rfl, rfl, hstate, hdecl⟩ := ih h
        refine ⟨line :: front, decl, rest, state, rfl, ?_, ?_, hdecl⟩
        · rw [List.length_cons]; omega
        · rw [preludeState, if_neg hf, if_pos hi, hstate]
      · next hi =>
        obtain ⟨kind', hkind, heq⟩ := Option.map_eq_some_iff.1 h
        obtain ⟨rfl, rfl⟩ := Prod.mk.inj heq
        rw [Bool.or_eq_true, not_or, Bool.not_eq_true, Bool.not_eq_true] at hi
        exact ⟨[], line, lines, (inside, fenced), rfl, rfl, rfl, hf, hi.1, hi.2, hkind⟩

/-- The line is one of content, with this first word. -/
structure BeginsWith (word line : Text) : Prop where
  not_fence : trim line ≠ frontMatterFence
  not_silent : isSilent (trim line) = false
  firstWord : Text.firstWord (trim line) = word

/-- Of a line of content only the first word has a say in what a source declares. -/
theorem declarationFrom?_of_beginsWith {lines' : List Text}
    (h : List.Forall₂ (fun a b => b = a ∨ ∃ word, BeginsWith word a ∧ BeginsWith word b) lines lines')
    (index : Nat) (inside fenced : Bool) :
    declarationFrom? index inside fenced lines' = declarationFrom? index inside fenced lines := by
  induction h generalizing index inside fenced with
  | nil => rfl
  | @cons a b _ _ hab _ ih =>
    rw [declarationFrom?, declarationFrom?, ih, ih]
    rcases hab with rfl | ⟨word, ha, hb⟩
    · rfl
    · simp only [ha.not_fence, hb.not_fence, ha.not_silent, hb.not_silent, ha.firstWord, hb.firstWord,
        decide_false, Bool.false_and]

/-- A source that does not declare the kind does not begin to where lines of content become such as
declare nothing of the kind. -/
theorem declarationOf?_eq_none_of_beginsWith
    (h : List.Forall₂ (fun a b => b = a ∨ ∃ word word', BeginsWith word a ∧ BeginsWith word' b ∧
      Kind.ofKeyword? word' ≠ some kind) s.lines s'.lines)
    (hnone : s.declarationOf? kind = none) : s'.declarationOf? kind = none := by
  have hfrom : ∀ {lines lines' : List Text}, List.Forall₂ (fun a b => b = a ∨ ∃ word word',
      BeginsWith word a ∧ BeginsWith word' b ∧ Kind.ofKeyword? word' ≠ some kind) lines lines' →
        ∀ index inside fenced,
          (declarationFrom? index inside fenced lines).filter (·.2 = kind) = none →
            (declarationFrom? index inside fenced lines').filter (·.2 = kind) = none := by
    intro lines lines' h
    induction h with
    | nil => exact fun _ _ _ h => h
    | @cons a b rest rest' hab _ ih =>
      intro index inside fenced hnone
      rw [declarationFrom?] at hnone ⊢
      rcases hab with rfl | ⟨word, word', ha, hb, hword⟩
      · split at hnone
        · next hfence =>
          rw [if_pos hfence]
          exact ih _ _ _ hnone
        · next hfence =>
          rw [if_neg hfence]
          split at hnone
          · next hskip =>
            rw [if_pos hskip]
            exact ih _ _ _ hnone
          · next hskip =>
            rw [if_neg hskip]
            exact hnone
      · simp only [ha.not_fence, hb.not_fence, ha.not_silent, hb.not_silent, hb.firstWord,
          decide_false, Bool.false_and, Bool.false_eq_true, if_false, Bool.or_false] at hnone ⊢
        split
        · next hinside =>
          rw [if_pos hinside] at hnone
          exact ih _ _ _ hnone
        · rw [Option.filter_eq_none_iff]
          intro d hd
          obtain ⟨kind', hkind, rfl⟩ := Option.map_eq_some_iff.1 hd
          rw [decide_eq_true_eq]
          rintro rfl
          exact hword hkind
  rw [declarationOf?, Option.map_eq_none_iff] at hnone ⊢
  exact hfrom h 0 false false hnone

/-- A line at the end may declare a kind if no other line does, and changes nothing else. -/
theorem declarationFrom?_concat (lines : List Text) (text : Text) :
    declarationFrom? index inside fenced (lines ++ [text]) = declarationFrom? index inside fenced lines ∨
      declarationFrom? index inside fenced lines = none ∧
        declarationFrom? index inside fenced (lines ++ [text]) =
          (Kind.ofKeyword? (firstWord (trim text))).map fun kind => (index + lines.length, kind) := by
  induction lines generalizing index inside fenced with
  | nil =>
    rw [List.nil_append, declarationFrom?.eq_2]
    split
    · exact .inl rfl
    · split
      exacts [.inl rfl, .inr ⟨rfl, rfl⟩]
  | cons line lines ih =>
    have hlength : index + (line :: lines).length = index + 1 + lines.length := by
      rw [List.length_cons, Nat.add_right_comm, Nat.add_assoc]
    rw [List.cons_append, declarationFrom?, declarationFrom?, hlength]
    split
    · exact ih
    · split
      exacts [ih, .inl rfl]

theorem declarationOf?_pushLine (kind : Kind) (s : Source) (text : Text) :
    (s.pushLine text).declarationOf? kind = s.declarationOf? kind ∨
      (s.pushLine text).declarationOf? kind = some s.length ∧
        Kind.ofKeyword? (firstWord (trim text)) = some kind := by
  rw [declarationOf?, declarationOf?, declaration?, declaration?, pushLine]
  rcases declarationFrom?_concat s.lines text with h | ⟨hnone, h⟩
  · exact .inl (by rw [h])
  · rw [h, hnone, Nat.zero_add]
    cases hkind : Kind.ofKeyword? (firstWord (trim text)) with
    | none => exact .inl rfl
    | some k =>
      by_cases hk : k = kind
      · subst hk
        exact .inr ⟨by simp [Option.filter, Source.length], rfl⟩
      · exact .inl (by simp [Option.filter, hk])

/-- The number of the first line behind the declaration of this kind. -/
def bodyIndex (kind : Kind) (s : Source) : Nat :=
  (s.declarationOf? kind).elim 0 (· + 1)

theorem body_eq_numbered (kind : Kind) (s : Source) :
    s.body kind = numbered (s.bodyIndex kind) (s.lines.drop (s.bodyIndex kind)) :=
  numberedFrom_eq _ s

theorem bodyIndex_le (kind : Kind) (s : Source) : s.bodyIndex kind ≤ s.lines.length := by
  rw [bodyIndex]
  cases hd : s.declarationOf? kind with
  | none => exact Nat.zero_le _
  | some d =>
    obtain ⟨⟨d, kind'⟩, hdecl, rfl⟩ := Option.map_eq_some_iff.1 hd
    obtain ⟨front, line, rest, -, hlines, rfl, -⟩ :=
      declarationFrom?_eq_some (Option.filter_eq_some_iff.1 hdecl).1
    rw [hlines]
    simp

theorem bodyIndex_congr (h : s'.declarationOf? kind = s.declarationOf? kind) :
    s'.bodyIndex kind = s.bodyIndex kind := by
  rw [bodyIndex, bodyIndex, h]

/-- A line at the end is the last one of the body. -/
theorem body_pushLine (h : (s.pushLine line).declarationOf? kind = s.declarationOf? kind) :
    (s.pushLine line).body kind = s.body kind ++ [(s.length, line)] := by
  have hle := bodyIndex_le kind s
  rw [body_eq_numbered, body_eq_numbered, bodyIndex_congr h, pushLine,
    List.drop_append_of_le_length hle, numbered_append, List.length_drop, Nat.add_sub_cancel' hle]
  rfl

/-- A line of the body, exchanged. -/
theorem body_set (h : s'.declarationOf? kind = s.declarationOf? kind) {i : Nat}
    (hi : s.bodyIndex kind ≤ i) (hlines : s'.lines = s.lines.set i line) :
    s'.body kind = (s.body kind).map fun p => (p.1, if i = p.1 then line else p.2) := by
  rw [body_eq_numbered, body_eq_numbered, bodyIndex_congr h, hlines, List.drop_set,
    if_neg (Nat.not_lt.2 hi), numbered_set, Nat.add_sub_cancel' hi]

/-- The lines of the body are the lines of the source from its first one on. -/
theorem exists_mem_body_iff {i : Nat} :
    (∃ text, (i, text) ∈ s.body kind) ↔ s.bodyIndex kind ≤ i ∧ i < s.length := by
  simp only [body_eq_numbered, mem_numbered, List.getElem?_drop]
  constructor
  · rintro ⟨text, hle, hget⟩
    have hlt := (List.getElem?_eq_some_iff.1 hget).1
    exact ⟨hle, by rw [Source.length]; omega⟩
  · rintro ⟨hle, hlt⟩
    refine ⟨s.lines[i], hle, ?_⟩
    rw [Nat.add_sub_cancel' hle]
    exact List.getElem?_eq_getElem hlt

/-- Lines of front matter that are no fences, and silent lines, do not change the state. -/
theorem preludeState_filter {keep : Nat × Text → Bool} {start : Nat}
    (h : preludeState inside fenced front = some state)
    (hkeep : ∀ p ∈ numbered start front, keep p = false → trim p.2 ≠ frontMatterFence) :
    preludeState inside fenced (((numbered start front).filter keep).map Prod.snd) =
      some state := by
  induction front generalizing inside fenced start with
  | nil => exact h
  | cons line front ih =>
    rw [numbered_cons] at hkeep ⊢
    have hrest := fun p hp => hkeep p (List.mem_cons_of_mem (start, line) hp)
    rw [preludeState] at h
    cases hline : keep (start, line) with
    | true =>
      rw [List.filter_cons_of_pos hline, List.map_cons, preludeState]
      split at h
      · next hf => rw [if_pos hf, ih h hrest]
      · next hf =>
        split at h
        · next hi => rw [if_neg hf, if_pos hi, ih h hrest]
        · cases h
    | false =>
      have hfence := hkeep _ List.mem_cons_self hline
      rw [List.filter_cons_of_neg (by simp [hline])]
      rw [if_neg fun hf => hfence hf.1] at h
      split at h
      · exact ih h hrest
      · cases h

/-- The parts of a source that declares a kind: the prelude, the declaration and the body. -/
structure IsDeclared (kind : Kind) (front : List Text) (line : Text) (body : List Text)
    (s : Source) : Prop where
  lines : s.lines = front ++ line :: body
  prelude : ∃ state, preludeState false false front = some state ∧ DeclaresAt state kind line

theorem exists_isDeclared (h : s.kind? = some kind) :
    ∃ front line body, IsDeclared kind front line body s := by
  obtain ⟨⟨d, kind'⟩, hd, rfl⟩ := Option.map_eq_some_iff.1 h
  obtain ⟨front, line, body, state, hlines, -, hstate, hdecl⟩ := declarationFrom?_eq_some hd
  exact ⟨front, line, body, hlines, state, hstate, hdecl⟩

namespace IsDeclared

theorem declaration? (h : IsDeclared kind front line body s) :
    s.declaration? = some (front.length, kind) := by
  obtain ⟨hlines, state, hstate, hdecl⟩ := h
  rw [Source.declaration?, hlines, declarationFrom?_append hstate, declarationFrom?_cons hdecl,
    Nat.zero_add]

theorem kind? (h : IsDeclared kind front line body s) : s.kind? = some kind := by
  rw [Source.kind?, h.declaration?]
  rfl

theorem declarationOf? (h : IsDeclared kind front line body s) :
    s.declarationOf? kind = some front.length := by
  rw [Source.declarationOf?, h.declaration?]
  simp

theorem body_eq (h : IsDeclared kind front line body s) :
    s.body kind = numbered (front.length + 1) body := by
  rw [Source.body, h.declarationOf?, Option.elim_some, numberedFrom_eq, h.lines]
  congr 1
  simp

/-- Another body below the same declaration. -/
theorem with_body (h : IsDeclared kind front line body s) {s' : Source} {body' : List Text}
    (hlines : s'.lines = front ++ line :: body') : IsDeclared kind front line body' s' :=
  ⟨hlines, h.prelude⟩

/-- Lines may be changed in the body and deleted everywhere but from the declaration and the fences
of front matter. -/
theorem of_filter (h : IsDeclared kind front line body s) {s' : Source} (keep : Nat → Bool)
    (f : Nat × Text → Text)
    (hlines : s'.lines = ((numbered 0 s.lines).filter fun p => keep p.1).map f)
    (hfence : ∀ p ∈ numbered 0 front, keep p.1 = false → trim p.2 ≠ frontMatterFence)
    (hline : keep front.length = true)
    (hsame : ∀ i l, i ≤ front.length → f (i, l) = l) :
    IsDeclared kind (((numbered 0 front).filter fun p => keep p.1).map Prod.snd) line
      (((numbered (front.length + 1) body).filter fun p => keep p.1).map f) s' := by
  obtain ⟨hs, state, hstate, hdecl⟩ := h
  refine ⟨?_, state, preludeState_filter hstate hfence, hdecl⟩
  have hfront : ((numbered 0 front).filter fun p => keep p.1).map f =
      ((numbered 0 front).filter fun p => keep p.1).map Prod.snd := by
    refine List.map_congr_left fun p hp => hsame p.1 p.2 ?_
    obtain ⟨-, hi⟩ := mem_numbered.1 (List.mem_filter.1 hp).1
    have := (List.getElem?_eq_some_iff.1 hi).1
    omega
  rw [hlines, hs, numbered_append, numbered_cons, Nat.zero_add, List.filter_append,
    List.filter_cons_of_pos (by exact hline), List.map_append, hfront, List.map_cons,
    hsame _ _ (Nat.le_refl _)]

end IsDeclared

end DiagramEditor.Source
