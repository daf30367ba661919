import DiagramEditor.Proofs.EntityRelation.Content

/-!
# Reading without the lines about an entity

The lines of a source are read twice, once as they are and once without those that stand in a block
of an entity or name it (`kept`). Behind every line the two readings have the same block open, but
for the block of that entity (`effects_kept`). So the second view lacks the entity and its
relationships and says the same about every other entity that some line declares
(`View.isWithout_of_kept`).
-/

namespace DiagramEditor.EntityRelation

open Text Source

variable {s s' : Source} {name other text : Text} {texts : List Text} {inside : Option Text}
  {effect : Effect}

/-- The line stands in a block of the entity or names it. -/
def IsAbout (name : Text) (inside : Option Text) (text : Text) : Prop :=
  inside = some name ∨ name ∈ (Effect.ofLine inside text).names

instance (name : Text) (inside : Option Text) (text : Text) :
    Decidable (IsAbout name inside text) :=
  inferInstanceAs (Decidable (_ ∨ _))

/-- The lines that are not about the entity. -/
def kept (name : Text) : (inside : Option Text) → List Text → List Text
  | _, [] => []
  | inside, text :: texts =>
    let rest := kept name ((Effect.ofLine inside text).next inside) texts
    if IsAbout name inside text then rest else text :: rest

/-- The block that is open, unless it is one of the entity. -/
def openWithout (name : Text) (inside : Option Text) : Option Text :=
  inside.filter (· ≠ name)

theorem openWithout_self (name : Text) : openWithout name (some name) = none := by
  simp [openWithout]

theorem openWithout_of_ne (h : inside ≠ some name) : openWithout name inside = inside := by
  cases inside with
  | none => rfl
  | some n => simpa [openWithout] using h

/-- A line about the entity opens and closes no other block. -/
theorem openWithout_next (h : IsAbout name inside text) :
    openWithout name ((Effect.ofLine inside text).next inside) = openWithout name inside := by
  by_cases hinside : inside = some name
  · rcases Effect.inside_cases hinside text with heffect | heffect | ⟨a, -, heffect⟩ <;> rw [heffect]
    · rfl
    · rw [hinside, openWithout_self]
      rfl
    · rfl
  · have hnames := h.resolve_left hinside
    cases heffect : Effect.ofLine inside text with
    | close owner =>
      rw [heffect, Effect.names, List.mem_singleton] at hnames
      exact absurd (hnames ▸ Effect.eq_some_of_close heffect) hinside
    | header header =>
      rw [heffect, Effect.names, List.mem_singleton] at hnames
      rw [Effect.eq_none_of_header heffect, Effect.next, ← hnames]
      split
      · exact openWithout_self name
      · rfl
    | _ => rfl

/-- A line that is not about the entity opens no block of it. -/
theorem next_ne (h : ¬IsAbout name inside text) :
    (Effect.ofLine inside text).next inside ≠ some name := by
  intro hnext
  rcases Effect.mem_names_of_next hnext with hmem | hmem
  · exact h (.inr hmem)
  · exact h (.inl hmem)

/-- What the lines do that are kept is what they did before. -/
theorem effects_kept (name : Text) (inside : Option Text) (texts : List Text) :
    (effects (openWithout name inside) (kept name inside texts)).filter (· ≠ .skip) =
      (effects inside texts).filter fun effect => effect ≠ .skip ∧ name ∉ effect.names := by
  induction texts generalizing inside with
  | nil => rfl
  | cons text texts ih =>
    have ih := ih ((Effect.ofLine inside text).next inside)
    rw [kept, effects]
    split
    · next habout =>
      rw [← openWithout_next habout, ih, List.filter_cons_of_neg]
      rw [decide_eq_true_eq, not_and]
      intro hskip hnames
      -- In its own block the entity is named by every line that does anything.
      rcases habout with hinside | hmem
      · rcases Effect.inside_cases hinside text with heffect | heffect | ⟨a, -, heffect⟩ <;>
          rw [heffect] at hskip hnames
        · exact hskip rfl
        · exact hnames List.mem_cons_self
        · exact hnames List.mem_cons_self
      · exact hnames hmem
    · next habout =>
      -- The line stands in no block of the entity and opens none, so both readings agree on it.
      obtain ⟨hinside, hnames⟩ := not_or.1 habout
      rw [openWithout_of_ne (next_ne habout)] at ih
      rw [openWithout_of_ne hinside, effects, List.filter_cons, List.filter_cons, ih]
      simp only [hnames, not_false_eq_true, and_true]

/-- Lines that are left out for what they are about. -/
theorem map_filter_eq_kept (keep : Nat → Bool) {r : Reader} {lines : List (Nat × Text)}
    (h : ∀ q ∈ r.places lines, keep q.1 = true ↔ ¬IsAbout name q.2.2 q.2.1) :
    (lines.filter fun p => keep p.1).map Prod.snd = kept name r.openEntity (lines.map Prod.snd) := by
  induction lines generalizing r with
  | nil => rfl
  | cons p lines ih =>
    obtain ⟨hp, hlines⟩ := List.forall_mem_cons.1 h
    have ih := ih hlines
    rw [Reader.openEntity_step] at ih
    rw [List.map_cons, kept, ← ih, List.filter_cons]
    dsimp only at hp ⊢
    by_cases habout : IsAbout name r.openEntity p.2
    · rw [if_pos habout, if_neg fun hkeep => hp.1 hkeep habout]
    · rw [if_neg habout, if_pos (hp.2 habout), List.map_cons]

/-! ## Views -/

/-- What changes nothing may be left out. -/
theorem foldl_filter_of_neutral {α β : Type} {f : β → α → β} {p : α → Bool} {l : List α}
    (h : ∀ a, p a = false → ∀ b, f b a = b) (b : β) : (l.filter p).foldl f b = l.foldl f b := by
  rw [List.foldl_filter]
  refine List.foldl_ext _ _ b fun b a _ => ?_
  cases hp : p a with
  | true => rfl
  | false => exact (h a hp b).symm

theorem Effect.onContent_of_mem_names (h : name ∈ effect.names) (hother : other ≠ name)
    (c : EntityContent) : effect.onContent other c = c := by
  cases effect with
  | addAttribute owner a =>
    rw [names, List.mem_singleton] at h
    exact if_neg (h ▸ Ne.symm hother)
  | header header =>
    rw [names, List.mem_singleton] at h
    exact if_neg (h ▸ Ne.symm hother)
  | _ => rfl

/-- The second view is the first one without the entity. -/
structure View.IsWithout (name : Text) (v w : View) : Prop where
  entity : w.entity? name = none
  relationships : w.relationships.map (·.relationship) =
    (v.relationships.map (·.relationship)).filter fun r => r.entity1 ≠ name ∧ r.entity2 ≠ name
  /-- An entity that some line declares is declared as it was. -/
  others : ∀ other e, other ≠ name → v.entity? other = some e → e.span.isSome = true →
    ∃ e', w.entity? other = some e' ∧ e'.content = e.content

section

-- The lines of the second source do what those of the first one do that do not name the entity.
variable (heffects : (effects none (bodyTexts s')).filter (· ≠ .skip) =
  (effects none (bodyTexts s)).filter fun effect => effect ≠ .skip ∧ name ∉ effect.names)
include heffects

theorem entity?_eq_none_of_effects : (View.ofSource s').entity? name = none := by
  have hnot : name ∉ (View.ofSource s').names := by
    rw [View.names_ofSource, mem_foldl_addName, List.mem_flatMap]
    rintro (hmem | ⟨effect, heffect, hname⟩)
    · cases hmem
    · have hskip : effect ≠ .skip := by
        rintro rfl
        cases hname
      have hmem : effect ∈ (effects none (bodyTexts s')).filter (· ≠ .skip) :=
        List.mem_filter.2 ⟨heffect, decide_eq_true hskip⟩
      rw [heffects] at hmem
      exact (of_decide_eq_true (List.mem_filter.1 hmem).2).2 hname
  have := View.map_content_entity? (View.ofSource s') name
  rwa [if_neg hnot, Option.map_eq_none_iff] at this

theorem relationships_of_effects :
    (View.ofSource s').relationships.map (·.relationship) =
      ((View.ofSource s).relationships.map (·.relationship)).filter fun r =>
        r.entity1 ≠ name ∧ r.entity2 ≠ name := by
  have hskips : ∀ l : List Effect, (l.filter (· ≠ .skip)).filterMap Effect.relationship? =
      l.filterMap Effect.relationship? := by
    intro l
    rw [List.filterMap_filter]
    refine List.filterMap_congr fun effect _ => ?_
    cases effect <;> rfl
  rw [View.map_relationship_ofSource, View.map_relationship_ofSource, ← hskips, heffects,
    List.filterMap_filter, List.filter_filterMap]
  refine List.filterMap_congr fun effect _ => ?_
  cases effect with
  | relationship r =>
    simp only [Effect.names, Effect.relationship?, List.mem_cons, List.not_mem_nil, or_false, not_or,
      ne_eq, reduceCtorEq, not_false_eq_true, true_and, eq_comm (a := name), Option.filter_some]
  | _ => exact ite_self none

theorem content_of_effects (hother : other ≠ name) :
    (View.ofSource s').content other = (View.ofSource s).content other := by
  rw [View.content_ofSource, View.content_ofSource,
    ← foldl_filter_of_neutral (p := fun effect => effect ≠ .skip), heffects,
    foldl_filter_of_neutral]
  · intro effect heffect c
    by_cases hskip : effect = .skip
    · rw [hskip]
      rfl
    · refine Effect.onContent_of_mem_names ?_ hother c
      by_contra hnames
      exact of_decide_eq_false heffect ⟨hskip, hnames⟩
  · intro effect heffect c
    rw [show effect = .skip by simpa using heffect]
    rfl

end

namespace View

variable {v w : View}

/-- What a line has declared is known. -/
theorem exists_of_declared (h : (v.content name).declared = true) :
    ∃ e, v.entity? name = some e ∧ e.content = v.content name := by
  rw [content] at h ⊢
  cases he : v.entity? name with
  | none => rw [he] at h; cases h
  | some e => exact ⟨e, rfl, rfl⟩

theorem isWithout_of_kept (h : bodyTexts s' = kept name none (bodyTexts s)) :
    IsWithout name (View.ofSource s) (View.ofSource s') := by
  have heffects := effects_kept name none (bodyTexts s)
  rw [show openWithout name none = none from rfl, ← h] at heffects
  refine ⟨entity?_eq_none_of_effects heffects, relationships_of_effects heffects,
    fun other e hother he hspan => ?_⟩
  have hcontent : (View.ofSource s).content other = e.content := by
    rw [content, he]
    rfl
  have hcontent' := (content_of_effects heffects hother).trans hcontent
  rw [← hcontent']
  -- What is declared has a record, and the old record says that it is.
  refine exists_of_declared ?_
  rw [hcontent']
  exact hspan

end View

end DiagramEditor.EntityRelation
