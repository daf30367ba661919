import DiagramEditor.Proofs.Text.Cut
import DiagramEditor.Proofs.Text.Numeral
import DiagramEditor.Proofs.Text.Quoted

/-!
# Texts without line breaks

A text is flat if it has neither a line feed nor a carriage return (`IsFlat`). Whatever is cut out
of a flat text is flat, and so is whatever is put together from flat texts.
-/

namespace DiagramEditor.Text

variable {s t a b rest field : Text} {c : Char} {p : Char → Bool}

/-- The text has no line break. -/
def IsFlat (s : Text) : Prop :=
  '\n' ∉ s ∧ '\r' ∉ s

instance (s : Text) : Decidable (IsFlat s) :=
  inferInstanceAs (Decidable ('\n' ∉ s ∧ '\r' ∉ s))

/-! ## Parts -/

theorem IsFlat.subset (h : IsFlat s) (hsub : t ⊆ s) : IsFlat t :=
  ⟨fun hc => h.1 (hsub hc), fun hc => h.2 (hsub hc)⟩

@[simp] theorem isFlat_nil : IsFlat [] := by decide

@[simp] theorem isFlat_cons : IsFlat (c :: s) ↔ (c ≠ '\n' ∧ c ≠ '\r') ∧ IsFlat s := by
  simp only [IsFlat, List.mem_cons, not_or]
  constructor
  · rintro ⟨⟨hn, hs⟩, hr, hs'⟩
    exact ⟨⟨Ne.symm hn, Ne.symm hr⟩, hs, hs'⟩
  · rintro ⟨⟨hn, hr⟩, hs, hs'⟩
    exact ⟨⟨Ne.symm hn, hs⟩, Ne.symm hr, hs'⟩

@[simp] theorem isFlat_append : IsFlat (s ++ t) ↔ IsFlat s ∧ IsFlat t := by
  simp only [IsFlat, List.mem_append, not_or]
  exact and_and_and_comm

theorem isFlat_of_all (h : s.all p = true) (hn : p '\n' = false) (hr : p '\r' = false) :
    IsFlat s := by
  have hall := List.all_eq_true.1 h
  constructor
  · intro hc
    rw [hall _ hc] at hn
    cases hn
  · intro hc
    rw [hall _ hc] at hr
    cases hr

theorem isFlat_ofNat (n : Nat) : IsFlat (ofNat n) :=
  isFlat_of_all (List.all_eq_true.2 fun _ => isDigit_of_mem_ofNat) rfl rfl

theorem isFlat_getD {o : Option Text} (ho : ∀ t ∈ o, IsFlat t) (h : IsFlat s) :
    IsFlat (o.getD s) := by
  cases o with
  | none => exact h
  | some t => exact ho t rfl

namespace IsFlat

theorem take (h : IsFlat s) (n : Nat) : IsFlat (s.take n) :=
  h.subset (List.take_subset n s)

theorem drop (h : IsFlat s) (n : Nat) : IsFlat (s.drop n) :=
  h.subset (List.drop_subset n s)

theorem takeWhile (h : IsFlat s) (p : Char → Bool) : IsFlat (s.takeWhile p) :=
  h.subset (List.takeWhile_subset p)

theorem dropWhile (h : IsFlat s) (p : Char → Bool) : IsFlat (s.dropWhile p) :=
  h.subset (List.dropWhile_subset p)

theorem indent (h : IsFlat s) : IsFlat (indent s) :=
  h.takeWhile isSpace

theorem trimStart (h : IsFlat s) : IsFlat (trimStart s) :=
  h.dropWhile isSpace

theorem dropEndWhile (h : IsFlat s) (p : Char → Bool) : IsFlat (dropEndWhile p s) := by
  rw [← dropEndWhile_append_takeWhile p s, isFlat_append] at h
  exact h.1

theorem trimEnd (h : IsFlat s) : IsFlat (trimEnd s) :=
  h.dropEndWhile isSpace

theorem trim (h : IsFlat s) : IsFlat (trim s) :=
  h.trimStart.trimEnd

theorem before (h : IsFlat s) (rest : Text) : IsFlat (before s rest) :=
  h.take _

theorem headAndRest (h : IsFlat s) :
    IsFlat (headAndRest s).1 ∧ IsFlat (headAndRest s).2 :=
  ⟨h.takeWhile _, (h.dropWhile _).trim⟩

theorem stripFront? {front : Text} (h : IsFlat s) (hs : stripFront? front s = some rest) :
    IsFlat rest :=
  h.subset (stripFront?_suffix hs).subset

theorem stripEnd? {tail : Text} (h : IsFlat s) (hs : stripEnd? tail s = some rest) :
    IsFlat rest := by
  obtain ⟨r, hr, rfl⟩ := Option.map_eq_some_iff.1 hs
  refine h.subset fun c hc => ?_
  exact List.mem_reverse.1 ((stripFront?_suffix hr).subset (List.mem_reverse.1 hc))

theorem stripKeyword? {keyword : Text} (h : IsFlat s) (hs : stripKeyword? keyword s = some rest) :
    IsFlat rest := by
  obtain ⟨r, hr, hs⟩ := Option.bind_eq_some_iff.1 hs
  obtain ⟨-, -, hs⟩ := Option.bind_eq_some_iff.1 hs
  obtain rfl := Option.some.inj hs
  exact (h.trim.stripFront? hr).trim

theorem cutChar? (h : IsFlat s) (hs : cutChar? c s = some (a, b)) : IsFlat a ∧ IsFlat b := by
  rw [(cutChar?_eq_some hs).1, isFlat_append, isFlat_cons] at h
  exact ⟨h.1, h.2.2⟩

theorem cutText? {needle : Text} (h : IsFlat s) (hs : cutText? needle s = some (a, b)) :
    IsFlat a ∧ IsFlat b := by
  rw [cutText?_eq_some hs, isFlat_append, isFlat_append] at h
  exact ⟨h.1.1, h.2⟩

end IsFlat

/-! ## Fields -/

/-- The texts have no line breaks. -/
def AllFlat (texts : List Text) : Prop :=
  ∀ text ∈ texts, IsFlat text

instance (texts : List Text) : Decidable (AllFlat texts) :=
  inferInstanceAs (Decidable (∀ text ∈ texts, IsFlat text))

@[simp] theorem allFlat_nil : AllFlat [] :=
  nofun

@[simp] theorem allFlat_cons {texts : List Text} :
    AllFlat (s :: texts) ↔ IsFlat s ∧ AllFlat texts :=
  List.forall_mem_cons

@[simp] theorem allFlat_append {texts texts' : List Text} :
    AllFlat (texts ++ texts') ↔ AllFlat texts ∧ AllFlat texts' :=
  List.forall_mem_append

@[simp] theorem allFlat_toList {o : Option Text} : AllFlat o.toList ↔ ∀ text ∈ o, IsFlat text := by
  cases o <;> simp

theorem AllFlat.subset {texts texts' : List Text} (h : AllFlat texts) (hsub : texts' ⊆ texts) :
    AllFlat texts' :=
  fun text htext => h text (hsub htext)

theorem subset_of_mem_consFirst {fields : List Text} (h : ∀ f ∈ fields, f ⊆ s)
    (hmem : field ∈ consFirst c fields) : field ⊆ c :: s := by
  cases fields with
  | nil =>
    rw [List.mem_singleton.1 hmem]
    exact List.cons_subset_cons c (List.nil_subset s)
  | cons first fields =>
    rcases List.mem_cons.1 hmem with rfl | hmem
    · exact List.cons_subset_cons c (h first List.mem_cons_self)
    · exact List.subset_cons_of_subset c (h field (List.mem_cons_of_mem first hmem))

theorem subset_of_mem_splitWhere (h : field ∈ splitWhere p s) : field ⊆ s := by
  induction s generalizing field with
  | nil =>
    rw [List.mem_singleton.1 h]
    exact List.nil_subset []
  | cons c s ih =>
    rw [splitWhere] at h
    split at h
    · rcases List.mem_cons.1 h with rfl | h
      exacts [List.nil_subset _, List.subset_cons_of_subset c (ih h)]
    · exact subset_of_mem_consFirst (fun f hf => ih hf) h

theorem subset_of_mem_splitOutsideFrom {q : Bool} (h : field ∈ splitOutsideFrom p q s) :
    field ⊆ s := by
  induction s generalizing field q with
  | nil =>
    rw [splitOutsideFrom, List.mem_singleton] at h
    rw [h]
    exact List.nil_subset []
  | cons c s ih =>
    rw [splitOutsideFrom] at h
    split at h
    · exact subset_of_mem_consFirst (fun f hf => ih hf) h
    · split at h
      · rcases List.mem_cons.1 h with rfl | h
        exacts [List.nil_subset _, List.subset_cons_of_subset c (ih h)]
      · exact subset_of_mem_consFirst (fun f hf => ih hf) h

theorem allFlat_splitOn (h : IsFlat s) (sep : Char) : AllFlat (splitOn sep s) :=
  fun _ hfield => h.subset (subset_of_mem_splitWhere hfield)

theorem allFlat_words (h : IsFlat s) : AllFlat (words s) :=
  fun _ hword => h.subset (subset_of_mem_splitWhere (List.mem_filter.1 hword).1)

theorem allFlat_splitOutside (h : IsFlat s) (sep : Char) : AllFlat (splitOutside sep s) :=
  fun _ hfield => h.subset (subset_of_mem_splitOutsideFrom hfield)

theorem allFlat_wordsOutside (h : IsFlat s) : AllFlat (wordsOutside s) :=
  fun _ hword => h.subset (subset_of_mem_splitOutsideFrom (List.mem_filter.1 hword).1)

theorem AllFlat.map {texts : List Text} {f : Text → Text} (h : AllFlat texts)
    (hf : ∀ s, IsFlat s → IsFlat (f s)) : AllFlat (texts.map f) := by
  intro text htext
  obtain ⟨s, hs, rfl⟩ := List.mem_map.1 htext
  exact hf s (h s hs)

theorem AllFlat.flatten {texts : List Text} (h : AllFlat texts) : IsFlat texts.flatten := by
  constructor <;> rintro hmem <;> obtain ⟨text, htext, hc⟩ := List.mem_flatten.1 hmem
  exacts [(h text htext).1 hc, (h text htext).2 hc]

theorem AllFlat.join {sep : Text} {texts : List Text} (h : AllFlat texts) (hsep : IsFlat sep) :
    IsFlat (join sep texts) :=
  (isFlat_append.2 ⟨hsep, h.flatten⟩).subset (join_subset sep texts)

/-! ## Quoted texts -/

theorem IsFlat.quote (h : IsFlat s) : IsFlat (quote s) :=
  (isFlat_append.2 ⟨by decide, h⟩).subset (quote_subset s)

theorem IsFlat.unquote (h : IsFlat s) : IsFlat (unquote s) :=
  (isFlat_cons.2 ⟨by decide, h⟩).subset (unquote_subset s)

theorem cutOutsideFrom?_eq_some {needle : Text} {q : Bool}
    (h : cutOutsideFrom? needle q s = some (a, b)) : s = a ++ needle ++ b := by
  induction s generalizing q a with
  | nil => cases h
  | cons c s ih =>
    have hcons : ∀ {q'}, ((cutOutsideFrom? needle q' s).map fun p => (c :: p.1, p.2)) = some (a, b) →
        c :: s = a ++ needle ++ b := by
      intro q' h
      obtain ⟨⟨a', b'⟩, h', heq⟩ := Option.map_eq_some_iff.1 h
      cases heq
      rw [ih h']
      rfl
    rw [cutOutsideFrom?] at h
    split at h
    · exact hcons h
    · split at h
      · next hrest =>
        cases h
        split at hrest
        · cases hrest
        · exact stripFront?_eq_some.1 hrest
      · exact hcons h

theorem IsFlat.cutOutside? {needle : Text} (h : IsFlat s) (hs : cutOutside? needle s = some (a, b)) :
    IsFlat a ∧ IsFlat b := by
  rw [cutOutsideFrom?_eq_some hs, isFlat_append, isFlat_append] at h
  exact ⟨h.1.1, h.2⟩

/-! ## Words -/

theorem isFlat_mapWordsFrom {f : Text → Text} (hf : ∀ w, IsFlat w → IsFlat (f w)) {word : Text}
    (hword : IsFlat word) (h : IsFlat s) : IsFlat (mapWordsFrom f word s) := by
  have hdone : ∀ {word}, IsFlat word → IsFlat (if word.isEmpty then [] else f word) := by
    intro word hword
    split
    exacts [isFlat_nil, hf _ hword]
  induction s generalizing word with
  | nil => exact hdone hword
  | cons c s ih =>
    obtain ⟨hc, hs⟩ := isFlat_cons.1 h
    rw [mapWordsFrom]
    split
    · exact ih (isFlat_append.2 ⟨hword, isFlat_cons.2 ⟨hc, isFlat_nil⟩⟩) hs
    · exact isFlat_append.2 ⟨hdone hword, isFlat_cons.2 ⟨hc, ih isFlat_nil hs⟩⟩

theorem AllFlat.mapAlternate {f : Text → Text} (hf : ∀ s, IsFlat s → IsFlat (f s))
    {texts : List Text} (h : AllFlat texts) : AllFlat (mapAlternate f texts) := by
  induction texts using mapAlternate.induct with
  | case1 => exact h
  | case2 s => exact allFlat_cons.2 ⟨hf s (h s List.mem_cons_self), allFlat_nil⟩
  | case3 s t texts ih =>
    obtain ⟨hs, h⟩ := allFlat_cons.1 h
    obtain ⟨ht, h⟩ := allFlat_cons.1 h
    exact allFlat_cons.2 ⟨hf s hs, allFlat_cons.2 ⟨ht, ih h⟩⟩

theorem IsFlat.replaceWord {old new line : Text} (h : IsFlat line) (hnew : IsFlat new) :
    IsFlat (replaceWord old new line) := by
  refine AllFlat.join (AllFlat.mapAlternate (fun s hs => ?_) (allFlat_splitOn h '"')) (by decide)
  refine isFlat_mapWordsFrom (fun w hw => ?_) isFlat_nil hs
  split
  exacts [hnew, hw]

end DiagramEditor.Text
