import DiagramEditor.Text.Quoted
import DiagramEditor.Proofs.Text.Cut
import DiagramEditor.Proofs.Text.Trim

/-!
# Searching outside of quotes

Whether a place of a text is inside double quotes depends on the number of quotes before it
(`quotedAfter`). Two properties then say everything about the searches: what stands before the first
match has no match outside of its quotes (`FreeOutside`) and closes every quote it opens
(`cutOutside?_singleton_eq_some`); and fields with both properties come back from splitting
(`splitOutside_join`).

Blanks decide neither of the two, so both can be read off the characters that are no blanks
(`quotedAfter_dense`, `freeOutside_dense`).

A label comes back from its quotes unless the entity of a quote stands in it already
(`unquote_quote`), and no label that was read has one (`not_infix_unquote`). Without quotes around it
a label comes back unless it brings a pair of its own (`unquote_eq_self_iff`).
-/

namespace DiagramEditor.Text

variable {p r : Char → Bool} {q : Bool} {s t a b : Text} {c : Char}

/-- The text ends inside double quotes, where `q` says whether it starts inside. -/
def quotedAfter (q : Bool) (s : Text) : Bool :=
  s.foldl (fun q c => if c = '"' then !q else q) q

/-- No character outside of the double quotes satisfies `p`, where `q` says whether the text starts
inside of them. -/
def FreeOutside (p : Char → Bool) : (q : Bool) → Text → Prop
  | _, [] => True
  | q, c :: s =>
    if c = '"' then FreeOutside p (!q) s else (q = false → p c = false) ∧ FreeOutside p q s

/-- The text closes every quote it opens and satisfies `p` nowhere outside of them. -/
def IsClosed (p : Char → Bool) (s : Text) : Prop :=
  FreeOutside p false s ∧ quotedAfter false s = false

@[simp] theorem quotedAfter_nil (q : Bool) : quotedAfter q [] = q := rfl

theorem quotedAfter_cons_quote (q : Bool) (s : Text) :
    quotedAfter q ('"' :: s) = quotedAfter (!q) s := rfl

theorem quotedAfter_cons (q : Bool) (hc : c ≠ '"') (s : Text) :
    quotedAfter q (c :: s) = quotedAfter q s := by
  rw [quotedAfter, List.foldl_cons, if_neg hc, quotedAfter]

theorem quotedAfter_append (q : Bool) (s t : Text) :
    quotedAfter q (s ++ t) = quotedAfter (quotedAfter q s) t :=
  List.foldl_append

theorem quotedAfter_of_not_mem (h : '"' ∉ s) (q : Bool) : quotedAfter q s = q := by
  induction s with
  | nil => rfl
  | cons c s ih =>
    rw [List.mem_cons, not_or] at h
    rw [quotedAfter_cons q (Ne.symm h.1), ih h.2]

theorem freeOutside_nil (p : Char → Bool) (q : Bool) : FreeOutside p q [] := trivial

theorem freeOutside_cons_quote : FreeOutside p q ('"' :: s) ↔ FreeOutside p (!q) s := by
  rw [FreeOutside, if_pos rfl]

theorem freeOutside_cons (hc : c ≠ '"') :
    FreeOutside p q (c :: s) ↔ (q = false → p c = false) ∧ FreeOutside p q s := by
  rw [FreeOutside, if_neg hc]

theorem freeOutside_append :
    FreeOutside p q (s ++ t) ↔ FreeOutside p q s ∧ FreeOutside p (quotedAfter q s) t := by
  induction s generalizing q with
  | nil => simp [freeOutside_nil]
  | cons c s ih =>
    rw [List.cons_append]
    by_cases hc : c = '"'
    · subst hc
      rw [freeOutside_cons_quote, freeOutside_cons_quote, quotedAfter_cons_quote, ih]
    · rw [freeOutside_cons hc, freeOutside_cons hc, quotedAfter_cons q hc, ih, and_assoc]

theorem beq_eq_false_of_isSpace {d : Char} (hd : isSpace d = false) (c : Char)
    (hc : isSpace c = true) : (c == d) = false := by
  rw [beq_eq_false_iff_ne]
  rintro rfl
  rw [hd] at hc
  contradiction

theorem isSpace_quote : isSpace '"' = false := by decide

/-- Blanks are no quotes. -/
theorem quotedAfter_dense (q : Bool) (s : Text) : quotedAfter q (dense s) = quotedAfter q s := by
  induction s generalizing q with
  | nil => rfl
  | cons c s ih =>
    by_cases hc : c = '"'
    · subst hc
      rw [dense_cons_of_not isSpace_quote, quotedAfter_cons_quote, quotedAfter_cons_quote, ih]
    · rw [quotedAfter_cons q hc]
      by_cases hs : isSpace c = true
      · rw [dense_cons_of_isSpace hs, ih]
      · rw [dense_cons_of_not (by simpa using hs), quotedAfter_cons q hc, ih]

/-- Blanks are no matches of a predicate that holds of no blank. -/
theorem freeOutside_dense (hp : ∀ c, isSpace c = true → p c = false) :
    FreeOutside p q (dense s) ↔ FreeOutside p q s := by
  induction s generalizing q with
  | nil => rfl
  | cons c s ih =>
    by_cases hc : c = '"'
    · subst hc
      rw [dense_cons_of_not isSpace_quote, freeOutside_cons_quote, freeOutside_cons_quote, ih]
    · rw [freeOutside_cons hc]
      by_cases hs : isSpace c = true
      · rw [dense_cons_of_isSpace hs, ih]
        exact ⟨fun h => ⟨fun _ => hp c hs, h⟩, And.right⟩
      · rw [dense_cons_of_not (by simpa using hs), freeOutside_cons hc, ih]

namespace IsClosed

theorem nil (p : Char → Bool) : IsClosed p [] := ⟨trivial, rfl⟩

theorem append (hs : IsClosed p s) (ht : IsClosed p t) : IsClosed p (s ++ t) :=
  ⟨freeOutside_append.2 ⟨hs.1, by rw [hs.2]; exact ht.1⟩, by rw [quotedAfter_append, hs.2, ht.2]⟩

theorem singleton (hc : c ≠ '"') (hp : p c = false) : IsClosed p [c] :=
  ⟨(freeOutside_cons hc).2 ⟨fun _ => hp, trivial⟩, by rw [quotedAfter_cons _ hc]; rfl⟩

/-- Two texts that differ in blanks only are both closed or both not. -/
theorem of_dense_eq (hp : ∀ c, isSpace c = true → p c = false) (h : dense s = dense t)
    (hs : IsClosed p s) : IsClosed p t :=
  ⟨by rw [← freeOutside_dense hp, ← h, freeOutside_dense hp]; exact hs.1,
    by rw [← quotedAfter_dense, ← h, quotedAfter_dense]; exact hs.2⟩

end IsClosed

/-- The inside of quotes without any quote is free. -/
theorem freeOutside_true (h : '"' ∉ s) : FreeOutside p true s ∧ quotedAfter true s = true := by
  induction s with
  | nil => exact ⟨trivial, rfl⟩
  | cons c s ih =>
    rw [List.mem_cons, not_or] at h
    obtain ⟨hfree, hafter⟩ := ih h.2
    have hc := Ne.symm h.1
    exact ⟨(freeOutside_cons hc).2 ⟨fun hq => absurd hq (by decide), hfree⟩,
      by rw [quotedAfter_cons _ hc, hafter]⟩

theorem isClosed_of_forall (h : ∀ c ∈ s, c ≠ '"' ∧ p c = false) : IsClosed p s := by
  induction s with
  | nil => exact .nil p
  | cons c s ih =>
    obtain ⟨hc, hp⟩ := h c List.mem_cons_self
    exact (IsClosed.singleton hc hp).append (ih fun d hd => h d (List.mem_cons_of_mem c hd))

/-! ## Cutting -/

/-- What stands before the first `c` outside of quotes: a closed text without it. -/
theorem cutOutsideFrom?_singleton_eq_some (hc : c ≠ '"') :
    cutOutsideFrom? [c] q s = some (a, b) ↔
      s = a ++ c :: b ∧ FreeOutside (· == c) q a ∧ quotedAfter q a = false := by
  induction s generalizing q a with
  | nil => simp [cutOutsideFrom?]
  | cons d s ih =>
    rw [cutOutsideFrom?]
    by_cases hd : d = '"'
    · subst hd
      simp only [if_true, Option.map_eq_some_iff, Prod.exists, Prod.mk.injEq]
      constructor
      · rintro ⟨a', b', h, rfl, rfl⟩
        obtain ⟨rfl, hf, hq⟩ := ih.1 h
        exact ⟨rfl, freeOutside_cons_quote.2 hf, hq⟩
      · rintro ⟨h, hf, hq⟩
        cases a with
        | nil => exact absurd (List.cons.inj h).1.symm hc
        | cons e a =>
          obtain ⟨rfl, rfl⟩ := List.cons.inj h
          exact ⟨a, b, ih.2 ⟨rfl, freeOutside_cons_quote.1 hf, hq⟩, rfl, rfl⟩
    · rw [if_neg hd]
      cases q with
      | true =>
        simp only [if_true, Option.map_eq_some_iff, Prod.exists, Prod.mk.injEq]
        constructor
        · rintro ⟨a', b', h, rfl, rfl⟩
          obtain ⟨rfl, hf, hq⟩ := ih.1 h
          exact ⟨rfl, (freeOutside_cons hd).2 ⟨nofun, hf⟩, by rwa [quotedAfter_cons _ hd]⟩
        · rintro ⟨h, hf, hq⟩
          cases a with
          | nil => simp at hq
          | cons e a =>
            obtain ⟨rfl, rfl⟩ := List.cons.inj h
            rw [quotedAfter_cons _ hd] at hq
            exact ⟨a, b, ih.2 ⟨rfl, ((freeOutside_cons hd).1 hf).2, hq⟩, rfl, rfl⟩
      | false =>
        by_cases hdc : c = d
        · subst hdc
          simp only [Bool.false_eq_true, if_false, stripFront?, if_true, Option.some.injEq,
            Prod.mk.injEq]
          constructor
          · rintro ⟨rfl, rfl⟩
            exact ⟨by simp, trivial, rfl⟩
          · rintro ⟨h, hf, -⟩
            cases a with
            | nil => exact ⟨rfl, by simpa using h⟩
            | cons e a =>
              obtain ⟨rfl, -⟩ := List.cons.inj h
              simpa using ((freeOutside_cons hd).1 hf).1 rfl
        · simp only [Bool.false_eq_true, if_false, stripFront?, if_neg hdc, Option.map_eq_some_iff,
            Prod.exists, Prod.mk.injEq]
          constructor
          · rintro ⟨a', b', h, rfl, rfl⟩
            obtain ⟨rfl, hf, hq⟩ := ih.1 h
            refine ⟨rfl, (freeOutside_cons hd).2 ⟨fun _ => ?_, hf⟩, by rwa [quotedAfter_cons _ hd]⟩
            exact beq_false_of_ne (Ne.symm hdc)
          · rintro ⟨h, hf, hq⟩
            cases a with
            | nil => exact absurd (List.cons.inj h).1.symm hdc
            | cons e a =>
              obtain ⟨rfl, rfl⟩ := List.cons.inj h
              rw [quotedAfter_cons _ hd] at hq
              exact ⟨a, b, ih.2 ⟨rfl, ((freeOutside_cons hd).1 hf).2, hq⟩, rfl, rfl⟩

theorem cutOutside?_singleton_eq_some (hc : c ≠ '"') :
    cutOutside? [c] s = some (a, b) ↔ s = a ++ c :: b ∧ IsClosed (· == c) a :=
  cutOutsideFrom?_singleton_eq_some hc

/-! ## Splitting -/

theorem splitOutsideFrom_eq_singleton (h : FreeOutside p q s) : splitOutsideFrom p q s = [s] := by
  induction s generalizing q with
  | nil => rfl
  | cons c s ih =>
    rw [splitOutsideFrom]
    by_cases hc : c = '"'
    · subst hc
      rw [if_pos rfl, ih (freeOutside_cons_quote.1 h)]
      rfl
    · obtain ⟨hp, hs⟩ := (freeOutside_cons hc).1 h
      have : (p c && !q) = false := by cases q <;> simp_all
      rw [if_neg hc, this, if_neg (by simp), ih hs]
      rfl

theorem splitOutsideFrom_append_cons (hs : FreeOutside p q s) (hq : quotedAfter q s = false)
    (hc : c ≠ '"') (hp : p c = true) (t : Text) :
    splitOutsideFrom p q (s ++ c :: t) = s :: splitOutsideFrom p false t := by
  induction s generalizing q with
  | nil =>
    rw [quotedAfter_nil] at hq
    rw [List.nil_append, splitOutsideFrom, if_neg hc, hq, hp]
    rfl
  | cons d s ih =>
    rw [List.cons_append, splitOutsideFrom]
    by_cases hd : d = '"'
    · subst hd
      rw [if_pos rfl, ih (freeOutside_cons_quote.1 hs) hq]
      rfl
    · obtain ⟨hpd, hs⟩ := (freeOutside_cons hd).1 hs
      have : (p d && !q) = false := by cases q <;> simp_all
      rw [quotedAfter_cons _ hd] at hq
      rw [if_neg hd, this, if_neg (by simp), ih hs hq]
      rfl

/-- Closed fields come back. -/
theorem splitOutsideFrom_join {sep : Char} (hsep : sep ≠ '"') (hp : p sep = true)
    {fields : List Text} (hne : fields ≠ []) (h : ∀ field ∈ fields, IsClosed p field) :
    splitOutsideFrom p false (join [sep] fields) = fields := by
  induction fields with
  | nil => contradiction
  | cons field fields ih =>
    obtain ⟨hf, hq⟩ := h field List.mem_cons_self
    by_cases hnil : fields = []
    · subst hnil
      rw [join_singleton, splitOutsideFrom_eq_singleton hf]
    · rw [join_cons _ _ hnil, List.append_assoc, List.singleton_append,
        splitOutsideFrom_append_cons hf hq hsep hp]
      exact congrArg _ (ih hnil fun g hg => h g (List.mem_cons_of_mem field hg))

theorem splitOutside_join {sep : Char} (hsep : sep ≠ '"') {fields : List Text} (hne : fields ≠ [])
    (h : ∀ field ∈ fields, IsClosed (· == sep) field) :
    splitOutside sep (join [sep] fields) = fields :=
  splitOutsideFrom_join (p := (· == sep)) hsep (beq_self_eq_true sep) hne h

/-- Closed words come back. -/
theorem wordsOutside_join {words : List Text} (hne : words ≠ [])
    (h : ∀ word ∈ words, word ≠ [] ∧ IsClosed isSpace word) :
    wordsOutside (join [' '] words) = words := by
  rw [wordsOutside, splitOutsideFrom_join (by decide) (by decide) hne fun word hw => (h word hw).2]
  exact List.filter_eq_self.2 fun word hw => by simpa using (h word hw).1

/-- The fields of a text that closes its quotes close theirs, and what the text has nowhere outside
of its quotes they have nowhere either. -/
theorem splitOutsideFrom_fields (hr : FreeOutside r q s) (hq : quotedAfter q s = false) :
    ∃ field fields, splitOutsideFrom p q s = field :: fields ∧
      (FreeOutside p q field ∧ FreeOutside r q field ∧ quotedAfter q field = false) ∧
      ∀ g ∈ fields, IsClosed p g ∧ IsClosed r g := by
  induction s generalizing q with
  | nil => exact ⟨[], [], rfl, ⟨trivial, trivial, hq⟩, by simp⟩
  | cons c s ih =>
    rw [splitOutsideFrom]
    by_cases hc : c = '"'
    · subst hc
      obtain ⟨field, fields, hs, ⟨hf, hfr, hfq⟩, hrest⟩ := ih (freeOutside_cons_quote.1 hr) hq
      rw [if_pos rfl, hs]
      exact ⟨'"' :: field, fields, rfl, ⟨freeOutside_cons_quote.2 hf, freeOutside_cons_quote.2 hfr,
        hfq⟩, hrest⟩
    · obtain ⟨hrc, hr⟩ := (freeOutside_cons hc).1 hr
      rw [quotedAfter_cons _ hc] at hq
      obtain ⟨field, fields, hs, ⟨hf, hfr, hfq⟩, hrest⟩ := ih hr hq
      rw [if_neg hc, hs]
      split
      · next hsep =>
        -- The field that ends here starts outside of quotes, and so does the next one.
        obtain rfl : q = false := by cases q <;> simp_all
        refine ⟨[], _, rfl, ⟨trivial, trivial, rfl⟩, ?_⟩
        intro g hg
        rcases List.mem_cons.1 hg with rfl | hg
        exacts [⟨⟨hf, hfq⟩, ⟨hfr, hfq⟩⟩, hrest g hg]
      · next hsep =>
        refine ⟨c :: field, fields, rfl, ⟨(freeOutside_cons hc).2 ⟨?_, hf⟩,
          (freeOutside_cons hc).2 ⟨hrc, hfr⟩, by rwa [quotedAfter_cons _ hc]⟩, hrest⟩
        rintro rfl
        simpa using hsep

theorem isClosed_of_mem_splitOutside {sep : Char} {field : Text} (hs : IsClosed r s)
    (h : field ∈ splitOutside sep s) : IsClosed (· == sep) field ∧ IsClosed r field := by
  obtain ⟨first, fields, heq, ⟨hf, hfr, hfq⟩, hrest⟩ :=
    splitOutsideFrom_fields (p := (· == sep)) hs.1 hs.2
  rw [splitOutside, heq] at h
  rcases List.mem_cons.1 h with rfl | h
  exacts [⟨⟨hf, hfq⟩, ⟨hfr, hfq⟩⟩, hrest field h]

/-! ## Quoting -/

/-- Quoting brings no characters but quotes and their entity. -/
theorem quote_subset (s : Text) : quote s ⊆ '"' :: quoteEntity ++ s := by
  intro c hc
  rw [quote, List.cons_append, List.mem_cons, List.mem_append, List.mem_flatMap] at hc
  rw [List.cons_append, List.mem_cons, List.mem_append]
  rcases hc with hc | ⟨d, hd, hc⟩ | hc
  · exact .inl hc
  · split at hc
    · exact .inr (.inl hc)
    · exact .inr (.inr (List.mem_singleton.1 hc ▸ hd))
  · exact .inl (List.mem_singleton.1 hc)

theorem replaceAllIn_subset (old new : Text) (n : Nat) (s : Text) :
    replaceAllIn old new n s ⊆ new ++ s := by
  induction n generalizing s with
  | zero => exact List.subset_append_right new s
  | succ n ih =>
    rw [replaceAllIn.eq_def]
    dsimp only
    split
    · next rest hrest =>
      refine List.append_subset.2 ⟨List.subset_append_left new _, List.Subset.trans (ih rest) ?_⟩
      exact List.append_subset.2 ⟨List.subset_append_left new _,
        List.subset_append_of_subset_right new (stripFront?_suffix hrest).subset⟩
    · exact List.nil_subset _
    · next c s _ =>
      refine List.cons_subset.2 ⟨List.mem_append_right new List.mem_cons_self,
        List.Subset.trans (ih s) ?_⟩
      exact List.append_subset.2 ⟨List.subset_append_left new _,
        List.subset_append_of_subset_right new (List.subset_cons_self c s)⟩

theorem stripQuotes_subset (s : Text) : stripQuotes s ⊆ s := by
  rw [stripQuotes.eq_def]
  split
  · next rest =>
    rw [stripEnd?]
    cases hrest : stripFront? ['"'].reverse rest.reverse with
    | none => exact List.Subset.refl _
    | some inner =>
      intro c hc
      have hmem : c ∈ rest.reverse := (stripFront?_suffix hrest).subset (List.mem_reverse.1 hc)
      exact List.mem_cons_of_mem _ (List.mem_reverse.1 hmem)
  · exact List.Subset.refl _

/-- Unquoting brings no characters but quotes. -/
theorem unquote_subset (s : Text) : unquote s ⊆ '"' :: s := by
  refine List.Subset.trans (replaceAllIn_subset ..) (List.cons_subset_cons '"' ?_)
  exact List.Subset.trans (stripQuotes_subset _) fun c hc => by_contra fun h => not_mem_trim h hc

/-! ## Quoting and back -/

/-- The quotes of a label written as entities. -/
def escape (label : Text) : Text :=
  label.flatMap fun c => if c = '"' then quoteEntity else [c]

theorem quote_eq_escape (label : Text) : quote label = '"' :: (escape label ++ ['"']) := rfl

theorem not_mem_escape (label : Text) : '"' ∉ escape label := by
  simp only [escape, List.mem_flatMap, not_exists, not_and]
  intro c _
  split
  · decide
  · next hne => simpa using Ne.symm hne

/-- A quoted label is closed. -/
theorem isClosed_quote (p : Char → Bool) (label : Text) : IsClosed p (quote label) := by
  obtain ⟨hfree, hafter⟩ := freeOutside_true (p := p) (not_mem_escape label)
  rw [quote_eq_escape]
  refine ⟨freeOutside_cons_quote.2 (freeOutside_append.2 ⟨hfree, ?_⟩), ?_⟩
  · rw [Bool.not_false, hafter]
    exact freeOutside_cons_quote.2 trivial
  · rw [quotedAfter_cons_quote, quotedAfter_append, Bool.not_false, hafter]
    rfl

theorem isTrimmed_quote (label : Text) : IsTrimmed (quote label) := by
  refine ⟨?_, ?_⟩
  · rintro _ ⟨⟩
    decide
  · rw [quote_eq_escape, ← List.cons_append, List.getLast?_concat]
    rintro _ ⟨⟩
    decide

theorem escape_cons_quote (label : Text) : escape ('"' :: label) = quoteEntity ++ escape label := rfl

theorem escape_cons (hc : c ≠ '"') (label : Text) : escape (c :: label) = c :: escape label := by
  rw [escape, List.flatMap_cons, if_neg hc]
  rfl

theorem escape_of_not_mem {label : Text} (h : '"' ∉ label) : escape label = label := by
  induction label with
  | nil => rfl
  | cons c label ih =>
    rw [List.mem_cons, not_or] at h
    rw [escape_cons (Ne.symm h.1), ih h.2]

theorem mem_quote_of_mem {label : Text} (hc : c ≠ '"') (h : c ∈ label) : c ∈ quote label := by
  rw [quote_eq_escape, List.mem_cons, List.mem_append, escape, List.mem_flatMap]
  exact .inr (.inl ⟨c, h, by simp [hc]⟩)

/-- A front without the character that entities begin with was not written by escaping. -/
theorem prefix_of_prefix_escape {front label : Text} (hfront : '#' ∉ front)
    (h : front <+: escape label) : front <+: label := by
  induction label generalizing front with
  | nil => exact h
  | cons c label ih =>
    cases front with
    | nil => exact List.nil_prefix
    | cons d front =>
      rw [List.mem_cons, not_or] at hfront
      by_cases hc : c = '"'
      · subst hc
        rw [escape_cons_quote] at h
        exact absurd (List.cons_prefix_cons.1 h).1.symm hfront.1
      · rw [escape_cons hc, List.cons_prefix_cons] at h
        exact List.cons_prefix_cons.2 ⟨h.1, ih hfront.2 h.2⟩

theorem replaceAllIn_escape {n : Nat} {label : Text} (hn : (escape label).length ≤ n)
    (h : ¬quoteEntity <:+: label) : replaceAllIn quoteEntity ['"'] n (escape label) = label := by
  induction label generalizing n with
  | nil => cases n <;> rfl
  | cons c label ih =>
    have hrest : ¬quoteEntity <:+: label := fun hin => h (List.infix_cons hin)
    by_cases hc : c = '"'
    · subst hc
      rw [escape_cons_quote, List.length_append, show quoteEntity.length = 6 from rfl] at hn
      obtain ⟨n, rfl⟩ : ∃ m, n = m + 1 := ⟨n - 1, by omega⟩
      rw [escape_cons_quote, replaceAllIn.eq_def]
      dsimp only
      rw [stripFront?_self_append]
      exact congrArg _ (ih (by omega) hrest)
    · rw [escape_cons hc, List.length_cons] at hn
      obtain ⟨n, rfl⟩ : ∃ m, n = m + 1 := ⟨n - 1, by omega⟩
      have hno : stripFront? quoteEntity (c :: escape label) = none := by
        refine Option.eq_none_iff_forall_ne_some.2 fun rest hrest => h ?_
        obtain ⟨hhead, htail⟩ := List.cons_prefix_cons.1
          (⟨rest, (stripFront?_eq_some.1 hrest).symm⟩ : quoteEntity <+: c :: escape label)
        refine List.IsPrefix.isInfix (List.cons_prefix_cons.2 ⟨hhead, ?_⟩)
        exact prefix_of_prefix_escape (by decide) htail
      rw [escape_cons hc, replaceAllIn.eq_def]
      dsimp only
      rw [hno]
      exact congrArg _ (ih (by omega) hrest)

/-- Nothing is replaced where the old text does not occur. -/
theorem replaceAllIn_eq_self {old : Text} (h : ¬old <:+: s) (new : Text) (n : Nat) :
    replaceAllIn old new n s = s := by
  induction n generalizing s with
  | zero => rfl
  | succ n ih =>
    have hno : stripFront? old s = none := by
      refine Option.eq_none_iff_forall_ne_some.2 fun rest hrest => h ?_
      exact List.IsPrefix.isInfix ⟨rest, (stripFront?_eq_some.1 hrest).symm⟩
    rw [replaceAllIn.eq_def]
    dsimp only
    rw [hno]
    cases s with
    | nil => rfl
    | cons c s => exact congrArg (c :: ·) (ih fun hin => h (List.infix_cons hin))

/-- The text stands between two double quotes. -/
def IsQuoted (s : Text) : Prop :=
  ∃ inner, s = '"' :: (inner ++ ['"'])

theorem stripQuotes_quoted (inner : Text) : stripQuotes ('"' :: (inner ++ ['"'])) = inner := by
  have hend : stripEnd? ['"'] (inner ++ ['"']) = some inner := by
    simp [stripEnd?, stripFront?]
  rw [stripQuotes, hend]
  rfl

theorem stripQuotes_eq_self (h : ¬IsQuoted s) : stripQuotes s = s := by
  rw [stripQuotes.eq_def]
  split
  · next rest =>
    cases hend : stripEnd? ['"'] rest with
    | none => rfl
    | some inner =>
      obtain ⟨back, hback, rfl⟩ := Option.map_eq_some_iff.1 hend
      refine absurd ⟨back.reverse, ?_⟩ h
      rw [← List.reverse_reverse rest, stripFront?_eq_some.1 hback]
      simp
  · rfl

theorem stripQuotes_eq_self_iff : stripQuotes s = s ↔ ¬IsQuoted s := by
  refine ⟨?_, stripQuotes_eq_self⟩
  rintro h ⟨inner, rfl⟩
  rw [stripQuotes_quoted] at h
  have hlength := congrArg List.length h
  simp only [List.length_cons, List.length_append] at hlength
  omega

instance (s : Text) : Decidable (IsQuoted s) :=
  decidable_of_iff (stripQuotes s ≠ s) (by rw [ne_eq, stripQuotes_eq_self_iff, not_not])

theorem isInfix_stripQuotes (s : Text) : stripQuotes s <:+: s := by
  by_cases h : IsQuoted s
  · obtain ⟨inner, rfl⟩ := h
    rw [stripQuotes_quoted]
    exact ⟨['"'], ['"'], by simp⟩
  · simp only [stripQuotes_eq_self h, List.infix_refl]

/-- A label is read as it was before it was quoted, unless the entity stands in it already. -/
theorem unquote_quote {label : Text} (h : ¬quoteEntity <:+: label) : unquote (quote label) = label := by
  rw [unquote, trim_eq_self (isTrimmed_quote label), quote_eq_escape, stripQuotes_quoted, replaceAll,
    replaceAllIn_escape (Nat.le_refl _) h]

/-- A text without entities loses the blanks and the quotes around it and nothing else. -/
theorem unquote_eq_of_not_isInfix (h : ¬quoteEntity <:+: s) : unquote s = stripQuotes (trim s) := by
  have hinfix : trim s <:+: s := by
    obtain ⟨w, v, -, -, hs⟩ := exists_append_trim_append s
    exact ⟨w, v, hs⟩
  exact replaceAllIn_eq_self (fun hin => h ((hin.trans (isInfix_stripQuotes _)).trans hinfix)) _ _

/-- A text without quotes and entities is read as it is. -/
theorem unquote_of_not_mem (hquote : '"' ∉ s) (h : ¬quoteEntity <:+: s) : unquote s = trim s := by
  rw [unquote_eq_of_not_isInfix h, stripQuotes_eq_self]
  rintro ⟨inner, hinner⟩
  exact not_mem_trim hquote (hinner ▸ List.mem_cons_self)

theorem unquote_eq_self_iff (htrim : IsTrimmed s) (h : ¬quoteEntity <:+: s) :
    unquote s = s ↔ ¬IsQuoted s := by
  rw [unquote_eq_of_not_isInfix h, trim_eq_self htrim, stripQuotes_eq_self_iff]

/-- What is in front of the first written entity stood there before. -/
theorem prefix_of_prefix_replaceAllIn {n : Nat} {old front : Text} (hfront : '"' ∉ front)
    (h : front <+: replaceAllIn old ['"'] n s) : front <+: s := by
  induction n generalizing s front with
  | zero => exact h
  | succ n ih =>
    cases front with
    | nil => exact List.nil_prefix
    | cons d front =>
      rw [List.mem_cons, not_or] at hfront
      rw [replaceAllIn.eq_def] at h
      dsimp only at h
      split at h
      · exact absurd (List.cons_prefix_cons.1 h).1.symm hfront.1
      · exact h
      · obtain ⟨hhead, htail⟩ := List.cons_prefix_cons.1 h
        exact List.cons_prefix_cons.2 ⟨hhead, ih hfront.2 htail⟩

/-- A label that was read has no entity in it. -/
theorem not_infix_unquote (raw : Text) : ¬quoteEntity <:+: unquote raw := by
  have hall : ∀ (n : Nat) (s : Text), s.length ≤ n →
      ¬quoteEntity <:+: replaceAllIn quoteEntity ['"'] n s := by
    intro n
    induction n with
    | zero =>
      intro s hs
      rw [List.length_eq_zero_iff.1 (Nat.le_zero.1 hs)]
      decide
    | succ n ih =>
      intro s hs h
      rw [replaceAllIn.eq_def] at h
      dsimp only at h
      split at h
      · next rest hrest =>
        rw [stripFront?_eq_some.1 hrest, List.length_append,
          show quoteEntity.length = 6 from rfl] at hs
        rcases List.infix_cons_iff.1 h with h | h
        · exact absurd (List.cons_prefix_cons.1 h).1 (by decide)
        · exact ih rest (by omega) h
      · revert h
        decide
      · next c s hno =>
        rw [List.length_cons] at hs
        rcases List.infix_cons_iff.1 h with h | h
        · obtain ⟨rfl, htail⟩ := List.cons_prefix_cons.1 h
          have hquot : '"' ∉ quoteEntity.tail := by decide
          obtain ⟨rest, rfl⟩ := prefix_of_prefix_replaceAllIn hquot htail
          cases hno
        · exact ih s (by omega) h
  exact hall _ _ (Nat.le_refl _)

/-- What was written without quotes is escaped to what it was. -/
theorem escape_replaceAllIn {n : Nat} (h : '"' ∉ s) :
    escape (replaceAllIn quoteEntity ['"'] n s) = s := by
  induction n generalizing s with
  | zero => exact escape_of_not_mem h
  | succ n ih =>
    rw [replaceAllIn.eq_def]
    dsimp only
    split
    · next rest hrest =>
      obtain rfl := stripFront?_eq_some.1 hrest
      rw [List.singleton_append, escape_cons_quote, ih fun hc => h (List.mem_append_right _ hc)]
    · rfl
    · next c s _ =>
      rw [List.mem_cons, not_or] at h
      rw [escape_cons (Ne.symm h.1), ih h.2]

/-- A label that is read after it was quoted is quoted to the same text, with or without entities. -/
theorem quote_unquote_quote (label : Text) : quote (unquote (quote label)) = quote label := by
  rw [unquote, trim_eq_self (isTrimmed_quote label), quote_eq_escape label, stripQuotes_quoted,
    replaceAll, quote_eq_escape, escape_replaceAllIn (not_mem_escape label)]

/-- A quoted label has its two quotes and no others. -/
theorem count_quote (label : Text) : (quote label).count '"' = 2 := by
  rw [quote_eq_escape, List.count_cons_self, List.count_append,
    List.count_eq_zero.2 (not_mem_escape label)]
  rfl

end DiagramEditor.Text
