import DiagramEditor.Proofs.Flowchart.Piece

/-!
# Tokens in front of another text

A token is read with what follows it in view, so not every text may follow it. A bare id must not be
followed by more of an id, nor a class name by more of a class name. And a definition may open a
double quote and leave it open. If a shape closes right behind the next double quote, wherever that
is, the token goes on there (`NodeToken.runsInto`). Where no bracket and no colon follows, as in front
of a connector and at the end of a line, nothing else can go wrong (`NodeToken.scan?_append_iff`).

A definition is read as before because a shape that is tried earlier and fits the new text would have
to go beyond the old definition. A plain label cannot, since the bracket that closes the definition is
the last character of its own closing delimiter (`getLast?_closing`). A quoted one that goes beyond it
has its first quote in the definition and the second one behind (`exists_quotes_of_beyond`).
-/

namespace DiagramEditor.Flowchart

open Text Identifier

variable {s t rest : Text} {c : Char}

/-! ## Delimiters -/

/-- A character stands in front of a cut or behind it. -/
theorem NodeToken.append_eq_append_cons {front u a b : Text} (h : front ++ a = u ++ c :: b) :
    (∃ x, u = front ++ x ∧ a = x ++ c :: b) ∨ (∃ x, front = u ++ c :: x ∧ b = x ++ a) := by
  rcases List.append_eq_append_iff.1 h with ⟨x, hu, ha⟩ | ⟨x, hfront, hb⟩
  · exact .inl ⟨x, hu, ha⟩
  · cases x with
    | nil => exact .inl ⟨[], by simpa using hfront.symm, by simpa using hb.symm⟩
    | cons d x =>
      obtain ⟨rfl, hrest⟩ := List.cons.inj hb
      exact .inr ⟨x, hfront, hrest⟩

namespace NodeShape

/-- The bracket that closes a shape opened by this one. -/
def closerOf (c : Char) : Char :=
  if c = '(' then ')' else if c = '{' then '}' else ']'

theorem mem_all (shape : NodeShape) : shape ∈ NodeShape.all := by
  cases shape <;> decide

/-- Longer delimiters come first. -/
theorem pairwise_all : all.Pairwise fun shape other =>
    shape.opening <+: other.opening → shape.opening = other.opening := by
  decide

/-- The text opens the shape and a double quote behind it, and leaves the quote open. -/
def opensQuote (s : Text) (shape : NodeShape) : Bool :=
  match (stripFront? shape.opening s).map trimStart with
  | some ('"' :: inner) => !inner.contains '"'
  | _ => false

/-- The shape closes right behind the first double quote of the text. -/
def closesQuote (s : Text) (shape : NodeShape) : Bool :=
  match cutChar? '"' s with
  | some (_, rest) => startsWith shape.closing (trimStart rest)
  | none => false

variable {shape : NodeShape}

theorem opensQuote_iff : shape.opensQuote s = true ↔
    ∃ w inner, IsBlank w ∧ '"' ∉ inner ∧ s = shape.opening ++ (w ++ '"' :: inner) := by
  rw [opensQuote]
  constructor
  · intro h
    split at h
    · next inner hstart =>
      obtain ⟨after, hafter, hinner⟩ := Option.map_eq_some_iff.1 hstart
      refine ⟨indent after, inner, isBlank_indent after, by simpa using h, ?_⟩
      rw [stripFront?_eq_some.1 hafter, ← hinner, indent_append_trimStart]
    · cases h
  · rintro ⟨w, inner, hw, hinner, rfl⟩
    have hstart : trimStart (w ++ '"' :: inner) = '"' :: inner := by
      rw [trimStart_of_isBlank_append hw, trimStart_eq_self]
      rintro _ ⟨⟩
      exact isSpace_quote
    rw [stripFront?_self_append, Option.map_some, hstart]
    simpa using hinner

theorem count_of_opensQuote (h : shape.opensQuote s = true) : s.count '"' = 1 := by
  obtain ⟨w, inner, hw, hinner, rfl⟩ := opensQuote_iff.1 h
  have hopening : '"' ∉ shape.opening := by cases shape <;> decide
  have hblank : '"' ∉ w := fun hmem => absurd (hw _ hmem) (by decide)
  rw [List.count_append, List.count_append, List.count_cons_self, List.count_eq_zero.2 hopening,
    List.count_eq_zero.2 hblank, List.count_eq_zero.2 hinner]

theorem opensQuote_append (ht : '"' ∉ t) (s : Text) (shape : NodeShape) :
    shape.opensQuote (s ++ t) = shape.opensQuote s := by
  refine Bool.eq_iff_iff.2 ⟨fun h => ?_, fun h => ?_⟩
  · obtain ⟨w, inner, hw, hinner, hs⟩ := opensQuote_iff.1 h
    rw [← List.append_assoc] at hs
    obtain ⟨inner', rfl, rfl⟩ := NodeToken.eq_append_of_append_eq hs ht
    have hinner' : '"' ∉ inner' := fun hmem => hinner (List.mem_append_left t hmem)
    exact opensQuote_iff.2 ⟨w, inner', hw, hinner', by simp⟩
  · obtain ⟨w, inner, hw, hinner, rfl⟩ := opensQuote_iff.1 h
    have hinner' : '"' ∉ inner ++ t := by simpa using ⟨hinner, ht⟩
    exact opensQuote_iff.2 ⟨w, inner ++ t, hw, hinner', by simp⟩

theorem opensQuote_eq_false (h : ∀ c ∈ s.head?, c ∉ ['[', '(', '{', '>']) (shape : NodeShape) :
    shape.opensQuote s = false := by
  refine Bool.eq_false_iff.2 fun hopens => ?_
  obtain ⟨w, inner, -, -, rfl⟩ := opensQuote_iff.1 hopens
  revert h
  cases shape <;> simp [opening]

theorem trimStart_closing {v : Text} (hv : IsBlank v) (rest : Text) :
    trimStart (v ++ (shape.closing ++ rest)) = shape.closing ++ rest := by
  obtain ⟨d, ds, hd⟩ := List.exists_cons_of_ne_nil (NodeToken.isDelimiter_closing shape).ne_nil
  rw [trimStart_of_isBlank_append hv, hd, List.cons_append, trimStart_eq_self]
  rintro _ ⟨⟩
  exact (NodeToken.isDelimiter_closing shape).not_space d (hd ▸ List.mem_cons_self)

theorem closesQuote_iff : shape.closesQuote s = true ↔
    ∃ inner v rest, '"' ∉ inner ∧ IsBlank v ∧
      s = inner ++ '"' :: (v ++ (shape.closing ++ rest)) := by
  rw [closesQuote]
  constructor
  · intro h
    split at h
    · next inner after hcut =>
      obtain ⟨rfl, hinner⟩ := cutChar?_eq_some hcut
      obtain ⟨rest, hrest⟩ := Option.isSome_iff_exists.1 h
      refine ⟨inner, indent after, rest, hinner, isBlank_indent after, ?_⟩
      rw [← stripFront?_eq_some.1 hrest, indent_append_trimStart]
    · cases h
  · rintro ⟨inner, v, rest, hinner, hv, rfl⟩
    rw [cutChar?_append_cons hinner]
    simp only [trimStart_closing hv, startsWith, stripFront?_self_append, Option.isSome_some]

theorem closesQuote_append (hs : '"' ∉ s) (t : Text) (shape : NodeShape) :
    shape.closesQuote (s ++ t) = shape.closesQuote t := by
  refine Bool.eq_iff_iff.2 ⟨fun h => ?_, fun h => ?_⟩
  · obtain ⟨inner, v, rest, hinner, hv, heq⟩ := closesQuote_iff.1 h
    rcases NodeToken.append_eq_append_cons heq with ⟨x, rfl, ht⟩ | ⟨x, rfl, -⟩
    · exact closesQuote_iff.2 ⟨x, v, rest, fun hmem => hinner (List.mem_append_right s hmem), hv, ht⟩
    · exact absurd (by simp) hs
  · obtain ⟨inner, v, rest, hinner, hv, rfl⟩ := closesQuote_iff.1 h
    have hno : '"' ∉ s ++ inner := by simpa using ⟨hs, hinner⟩
    exact closesQuote_iff.2 ⟨s ++ inner, v, rest, hno, hv, by simp⟩

theorem closesQuote_eq_false (h : '"' ∉ s) (shape : NodeShape) : shape.closesQuote s = false := by
  rw [closesQuote, cutChar?_eq_none h]

end NodeShape

namespace NodeToken

variable {shape other : NodeShape} {raw raw' old new a : Text}

theorem getLast?_closing (shape : NodeShape) :
    shape.closing.getLast? = shape.opening.head?.map NodeShape.closerOf := by
  cases shape <;> rfl

theorem exists_closing_eq (shape : NodeShape) :
    ∃ init c, shape.closing = init ++ [c] ∧ c ∈ closers := by
  cases shape <;> first
    | exact ⟨[], _, rfl, by decide⟩
    | exact ⟨[_], _, rfl, by decide⟩
    | exact ⟨[_, _], _, rfl, by decide⟩

theorem mem_closers_of_mem_tail (shape : NodeShape) (h : c ∈ shape.closing.tail) :
    c ∈ closers := by
  have hall : shape.closing.tail.all (closers.contains ·) = true := by cases shape <;> decide
  simpa using List.all_eq_true.1 hall c h

theorem not_mem_opening (shape : NodeShape) (hc : c ∈ closers) : c ∉ shape.opening := by
  have hno : closers.any (shape.opening.contains ·) = false := by cases shape <;> decide
  simpa using eq_false_of_any hno hc

theorem not_isSpace_of_mem_closers (hc : c ∈ closers) : isSpace c = false :=
  eq_false_of_any (by decide) hc

/-- Of two shapes at one place both close with the same bracket. -/
theorem getLast?_closing_eq {u v : Text} (h : shaped shape raw ++ u = shaped other raw' ++ v) :
    shape.closing.getLast? = other.closing.getLast? := by
  obtain ⟨d, ds, hd, -⟩ := opening_eq_cons shape
  obtain ⟨e, es, he, -⟩ := opening_eq_cons other
  rw [getLast?_closing, getLast?_closing, hd, he]
  rw [shaped, shaped, hd, he] at h
  rw [List.head?_cons, List.head?_cons, (List.cons.inj h).1]

/-! ## Shapes that go beyond a definition -/

/-- A shape that goes beyond another one at its place, into a text that does not begin with a bracket,
has a quoted label with one quote on each side. -/
theorem exists_quotes_of_beyond (ha : a ≠ []) (hhead : ∀ c ∈ a.head?, c ∉ closers)
    (hlabel : IsLabel other.closing raw') (h : shaped other raw' = shaped shape raw ++ a) :
    ∃ w x z v, IsBlank w ∧ '"' ∉ x ∧ shaped shape raw = other.opening ++ (w ++ '"' :: x) ∧
      '"' ∉ z ∧ IsBlank v ∧ a = z ++ '"' :: (v ++ other.closing) := by
  obtain ⟨init, c, hclosing, hc⟩ := exists_closing_eq shape
  have hlast : c ∈ other.closing.getLast? := by
    have hsame := getLast?_closing_eq (u := a) (v := []) (by simpa using h.symm)
    rw [← hsame, hclosing, List.getLast?_concat]
    exact rfl
  have hsplit : (other.opening ++ raw') ++ other.closing =
      (shape.opening ++ (raw ++ init)) ++ c :: a := by
    rw [shaped, shaped, hclosing] at h
    simpa using h
  -- The bracket is not in the closing delimiter, where a bracket would follow it.
  rcases append_eq_append_cons hsplit with ⟨x, -, hx⟩ | ⟨x, hx, ha'⟩
  · obtain ⟨e, es, rfl⟩ := List.exists_cons_of_ne_nil ha
    have hmem : e ∈ other.closing.tail := by
      rw [hx]
      cases x <;> simp
    exact absurd (mem_closers_of_mem_tail other hmem) (hhead e rfl)
  · rcases hlabel with ⟨w, inner, v, hw, hinner, hv, rfl⟩ | hplain
    · have hsplit : (shape.opening ++ (raw ++ init) ++ [c]) ++ x =
          (other.opening ++ w) ++ '"' :: (inner ++ '"' :: v) := by
        simpa using hx.symm
      have hend : shaped shape raw = shape.opening ++ (raw ++ init) ++ [c] := by
        rw [shaped, hclosing]
        simp
      rcases append_eq_append_cons hsplit with ⟨y, hy, -⟩ | ⟨y, hy, hrest⟩
      · have hmem : c ∈ other.opening ++ w := by
          rw [hy]
          simp
        rcases List.mem_append.1 hmem with hmem | hmem
        · exact absurd hmem (not_mem_opening other hc)
        · exact absurd (hw c hmem) (by simp [not_isSpace_of_mem_closers hc])
      · rcases append_eq_append_cons hrest.symm with ⟨z, hz, hx'⟩ | ⟨z, hz, hv'⟩
        · rw [hz, List.mem_append, not_or] at hinner
          refine ⟨w, y, z, v, hw, hinner.1, ?_, hinner.2, hv, ?_⟩
          · rw [hend, hy]
            simp
          · rw [ha', hx']
            simp
        · -- The bracket would be a quote, or a blank behind it.
          have hmem : c ∈ '"' :: z := by
            refine List.mem_of_getLast? ?_
            rw [← List.getLast?_append_cons (other.opening ++ w ++ '"' :: inner), ← List.getLast?_concat,
              hy, hz]
            simp
          rcases List.mem_cons.1 hmem with rfl | hmem
          · exact absurd hc (by decide)
          · have hspace := hv c (hv' ▸ List.mem_append_left x hmem)
            exact absurd hspace (by simp [not_isSpace_of_mem_closers hc])
    · have hmem : c ∈ other.opening ++ raw' := by
        rw [hx]
        simp
      rcases List.mem_append.1 hmem with hmem | hmem
      exacts [absurd hmem (not_mem_opening other hc), absurd hmem (hplain.last c hlast)]

/-- A definition that leaves a quote open for a shape is one of a shape with a shorter delimiter. -/
theorem ne_opening_of_opensQuote (hlabel : IsLabel shape.closing raw)
    (h : other.opensQuote (shaped shape raw) = true) :
    shape.opening <+: other.opening ∧ shape.opening ≠ other.opening := by
  obtain ⟨w, inner, hw, hinner, hshaped⟩ := NodeShape.opensQuote_iff.1 h
  have hlonger : ∀ y, w ++ '"' :: inner = y ++ (raw ++ shape.closing) → y ⊆ shape.opening →
      False := by
    intro y hy hsub
    cases y with
    | nil =>
      rcases hlabel with ⟨w', inner', v, hw', hinner', -, rfl⟩ | hplain
      · have hnot : ∀ w : Text, IsBlank w → '"' ∉ w := fun w hw hmem =>
          absurd (hw _ hmem) (by decide)
        have hcut := cutChar?_append_cons (hnot w' hw') (inner' ++ '"' :: (v ++ shape.closing))
        have hcut' := cutChar?_append_cons (hnot w hw) inner
        have hsame : w' ++ '"' :: (inner' ++ '"' :: (v ++ shape.closing)) = w ++ '"' :: inner := by
          rw [hy]
          simp
        rw [hsame, hcut'] at hcut
        obtain ⟨-, rfl⟩ := Prod.mk.inj (Option.some.inj hcut)
        exact hinner (by simp)
      · have hhead := head?_trimStart_delimited (isDelimiter_closing shape) raw []
        rw [List.append_nil, ← List.nil_append (raw ++ _), ← hy, trimStart_of_isBlank_append hw,
          trimStart_eq_self (by simp [isSpace_quote])] at hhead
        exact hplain.head (hhead.1 rfl)
    | cons d y =>
      have hd := hsub List.mem_cons_self
      cases w with
      | nil =>
        obtain ⟨rfl, -⟩ := List.cons.inj hy
        revert hd
        cases shape <;> decide
      | cons e w =>
        obtain ⟨rfl, -⟩ := List.cons.inj hy
        have hspace := hw e List.mem_cons_self
        have hno : shape.opening.any isSpace = false := by cases shape <;> decide
        rw [eq_false_of_any hno hd] at hspace
        cases hspace
  rw [shaped] at hshaped
  rcases List.append_eq_append_iff.1 hshaped with ⟨y, hy, hrest⟩ | ⟨y, hy, hrest⟩
  · refine ⟨⟨y, hy.symm⟩, fun heq => ?_⟩
    have hnil : y = [] := by simpa [heq] using hy
    rw [hnil] at hrest
    exact hlonger [] (by simpa using hrest.symm) (List.nil_subset _)
  · exact (hlonger y hrest (hy ▸ List.subset_append_right ..)).elim

/-- A definition is read in front of another text exactly if no quote that it leaves open is closed
there together with a shape. -/
theorem scanShape?_append_iff (h : scanShape? (shaped shape raw ++ old) = some (shape, raw, old))
    (hnew : ∀ c ∈ new.head?, c ∉ closers) :
    scanShape? (shaped shape raw ++ new) = some (shape, raw, new) ↔
      ∀ other : NodeShape, other.opensQuote (shaped shape raw) = true →
        other.closesQuote new = false := by
  rw [scanShape?_eq_findSome?] at h ⊢
  obtain ⟨before, shape', after, hall, hread, hno⟩ := List.findSome?_eq_some_iff.1 h
  obtain ⟨rfl, -, hlabel⟩ := scanAs?_eq_some_iff.1 hread
  constructor
  · intro hfound other hopens
    refine Bool.eq_false_iff.2 fun hcloses => ?_
    obtain ⟨w, x, hw, hx, hshaped⟩ := NodeShape.opensQuote_iff.1 hopens
    obtain ⟨z, v, r, hz, hv, rfl⟩ := NodeShape.closesQuote_iff.1 hcloses
    have hfits : scanAs? (shaped shape raw ++ (z ++ '"' :: (v ++ (other.closing ++ r)))) other =
        some (other, w ++ '"' :: ((x ++ z) ++ '"' :: v), r) := by
      have hno : '"' ∉ x ++ z := by simpa using ⟨hx, hz⟩
      refine scanAs?_eq_some_iff.2 ⟨rfl, ?_, .inl ⟨w, x ++ z, v, hw, hno, hv, rfl⟩⟩
      rw [hshaped, shaped]
      simp
    obtain ⟨before, shape', after, hall, hread, hno⟩ := List.findSome?_eq_some_iff.1 hfound
    obtain ⟨rfl, -⟩ := scanAs?_eq_some_iff.1 hread
    obtain ⟨hfront, hne⟩ := ne_opening_of_opensQuote hlabel hopens
    have hmem := other.mem_all
    have hpairs := NodeShape.pairwise_all
    rw [hall] at hmem hpairs
    obtain ⟨-, hpairs, -⟩ := List.pairwise_append.1 hpairs
    rcases List.mem_append.1 hmem with hmem | hmem
    · rw [hno other hmem] at hfits
      cases hfits
    · rcases List.mem_cons.1 hmem with rfl | hmem
      exacts [hne rfl, hne ((List.pairwise_cons.1 hpairs).1 other hmem hfront)]
  · intro hquote
    refine List.findSome?_eq_some_iff.2 ⟨before, shape, after, hall, ?_, fun other hmem => ?_⟩
    · exact scanAs?_eq_some_iff.2 ⟨rfl, rfl, hlabel⟩
    · refine Option.eq_none_iff_forall_ne_some.2 fun p hp => ?_
      obtain ⟨other', raw', rest'⟩ := p
      obtain ⟨rfl, hs, hlabel'⟩ := scanAs?_eq_some_iff.1 hp
      -- A shape that ends with the definition or in front of its end fits the old text as well.
      have hfits : ∀ x, shaped shape raw = shaped other' raw' ++ x → False := by
        intro x hx
        have hread' : scanAs? (shaped shape raw ++ old) other' = some (other', raw', x ++ old) :=
          scanAs?_eq_some_iff.2 ⟨rfl, by rw [hx, List.append_assoc], hlabel'⟩
        rw [hno other' hmem] at hread'
        cases hread'
      rcases List.append_eq_append_iff.1 hs with ⟨x, hx, rfl⟩ | ⟨x, hx, -⟩
      · cases x with
        | nil => exact hfits [] (by simpa using hx.symm)
        | cons d x =>
          obtain ⟨w, y, z, v, hw, hy, hopens, hz, hv, hcloses⟩ :=
            exists_quotes_of_beyond (List.cons_ne_nil d x) hnew hlabel' hx
          have hopens := NodeShape.opensQuote_iff.2 ⟨w, y, hw, hy, hopens⟩
          have hcloses : other'.closesQuote (d :: x ++ rest') = true := by
            refine NodeShape.closesQuote_iff.2 ⟨z, v, rest', hz, hv, ?_⟩
            rw [hcloses]
            simp
          rw [hquote other' hopens] at hcloses
          cases hcloses
      · exact hfits x hx

/-! ## Definitions -/

theorem eq_of_scanDefinition?_none (h : scanDefinition? s = some (none, rest)) : s = rest := by
  rw [scanDefinition?] at h
  split at h
  · obtain ⟨p, -, hp⟩ := Option.map_eq_some_iff.1 h
    cases hp
  · split at h <;> cases h
    rfl

theorem ne_nil_of_scanDefinition?_some {definition : Text} {d : NodeDefinition}
    (h : scanDefinition? (definition ++ rest) = some (some d, rest)) : definition ≠ [] := by
  rintro rfl
  obtain ⟨body, hs, -⟩ | ⟨shape, raw, -, hshape, -⟩ := scanDefinition?_eq_some h
  · have hlength := congrArg List.length hs
    simp only [List.nil_append, List.length_cons, List.length_append] at hlength
    omega
  · obtain ⟨hs, -⟩ := scanShape?_eq_some hshape
    obtain ⟨c, cs, hopen, -⟩ := opening_eq_cons shape
    have hnil := List.append_left_eq_self.1 hs.symm
    rw [shaped, hopen] at hnil
    cases hnil

/-- Entries are read up to the brace that closes them, whatever follows. -/
theorem scanDefinition?_entries {body : Text} (hbody : IsClosed (· == '}') body) (rest : Text) :
    scanDefinition? ('@' :: '{' :: (body ++ '}' :: rest)) =
      some (some (.ofEntries body), rest) := by
  have hopen : stripFront? entriesOpening ('@' :: '{' :: (body ++ '}' :: rest)) =
      some (body ++ '}' :: rest) := stripFront?_self_append entriesOpening _
  rw [scanDefinition?, hopen]
  simp only [(cutOutside?_singleton_eq_some (by decide)).2 ⟨rfl, hbody⟩, Option.map_some]

theorem stripFront?_entriesOpening_shaped (shape : NodeShape) (raw t : Text) :
    stripFront? entriesOpening (shaped shape raw ++ t) = none := by
  rw [shaped, entriesOpening, stripFront?_eq_none_of_head]
  cases shape <;> simp [NodeShape.opening]

theorem scanDefinition?_shaped (h : scanShape? (shaped shape raw ++ t) = some (shape, raw, rest)) :
    scanDefinition? (shaped shape raw ++ t) =
      some (some ⟨.classic shape, some raw, some (unquote raw)⟩, rest) := by
  rw [scanDefinition?, stripFront?_entriesOpening_shaped, h]

/-- No bracket begins the text, neither one that opens a definition nor one that closes it. -/
def NoBracket (s : Text) : Prop :=
  ∀ c ∈ s.head?, c ∉ openers ++ closers

theorem scanDefinition?_append_iff {definition : Text} {d : Option NodeDefinition}
    (h : scanDefinition? (definition ++ old) = some (d, old)) (hnew : NoBracket new) :
    scanDefinition? (definition ++ new) = some (d, new) ↔
      ∀ shape : NodeShape, shape.opensQuote definition = true → shape.closesQuote new = false := by
  have hopener : NoOpener new := fun c hc hmem => hnew c hc (List.mem_append_left _ hmem)
  have hcloser : ∀ c ∈ new.head?, c ∉ closers := fun c hc hmem =>
    hnew c hc (List.mem_append_right _ hmem)
  cases d with
  | none =>
    rw [List.append_left_eq_self.1 (eq_of_scanDefinition?_none h), List.nil_append,
      scanDefinition?_of_noOpener hopener]
    refine iff_of_true rfl fun shape hopens => ?_
    rw [NodeShape.opensQuote_eq_false (by simp)] at hopens
    cases hopens
  | some d =>
    obtain ⟨body, hs, hbody, rfl⟩ | ⟨shape, raw, -, hshape, rfl⟩ := scanDefinition?_eq_some h
    · have hdef : definition = '@' :: '{' :: (body ++ ['}']) :=
        List.append_cancel_right (hs.trans (by simp))
      have hread := scanDefinition?_entries hbody new
      subst hdef
      refine iff_of_true (by simpa using hread) fun shape hopens => ?_
      rw [NodeShape.opensQuote_eq_false (by simp)] at hopens
      cases hopens
    · obtain ⟨hs, -⟩ := scanShape?_eq_some hshape
      obtain rfl := List.append_cancel_right hs
      rw [← scanShape?_append_iff hshape hcloser]
      refine ⟨fun hread => ?_, scanDefinition?_shaped⟩
      obtain ⟨body, hs', -⟩ | ⟨shape', raw', -, hshape', heq⟩ := scanDefinition?_eq_some hread
      · have hno := stripFront?_entriesOpening_shaped shape raw new
        rw [hs', entriesOpening] at hno
        cases hno
      · cases heq
        exact hshape'

/-! ## Class names -/

/-- A class name that was read behind a token. -/
def IsClassName (name : Text) : Prop :=
  name ≠ [] ∧ ∀ c ∈ name, isClassChar c = true

variable {suffix : Option Text} {token : NodeToken}

theorem isClassName_of_scanClass (h : scanClass s = (suffix, rest)) :
    ∀ name ∈ suffix, IsClassName name := by
  rintro name rfl
  rw [scanClass] at h
  split at h
  · simp only [] at h
    split at h
    · cases h
    · next hne =>
      obtain ⟨hname, -⟩ := Prod.mk.inj h
      rw [← Option.some.inj hname]
      exact ⟨by simpa using hne, fun c hc => List.mem_takeWhile_imp hc⟩
  · cases h

theorem isClassName_of_scan? {name : Text} (h : scan? s = some (token, rest))
    (hname : token.classSuffix = some name) : IsClassName name := by
  obtain ⟨after, -, -, hclass, -, -⟩ := scan?_eq_some_iff.1 h
  exact isClassName_of_scanClass hclass name hname

theorem quote_not_mem_classText (h : ∀ name ∈ suffix, IsClassName name) :
    '"' ∉ classText suffix := by
  cases suffix with
  | none => exact List.not_mem_nil
  | some name =>
    intro hmem
    rcases List.mem_append.1 hmem with hmem | hmem
    · exact absurd hmem (by decide)
    · exact absurd ((h name rfl).2 _ hmem) (by decide)

/-- A class name ends in front of a text that does not go on with it. -/
theorem scanClass_append_iff (h : ∀ name ∈ suffix, IsClassName name) (ht : ∀ c ∈ t.head?, c ≠ ':') :
    scanClass (classText suffix ++ t) = (suffix, t) ↔
      (suffix.isSome → ∀ c ∈ t.head?, isClassChar c = false) := by
  cases suffix with
  | none =>
    rw [classText, List.nil_append, scanClass, classMark, stripFront?_eq_none_of_head ht]
    simp
  | some name =>
    obtain ⟨hne, hname⟩ := h name rfl
    rw [classText, List.append_assoc, scanClass, stripFront?_self_append]
    simp only [List.takeWhile_append_of_pos hname, List.dropWhile_append_of_pos hname,
      Option.isSome_some, forall_const]
    rw [if_neg (by simp [hne])]
    cases t with
    | nil => simp
    | cons d t =>
      cases hd : isClassChar d with
      | true => simp [hd]
      | false => simp [hd]

/-! ## Tokens -/

/-- The token leaves a quote open, and the text closes it together with a shape. -/
def runsInto (t : Text) (token : NodeToken) : Bool :=
  NodeShape.all.any fun shape =>
    shape.opensQuote (token.text.dropWhile isIdentChar) && shape.closesQuote t

theorem runsInto_append (hs : '"' ∉ s) (t : Text) (token : NodeToken) :
    token.runsInto (s ++ t) = token.runsInto t := by
  simp only [runsInto, NodeShape.closesQuote_append hs]

/-- The text may follow the token. -/
structure Admits (t : Text) (token : NodeToken) : Prop where
  ident : token.definition = none → token.classSuffix = none →
    ∀ c ∈ t.head?, isIdentChar c = false
  classSuffix : token.classSuffix.isSome → ∀ c ∈ t.head?, isClassChar c = false
  quote : token.runsInto t = false

instance (t : Text) (token : NodeToken) : Decidable (token.Admits t) :=
  have hany : ∀ p : Char → Bool, t.head?.any p = false ↔ ∀ c ∈ t.head?, p c = false := fun p => by
    cases t.head? <;> simp
  decidable_of_iff ((token.definition = none → token.classSuffix = none →
      t.head?.any isIdentChar = false) ∧
    (token.classSuffix.isSome → t.head?.any isClassChar = false) ∧ token.runsInto t = false) <| by
    rw [hany, hany]
    exact ⟨fun h => ⟨h.1, h.2.1, h.2.2⟩, fun h => ⟨h.ident, h.classSuffix, h.quote⟩⟩

/-- The text begins neither with a bracket nor with a colon. -/
def IsBoundary (t : Text) : Prop :=
  NoBracket t ∧ ∀ c ∈ t.head?, c ≠ ':'

theorem IsToken.dropWhile_text {definition : Text} (h : IsToken token definition rest) :
    token.text.dropWhile isIdentChar = definition ++ classText token.classSuffix := by
  rw [h.text, List.dropWhile_append_of_pos h.ident.2]
  have hhead := h.head
  rw [← List.append_assoc] at hhead
  cases hs : definition ++ classText token.classSuffix with
  | nil => rfl
  | cons c s => exact List.dropWhile_cons_of_neg (by simp [hhead c (by rw [hs]; rfl)])

/-- Which texts may follow a token: it is read in front of another text without a bracket or a colon
at its start exactly if it admits it. -/
theorem scan?_append_iff (h : scan? (token.text ++ rest) = some (token, rest)) (ht : IsBoundary t) :
    scan? (token.text ++ t) = some (token, t) ↔ token.Admits t := by
  obtain ⟨-, definition, htoken⟩ := scan?_eq_some_iff_isToken.1 h
  have hname := isClassName_of_scanClass htoken.classSuffix
  have hquote := quote_not_mem_classText hname
  have hbracket : NoBracket (classText token.classSuffix ++ t) := by
    cases token.classSuffix with
    | none => exact ht.1
    | some name =>
      rintro _ ⟨⟩
      decide
  have hdef := scanDefinition?_append_iff htoken.definition hbracket
  have hclass := scanClass_append_iff hname ht.2
  have hruns : token.runsInto t = false ↔ ∀ shape : NodeShape,
      shape.opensQuote definition = true →
        shape.closesQuote (classText token.classSuffix ++ t) = false := by
    rw [runsInto, List.any_eq_false]
    refine forall_congr' fun shape => ?_
    rw [htoken.dropWhile_text, NodeShape.opensQuote_append hquote, NodeShape.closesQuote_append hquote]
    simp [shape.mem_all]
  constructor
  · intro hread
    obtain ⟨-, definition', htoken'⟩ := scan?_eq_some_iff_isToken.1 hread
    obtain rfl : definition' = definition := by
      have htext := htoken'.text.symm.trans htoken.text
      exact List.append_cancel_right (List.append_cancel_left htext)
    refine ⟨fun hnone hsuffix => ?_, hclass.1 htoken'.classSuffix,
      hruns.2 (hdef.1 htoken'.definition)⟩
    have hread := htoken'.definition
    rw [hnone] at hread
    have hhead := htoken'.head
    rw [List.append_left_eq_self.1 (eq_of_scanDefinition?_none hread), hsuffix] at hhead
    exact hhead
  · intro hadmits
    refine (?_ : IsToken token definition t).scan?
    refine ⟨htoken.ident, htoken.text, fun e he => ?_, hdef.2 (hruns.1 hadmits.quote),
      hclass.2 hadmits.classSuffix⟩
    have hhead := htoken.head
    rw [← List.append_assoc] at hhead he
    cases hs : definition ++ classText token.classSuffix with
    | cons d s =>
      rw [hs] at hhead he
      exact hhead e he
    | nil =>
      -- A bare id goes on with the next identifier character.
      obtain ⟨hnil, hsuffix⟩ := List.append_eq_nil_iff.1 hs
      rw [hs] at he
      refine hadmits.ident ?_ ?_ e he
      · have hread := htoken.definition
        cases hd : token.definition with
        | none => rfl
        | some d =>
          rw [hd] at hread
          exact absurd hnil (ne_nil_of_scanDefinition?_some hread)
      · cases hd : token.classSuffix with
        | none => rfl
        | some name =>
          rw [hd] at hsuffix
          cases hsuffix

end NodeToken

end DiagramEditor.Flowchart
