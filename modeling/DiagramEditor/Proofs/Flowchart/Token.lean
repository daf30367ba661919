import DiagramEditor.Proofs.Flowchart.Label

/-!
# Tokens read back

A definition that was read somewhere is written so that it reads the same again
(`scan?_render`). The entries of an advanced definition are written with other blanks than they
were read with, and without the parts that are no entries; what makes them come back is that every
part closes its quotes (`IsEntry`, `ofEntries_render`). A classic definition is written letter by
letter as it was, only without what stood behind it.
-/

namespace DiagramEditor.Flowchart

open Text

/-! ## Entries -/

namespace NodeDefinition

variable {body : Text} {entries : List (Text × Text)}

/-- The entry that a part of the body is read as. -/
def entryOf? (part : Text) : Option (Text × Text) := do
  let (key, value) ← cutChar? ':' part
  guard !(trim key).isEmpty
  return (trim key, trim value)

/-- Key and value as they stand in a list of entries: trimmed, and together a text that closes its
quotes, with no comma and no brace outside of them. -/
structure IsEntry (entry : Text × Text) : Prop where
  key_ne_nil : entry.1 ≠ []
  key_trimmed : IsTrimmed entry.1
  value_trimmed : IsTrimmed entry.2
  no_colon : ':' ∉ entry.1
  no_comma : IsClosed (· == ',') (entry.1 ++ ':' :: entry.2)
  no_brace : IsClosed (· == '}') (entry.1 ++ ':' :: entry.2)

theorem entryOf?_eq_some {part key value : Text} (h : entryOf? part = some (key, value)) :
    ∃ k v, part = k ++ ':' :: v ∧ ':' ∉ k ∧ key = trim k ∧ value = trim v ∧ key ≠ [] := by
  simp only [entryOf?, Option.bind_eq_bind, Option.bind_eq_some_iff, Prod.exists,
    Option.pure_def, Option.some.injEq, Prod.mk.injEq, Option.guard_eq_some'] at h
  obtain ⟨k, v, hcut, _, hne, rfl, rfl⟩ := h
  obtain ⟨rfl, hk⟩ := cutChar?_eq_some hcut
  exact ⟨k, v, rfl, hk, rfl, rfl, by simpa using hne⟩

theorem isEntry_of_entryOf? {part : Text} {entry : Text × Text} (hcomma : IsClosed (· == ',') part)
    (hbrace : IsClosed (· == '}') part) (h : entryOf? part = some entry) : IsEntry entry := by
  obtain ⟨key, value⟩ := entry
  obtain ⟨k, v, rfl, hk, rfl, rfl, hne⟩ := entryOf?_eq_some h
  have hdense : dense (k ++ ':' :: v) = dense (trim k ++ ':' :: trim v) := by
    have hcons := dense_cons_of_not (c := ':') (by decide)
    rw [dense_append, dense_append, hcons, hcons, dense_trim, dense_trim]
  exact {
    key_ne_nil := hne
    key_trimmed := isTrimmed_trim k
    value_trimmed := isTrimmed_trim v
    no_colon := not_mem_trim hk
    no_comma := hcomma.of_dense_eq (beq_eq_false_of_isSpace (by decide)) hdense
    no_brace := hbrace.of_dense_eq (beq_eq_false_of_isSpace (by decide)) hdense }

theorem isEntry_of_mem (hbody : IsClosed (· == '}') body) {entry : Text × Text}
    (h : entry ∈ (splitOutside ',' body).filterMap entryOf?) : IsEntry entry := by
  obtain ⟨part, hpart, hread⟩ := List.mem_filterMap.1 h
  obtain ⟨hcomma, hbrace⟩ := isClosed_of_mem_splitOutside hbody hpart
  exact isEntry_of_entryOf? hcomma hbrace hread

/-- An entry as it is written. -/
def entryText (entry : Text × Text) : Text :=
  entry.1 ++ ':' :: ' ' :: entry.2

theorem dense_entryText (entry : Text × Text) :
    dense (entry.1 ++ ':' :: entry.2) = dense (entryText entry) := by
  have hcons := dense_cons_of_not (c := ':') (by decide)
  rw [entryText, dense_append, dense_append, hcons, hcons, dense_cons_of_isSpace (by decide)]

theorem IsEntry.isClosed_comma {entry : Text × Text} (h : IsEntry entry) :
    IsClosed (· == ',') (entryText entry) :=
  h.no_comma.of_dense_eq (beq_eq_false_of_isSpace (by decide)) (dense_entryText entry)

theorem IsEntry.isClosed_brace {entry : Text × Text} (h : IsEntry entry) :
    IsClosed (· == '}') (entryText entry) :=
  h.no_brace.of_dense_eq (beq_eq_false_of_isSpace (by decide)) (dense_entryText entry)

/-- A written entry reads the same again, with blanks around it or without. -/
theorem entryOf?_entryText {entry : Text × Text} (h : IsEntry entry) {w v : Text}
    (hw : IsBlank w) (hv : IsBlank v) :
    entryOf? (w ++ (entryText entry ++ v)) = some entry := by
  obtain ⟨key, value⟩ := entry
  have hcolon : ':' ∉ w ++ key := by
    intro hmem
    rcases List.mem_append.1 hmem with hmem | hmem
    · exact absurd (hw ':' hmem) (by decide)
    · exact h.no_colon hmem
  have hkey : trim (w ++ key) = key := by
    rw [trim_of_isBlank_append hw, trim_eq_self h.key_trimmed]
  have hvalue : trim (' ' :: (value ++ v)) = value := by
    rw [← List.singleton_append, trim_of_isBlank_append isBlank_singleton_space,
      trim_append_of_isBlank _ hv, trim_eq_self h.value_trimmed]
  have hcut : cutChar? ':' (w ++ (entryText (key, value) ++ v)) =
      some (w ++ key, ' ' :: (value ++ v)) := by
    rw [← cutChar?_append_cons hcolon]
    simp [entryText]
  have hne : (!key.isEmpty) = true := by simpa using h.key_ne_nil
  rw [entryOf?, hcut]
  simp only [Option.bind_eq_bind, Option.bind_some, hkey, hvalue, hne, guard_true]
  rfl

theorem isClosed_space {p : Char → Bool} (hp : p ' ' = false) : IsClosed p [' '] :=
  .singleton (by decide) hp

/-- The entries written between blanks read the same again. -/
theorem readEntries_renderEntries (h : ∀ entry ∈ entries, IsEntry entry) :
    (splitOutside ',' (' ' :: (renderEntries entries ++ [' ']))).filterMap entryOf? = entries := by
  have hspace : IsClosed (· == ',') [' '] := isClosed_space rfl
  induction entries with
  | nil => decide
  | cons entry entries ih =>
    have hentry := h entry List.mem_cons_self
    have hrest := fun e he => h e (List.mem_cons_of_mem entry he)
    by_cases hnil : entries = []
    · subst hnil
      have hclosed := (hspace.append hentry.isClosed_comma).append hspace
      have hread := entryOf?_entryText hentry isBlank_singleton_space isBlank_singleton_space
      rw [show ' ' :: (renderEntries [entry] ++ [' ']) = [' '] ++ entryText entry ++ [' '] from by
        simp [renderEntries, entryText], splitOutside, splitOutsideFrom_eq_singleton hclosed.1]
      exact List.filterMap_cons_some hread
    · have hclosed := hspace.append hentry.isClosed_comma
      have hread := entryOf?_entryText hentry isBlank_singleton_space isBlank_nil
      have htext : ' ' :: (renderEntries (entry :: entries) ++ [' ']) =
          ([' '] ++ entryText entry) ++ ',' :: (' ' :: (renderEntries entries ++ [' '])) := by
        rw [renderEntries, List.map_cons, join_cons _ _ (by simpa using hnil)]
        simp [renderEntries, entryText]
      rw [htext, splitOutside, splitOutsideFrom_append_cons hclosed.1 hclosed.2 (by decide) rfl]
      rw [List.append_nil] at hread
      rw [List.filterMap_cons_some hread]
      exact congrArg _ (ih hrest)

theorem isClosed_renderEntries (h : ∀ entry ∈ entries, IsEntry entry) :
    IsClosed (· == '}') (renderEntries entries) := by
  induction entries with
  | nil => exact .nil _
  | cons entry entries ih =>
    have hentry := (h entry List.mem_cons_self).isClosed_brace
    have hrest := ih fun e he => h e (List.mem_cons_of_mem entry he)
    by_cases hnil : entries = []
    · subst hnil
      rwa [renderEntries, List.map_singleton, join_singleton]
    · rw [renderEntries, List.map_cons, join_cons _ _ (by simpa using hnil)]
      have hsep : IsClosed (· == '}') [',', ' '] :=
        (IsClosed.singleton (by decide) rfl).append (isClosed_space rfl)
      exact (hentry.append hsep).append hrest

/-- The advanced definition with these entries. -/
def advanced (entries : List (Text × Text)) : NodeDefinition :=
  ⟨.advanced entries, entries.lookup labelKey, (entries.lookup labelKey).map unquote⟩

theorem ofEntries_eq (body : Text) :
    ofEntries body = advanced ((splitOutside ',' body).filterMap entryOf?) :=
  rfl

/-- An advanced definition is written so that its entries read the same again. -/
theorem ofEntries_render (hbody : IsClosed (· == '}') body) :
    ∃ entries, ofEntries body = advanced entries ∧
      IsClosed (· == '}') (' ' :: (renderEntries entries ++ [' '])) ∧
      ofEntries (' ' :: (renderEntries entries ++ [' '])) = ofEntries body := by
  have hentries := fun entry (h : entry ∈ (splitOutside ',' body).filterMap entryOf?) =>
    isEntry_of_mem hbody h
  refine ⟨_, ofEntries_eq body, ?_, ?_⟩
  · have hspace : IsClosed (· == '}') [' '] := isClosed_space rfl
    exact hspace.append ((isClosed_renderEntries hentries).append hspace)
  · rw [ofEntries_eq, ofEntries_eq, readEntries_renderEntries hentries]

end NodeDefinition

namespace NodeToken

variable {s t rest after : Text} {d : NodeDefinition} {token : NodeToken}

/-! ## Definitions -/

/-- The characters that a definition begins with. -/
def openers : Text :=
  ['[', '(', '{', '>', '@']

/-- The text does not begin with a definition. -/
def NoOpener (s : Text) : Prop :=
  ∀ c ∈ s.head?, c ∉ openers

theorem isIdentChar_of_mem_openers {c : Char} (h : c ∈ openers) :
    Identifier.isIdentChar c = false :=
  eq_false_of_any (by decide) h

theorem isSpace_of_mem_openers {c : Char} (h : c ∈ openers) : isSpace c = false :=
  eq_false_of_any (by decide) h

theorem opening_eq_cons (shape : NodeShape) : ∃ c cs, shape.opening = c :: cs ∧ c ∈ openers := by
  cases shape <;> exact ⟨_, _, rfl, by decide⟩

theorem scanShape?_of_noOpener (h : NoOpener s) : scanShape? s = none := by
  rw [scanShape?_eq_findSome?, List.findSome?_eq_none_iff]
  intro shape _
  obtain ⟨c, cs, hopen, hc⟩ := opening_eq_cons shape
  rw [scanAs?, hopen, stripFront?_eq_none_of_head fun d hd => (ne_of_mem_of_not_mem hc (h d hd)).symm]
  rfl

theorem scanDefinition?_of_noOpener (h : NoOpener s) : scanDefinition? s = some (none, s) := by
  rw [scanDefinition?, entriesOpening, stripFront?_eq_none_of_head, scanShape?_of_noOpener h]
  rintro d hd rfl
  exact h '@' hd (by decide)

/-- A definition is read in one of two ways. -/
theorem scanDefinition?_eq_some (h : scanDefinition? s = some (some d, rest)) :
    (∃ body, s = '@' :: '{' :: (body ++ '}' :: rest) ∧ IsClosed (· == '}') body ∧
      d = .ofEntries body) ∨
    (∃ shape raw, stripFront? entriesOpening s = none ∧ scanShape? s = some (shape, raw, rest) ∧
      d = ⟨.classic shape, some raw, some (unquote raw)⟩) := by
  rw [scanDefinition?] at h
  cases hs : stripFront? entriesOpening s with
  | some inner =>
    simp only [hs, Option.map_eq_some_iff, Prod.exists, Prod.mk.injEq, Option.some.injEq] at h
    obtain ⟨body, _, hcut, rfl, rfl⟩ := h
    obtain ⟨rfl, hbody⟩ := (cutOutside?_singleton_eq_some (by decide)).1 hcut
    exact .inl ⟨body, stripFront?_eq_some.1 hs, hbody, rfl⟩
  | none =>
    simp only [hs] at h
    cases hshape : scanShape? s with
    | none => simp [hshape] at h
    | some p =>
      obtain ⟨shape, raw, rest'⟩ := p
      simp only [hshape, Option.some.injEq, Prod.mk.injEq] at h
      obtain ⟨rfl, rfl⟩ := h
      exact .inr ⟨shape, raw, rfl, rfl, rfl⟩

/-- The written form behind the id: it begins with an opener and reads the same again. -/
theorem scanDefinition?_render (h : scanDefinition? s = some (some d, rest)) :
    (∃ c cs, c ∈ openers ∧ d.render [] = c :: cs) ∧ (∀ id, d.render id = id ++ d.render []) ∧
      scanDefinition? (d.render []) = some (some d, []) := by
  obtain ⟨body, -, hbody, rfl⟩ | ⟨shape, raw, -, hshape, rfl⟩ := scanDefinition?_eq_some h
  · obtain ⟨entries, hof, hclosed, hread⟩ := NodeDefinition.ofEntries_render hbody
    have hrender : ∀ id, (NodeDefinition.ofEntries body).render id =
        id ++ '@' :: '{' :: (' ' :: (NodeDefinition.renderEntries entries ++ [' ']) ++ ['}']) := by
      intro id
      rw [hof]
      simp [NodeDefinition.render, NodeDefinition.advanced]
    refine ⟨⟨'@', _, by decide, hrender []⟩, fun id => by rw [hrender, hrender]; rfl, ?_⟩
    generalize ' ' :: (NodeDefinition.renderEntries entries ++ [' ']) = inner at *
    have hopen : stripFront? entriesOpening ('@' :: '{' :: (inner ++ ['}'])) =
        some (inner ++ ['}']) := stripFront?_self_append ..
    have hcut := (cutOutside?_singleton_eq_some (b := []) (by decide)).2 ⟨rfl, hclosed⟩
    rw [hrender, List.nil_append, scanDefinition?, hopen]
    simp only [hcut, Option.map_some, hread]
  · have hrender : ∀ id, (NodeDefinition.mk (.classic shape) (some raw) (some (unquote raw))).render id =
        id ++ shaped shape raw := by
      intro id
      simp [NodeDefinition.render, shaped]
    obtain ⟨rfl, -⟩ := scanShape?_eq_some hshape
    obtain ⟨c, cs, hopen, hc⟩ := opening_eq_cons shape
    refine ⟨⟨c, cs ++ (raw ++ shape.closing), hc, ?_⟩, fun id => by rw [hrender, hrender]; rfl, ?_⟩
    · rw [hrender, shaped, hopen]
      rfl
    · have hread : scanShape? (shaped shape raw) = some (shape, raw, []) := scanShape?_of_append hshape
      have hentries : stripFront? entriesOpening (shaped shape raw) = none := by
        rw [shaped, entriesOpening, stripFront?_eq_none_of_head]
        cases shape <;> simp [NodeShape.opening]
      rw [hrender, List.nil_append, scanDefinition?, hentries, hread]

/-! ## Tokens -/

theorem scan?_eq_some_iff : scan? s = some (token, rest) ↔
    ∃ after, s.takeWhile Identifier.isIdentChar ≠ [] ∧
      scanDefinition? (s.dropWhile Identifier.isIdentChar) = some (token.definition, after) ∧
      scanClass after = (token.classSuffix, rest) ∧
      token.id = s.takeWhile Identifier.isIdentChar ∧ token.text = before s rest := by
  simp only [scan?, Option.bind_eq_bind, Option.bind_eq_some_iff, Option.guard_eq_some',
    Prod.exists, Option.pure_def, Option.some.injEq, Prod.mk.injEq]
  constructor
  · rintro ⟨_, hne, definition, after, hdef, rfl, rfl⟩
    exact ⟨after, by simpa using hne, hdef, rfl, rfl, rfl⟩
  · rintro ⟨after, hne, hdef, hclass, hid, htext⟩
    refine ⟨(), by simpa using hne, token.definition, after, hdef, ?_, by rw [hclass]⟩
    rw [hclass, ← hid, ← htext]

/-- A run of identifier characters, not empty. -/
def IsIdent (id : Text) : Prop :=
  id ≠ [] ∧ ∀ c ∈ id, Identifier.isIdentChar c = true

theorem isIdent_of_scan? (h : scan? s = some (token, rest)) : IsIdent token.id := by
  obtain ⟨_, hne, -, -, hid, -⟩ := scan?_eq_some_iff.1 h
  rw [hid]
  exact ⟨hne, fun c hc => List.mem_takeWhile_imp hc⟩

/-- A token whose id ends where the id does. -/
theorem scan?_append {id : Text} {definition : Option NodeDefinition} {suffix : Option Text}
    (hid : IsIdent id) (hs : ∀ c ∈ s.head?, Identifier.isIdentChar c = false)
    (hdef : scanDefinition? s = some (definition, after)) (hclass : scanClass after = (suffix, rest)) :
    scan? (id ++ s) = some (⟨id, definition, suffix, before (id ++ s) rest⟩, rest) := by
  have hdrop : s.dropWhile Identifier.isIdentChar = s := by
    cases s with
    | nil => rfl
    | cons c s => exact List.dropWhile_cons_of_neg (by simp [hs c rfl])
  have htake : s.takeWhile Identifier.isIdentChar = [] := by
    cases s with
    | nil => rfl
    | cons c s => exact List.takeWhile_cons_of_neg (by simp [hs c rfl])
  rw [scan?_eq_some_iff, List.dropWhile_append_of_pos hid.2, List.takeWhile_append_of_pos hid.2,
    hdrop, htake, List.append_nil]
  exact ⟨after, hid.1, hdef, hclass, rfl, rfl⟩

/-- The mention of a node without anything else. -/
theorem scan?_ident {id : Text} (hid : IsIdent id) :
    scan? id = some (⟨id, none, none, id⟩, []) := by
  have := scan?_append (s := []) hid (by simp) rfl rfl
  simpa [before] using this

/-- A definition that was read with a token is written so that it reads the same again, for
whatever node. -/
theorem scan?_render (h : scan? s = some (token, rest)) (hd : token.definition = some d) {id : Text}
    (hid : IsIdent id) : scan? (d.render id) = some (⟨id, some d, none, d.render id⟩, []) := by
  obtain ⟨after, -, hdef, -, -, -⟩ := scan?_eq_some_iff.1 h
  rw [hd] at hdef
  obtain ⟨⟨c, cs, hc, hcons⟩, hrender, hread⟩ := scanDefinition?_render hdef
  have hhead : ∀ e ∈ (d.render []).head?, Identifier.isIdentChar e = false := by
    rw [hcons]
    rintro e ⟨⟩
    exact isIdentChar_of_mem_openers hc
  have := scan?_append hid hhead hread rfl
  rw [← hrender] at this
  simpa [before] using this

end NodeToken

end DiagramEditor.Flowchart
