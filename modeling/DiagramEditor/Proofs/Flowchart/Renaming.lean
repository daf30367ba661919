import DiagramEditor.Proofs.Flowchart.References

/-!
# Lines with other ids

A line with other ids in place of its references is divided at the same places (`renamesInPlace`): it refers to the
new ids in the order of the old ones, and what lies between them is not touched (`IdReference.ofLine_renameIds`).

It also says what it said before, about other ids (`Statement.IsRenamed`). A link and a node line are read again piece
by piece (`LinkLine.ofLine?_renameIds`, `NodeLine.ofLine?_renameIds`): an id is neither a blank nor a delimiter nor a
quote, so nothing in front of it or behind it is read differently. A directive for a node or a class keeps its word,
and with it its kind (`NodeStyle.ofLine?_renameIds`, `ClassUse.ofLine?_renameIds`). Other lines have no
references. A header is written anew, and is read as it is written (`SubgraphHeader.ofLine?_render`).
-/

namespace DiagramEditor.Flowchart

open Text Identifier
open NodeToken (IsIdent)

variable {map : List (Text × Text)} {line gap s t rest tail id w v keyword : Text} {c : Char} {many : Bool}
  {refs : List IdReference}

/-- The id that takes the place of an old one, which is the old one itself if it has none. -/
def renameId (map : List (Text × Text)) (id : Text) : Text :=
  (map.lookup id).getD id

/-- The new ids may be written wherever an id may: they are ids, and begin no other lines. -/
def GivesIds (map : List (Text × Text)) : Prop :=
  ∀ p ∈ map, IsIdent p.2 ∧ p.2 ∉ statementKeywords

theorem mem_of_lookup_eq_some {new : Text} (h : map.lookup id = some new) : (id, new) ∈ map := by
  obtain ⟨front, back, rfl, -⟩ := List.lookup_eq_some_iff.1 h
  simp

theorem renameId_cases (hmap : GivesIds map) (id : Text) :
    renameId map id = id ∨ IsIdent (renameId map id) ∧ renameId map id ∉ statementKeywords := by
  rw [renameId]
  cases h : map.lookup id with
  | none => exact .inl rfl
  | some new => exact .inr (hmap _ (mem_of_lookup_eq_some h))

theorem isIdent_renameId (hmap : GivesIds map) (hid : IsIdent id) : IsIdent (renameId map id) := by
  rcases renameId_cases hmap id with heq | ⟨hident, -⟩
  · rwa [heq]
  · exact hident

/-! ## Slots -/

namespace Slot

/-- The slot with the new id, if there is one. -/
def renamed (map : List (Text × Text)) (x : Slot) : Slot :=
  { x with written := (map.lookup x.id).getD x.written, id := renameId map x.id }

variable {x : Slot}

@[simp] theorem renamed_plain (map : List (Text × Text)) (gap id : Text) :
    (plain gap id).renamed map = plain gap (renameId map id) := rfl

theorem renamed_of_lookup_eq_none (h : map.lookup x.id = none) : x.renamed map = x := by
  simp [renamed, renameId, h]

theorem renamed_of_lookup_eq_some {new : Text} (h : map.lookup x.id = some new) :
    x.renamed map = plain x.gap new := by
  simp [renamed, renameId, h, plain]

/-- To rename the references of a line is to rename its slots. -/
theorem renameFrom_references (map : List (Text × Text)) (start : Nat) (tail : Text)
    (slots : List Slot) : renameFrom map start (toText tail slots) (references start slots) =
      toText tail (slots.map (renamed map)) := by
  induction slots generalizing start with
  | nil => rfl
  | cons x slots ih =>
    simp [toText, references, renameFrom, renamed, ih]

end Slot

theorem IsDivided.renameIds_eq {slots : List Slot} (h : IsDivided line slots tail) (map : List (Text × Text)) :
    renameIds map line = Slot.toText tail (slots.map (Slot.renamed map)) := by
  rw [renameIds, h.references, h.text, Slot.renameFrom_references]

/-- With the new ids the line is divided at the same places, and nothing else of it is new. -/
def RenamesInPlace (map : List (Text × Text)) (line : Text) : Prop :=
  ∃ slots tail, IsDivided line slots tail ∧
    IsDivided (renameIds map line) (slots.map (Slot.renamed map)) tail

/-- What is left to show of a line is that one with the new slots is divided by them. -/
theorem IsDivided.renamesInPlace {slots : List Slot} {other : Text} (h : IsDivided line slots tail)
    (hother : IsDivided other (slots.map (Slot.renamed map)) tail) : RenamesInPlace map line := by
  refine ⟨slots, tail, h, ?_⟩
  rwa [h.renameIds_eq, ← hother.text]

/-! ## Tokens -/

namespace NodeToken

/-- The token with its new id. -/
def renamed (map : List (Text × Text)) (token : NodeToken) : NodeToken :=
  { token with
    id := renameId map token.id
    text := renameId map token.id ++ token.text.drop token.id.length }

variable {token : NodeToken} {definition : Text}

theorem IsToken.renamed (hmap : GivesIds map) (h : IsToken token definition rest) :
    IsToken (token.renamed map) definition rest where
  ident := isIdent_renameId hmap h.ident
  text := by
    change _ ++ token.text.drop token.id.length = _
    rw [h.text, List.drop_left]
    rfl
  head := h.head
  definition := h.definition
  classSuffix := h.classSuffix

theorem scan?_renamed (hmap : GivesIds map)
    (h : scan? (token.text ++ rest) = some (token, rest)) :
    scan? ((token.renamed map).text ++ rest) = some (token.renamed map, rest) := by
  obtain ⟨-, definition, htoken⟩ := scan?_eq_some_iff_isToken.1 h
  exact (htoken.renamed hmap).scan?

theorem isKeyword_renamed (hmap : GivesIds map) (h : token.isKeyword = false) :
    (token.renamed map).isKeyword = false := by
  rw [isKeyword, renamed]
  rcases renameId_cases hmap token.id with heq | ⟨-, hkeyword⟩
  · rw [heq]
    exact h
  · simp [hkeyword]

theorem not_mem_of_isIdent (hid : IsIdent id) : '"' ∉ id :=
  fun hmem => absurd (hid.2 _ hmem) (by decide)

/-- A token runs into a text, whatever the id is that this begins with. -/
theorem runsInto_renamed {other : NodeToken} (hmap : GivesIds map)
    (h : scan? (other.text ++ rest) = some (other, rest)) :
    token.runsInto ((other.renamed map).text ++ rest) = token.runsInto (other.text ++ rest) := by
  obtain ⟨-, definition, hother⟩ := scan?_eq_some_iff_isToken.1 h
  have hnew := not_mem_of_isIdent (isIdent_renameId hmap hother.ident)
  have htext : other.text = other.id ++ other.afterId := text_eq_id_append h
  rw [htext, renamed, ← afterId, List.append_assoc, List.append_assoc,
    runsInto_append (not_mem_of_isIdent hother.ident), runsInto_append hnew]

theorem afterId_renamed (map : List (Text × Text)) (token : NodeToken) :
    (token.renamed map).afterId = token.afterId :=
  List.drop_left

end NodeToken

open NodeToken

/-! ## Links and node lines -/

namespace LinkLine

variable {l : LinkLine}

/-- The link between the new ids. -/
def renamed (map : List (Text × Text)) (l : LinkLine) : LinkLine :=
  { l with source := l.source.renamed map, target := l.target.renamed map }

theorem IsRead.renamed (hmap : GivesIds map) (h : l.IsRead) : (l.renamed map).IsRead where
  lead := h.lead
  source := by
    refine scan?_renamed hmap (h.source_of_runsInto fun hquote => ?_)
    have hadmits := (scan?_append_iff h.source (h.isBoundary _)).1 h.source
    refine (runsInto_renamed hmap h.target).trans ?_
    rw [← runsInto_append hquote]
    exact hadmits.quote
  keyword := isKeyword_renamed hmap h.keyword
  between := h.between
  target := scan?_renamed hmap h.target
  tail := h.tail

/-- A link is read between the new ids. -/
theorem ofLine?_renameIds (hmap : GivesIds map) (h : ofLine? line = some l) :
    ofLine? (renameIds map line) = some (l.renamed map) := by
  refine ofLine?_eq_some_iff.2 ⟨(ofLine?_eq_some_iff.1 h).1.renamed hmap, ?_⟩
  rw [(isDivided h).renameIds_eq]
  simp [toLine, slots, Slot.toText, Slot.plain, Slot.renamed, renameId, LinkLine.renamed,
    NodeToken.renamed, afterId]

theorem renamesInPlace (hmap : GivesIds map) (h : ofLine? line = some l) : RenamesInPlace map line := by
  have hnew : IsDivided _ [_, .plain ((l.source.renamed map).afterId ++ l.between) _]
      ((l.target.renamed map).afterId ++ l.tail) := isDivided (ofLine?_renameIds hmap h)
  rw [NodeToken.afterId_renamed, NodeToken.afterId_renamed] at hnew
  exact ⟨l.slots, _, isDivided h, hnew⟩

end LinkLine

namespace NodeLine

variable {n : NodeLine}

/-- The node line with the new id. -/
def renamed (map : List (Text × Text)) (n : NodeLine) : NodeLine :=
  { n with token := n.token.renamed map }

theorem IsRead.renamed (hmap : GivesIds map) (h : n.IsRead) : (n.renamed map).IsRead where
  lead := h.lead
  token := scan?_renamed hmap h.token
  tail := h.tail
  keyword := isKeyword_renamed hmap h.keyword

/-- A node line is read with the new id. -/
theorem ofLine?_renameIds (hmap : GivesIds map) (h : ofLine? line = some n) :
    ofLine? (renameIds map line) = some (n.renamed map) := by
  refine ofLine?_eq_some_iff.2 ⟨(ofLine?_eq_some_iff.1 h).1.renamed hmap, ?_⟩
  rw [(isDivided h).renameIds_eq]
  simp [slots, Slot.toText, Slot.plain, Slot.renamed, renameId, NodeLine.renamed, NodeToken.renamed,
    afterId]

theorem renamesInPlace (hmap : GivesIds map) (h : ofLine? line = some n) : RenamesInPlace map line := by
  have hnew : IsDivided _ _ ((n.token.renamed map).afterId ++ n.tail) :=
    isDivided (ofLine?_renameIds hmap h)
  rw [NodeToken.afterId_renamed] at hnew
  exact ⟨n.slots, _, isDivided h, hnew⟩

end NodeLine

/-! ## Ids behind a word -/

namespace IsIdList

variable {slots : List Slot}

theorem renamed (hmap : GivesIds map) (h : IsIdList many gap slots tail) :
    IsIdList many gap (slots.map (Slot.renamed map)) tail := by
  induction h with
  | nil ht => exact .nil ht
  | last hid ht hend => exact .last (isIdent_renameId hmap hid) ht hend
  | comma hmany hid _ ih => exact .comma hmany (isIdent_renameId hmap hid) ih

/-- The slots of ids with commas between them. -/
def ofIds : (gap : Text) → List Text → List Slot
  | _, [] => []
  | gap, id :: ids => .plain gap id :: ofIds [','] ids

theorem map_renamed_ofIds (map : List (Text × Text)) (gap : Text) (ids : List Text) :
    (ofIds gap ids).map (Slot.renamed map) = ofIds gap (ids.map (renameId map)) := by
  induction ids generalizing gap with
  | nil => rfl
  | cons id ids ih => rw [ofIds, List.map_cons, ih, Slot.renamed_plain, List.map_cons, ofIds]

theorem toText_ofIds {ids : List Text} (hne : ids ≠ []) (gap t : Text) :
    Slot.toText t (ofIds gap ids) = gap ++ (join [','] ids ++ t) := by
  induction ids generalizing gap with
  | nil => exact absurd rfl hne
  | cons id ids ih =>
    by_cases hnil : ids = []
    · subst hnil
      rw [join_singleton]
      rfl
    · rw [ofIds, Slot.toText, ih hnil, join_cons _ _ hnil]
      simp [Slot.plain]

theorem of_ids {ids : List Text} (hids : ∀ id ∈ ids, IsIdent id) (hne : ids ≠ [])
    (ht : ∀ d ∈ t.head?, isSpace d = true) (gap : Text) : IsIdList true gap (ofIds gap ids) t := by
  induction ids generalizing gap with
  | nil => exact absurd rfl hne
  | cons id ids ih =>
    obtain ⟨hid, hids⟩ := List.forall_mem_cons.1 hids
    by_cases hnil : ids = []
    · subst hnil
      have hend : ∀ d ∈ t.head?, d ≠ ',' := by
        rintro d hd rfl
        exact absurd (ht ',' hd) (by decide)
      exact .last hid (fun d hd => isIdentChar_of_isSpace (ht d hd)) (.inr hend)
    · exact .comma rfl hid (ih hids hnil _)

end IsIdList

/-- The line is divided by the ids behind its word. -/
theorem IdReference.renamesInPlace_of_ofKeyword? (hmap : GivesIds map)
    (hwords : (keyword, many) ∈ IdReference.words)
    (h : IdReference.ofKeyword? keyword many line = some refs) : RenamesInPlace map line := by
  obtain ⟨w, c, v, slots, tail, hw, hc, hv, hlist, hdivided⟩ := IsIdList.exists_isDivided hwords h
  by_cases hnil : slots = []
  · subst hnil
    exact hdivided.renamesInPlace hdivided
  · have hnew := hlist.renamed hmap
    obtain ⟨s, htext⟩ := hnew.exists_toText_eq
    have hhead := hnew.head?_of_ne_nil (by simpa using hnil) htext
    exact hdivided.renamesInPlace (hnew.isDivided hwords hw hc hv htext hhead)

/-- The new line begins with the same word. -/
theorem IdReference.wordThenBlank_renameIds (hmap : GivesIds map)
    (hwords : (keyword, many) ∈ IdReference.words)
    (h : IdReference.ofKeyword? keyword many line = some refs) :
    WordThenBlank keyword (renameIds map line) := by
  obtain ⟨w, c, v, slots, tail, hw, hc, -, hlist, hdivided⟩ := IsIdList.exists_isDivided hwords h
  obtain ⟨s, htext⟩ := (hlist.renamed hmap).exists_toText_eq
  rw [hdivided.renameIds_eq, htext, List.append_assoc, List.append_assoc, List.cons_append]
  exact wordThenBlank_append (isIdent_of_mem_words hwords) hw hc _

/-- A style directive is read with the new id. -/
theorem NodeStyle.ofLine?_renameIds (hmap : GivesIds map) {d : NodeStyle}
    (h : NodeStyle.ofLine? line = some d) : NodeStyle.ofLine? (renameIds map line) =
      some { d with target := renameId map d.target } := by
  obtain ⟨after, ⟨w, c, v, rfl, hw, hc, hv, hword, hafter⟩, hident, hproperties⟩ :=
    NodeStyle.ofLine?_eq_some_iff.1 h
  have hnew := isIdent_renameId hmap hident
  have hlist : IsIdList false (w ++ (NodeStyle.keyword ++ c :: v)) [.plain _ d.target] after :=
    .last hident (fun e he => isIdentChar_of_isSpace (hafter e he)) (.inl rfl)
  have hdivided : IsDivided (w ++ (NodeStyle.keyword ++ c :: (v ++ (d.target ++ after)))) _ after :=
    hlist.isDivided (by decide) hw hc hv rfl (hlist.head?_of_ne_nil (List.cons_ne_nil _ _) rfl)
  have hline : renameIds map (w ++ (NodeStyle.keyword ++ c :: (v ++ (d.target ++ after)))) =
      w ++ (NodeStyle.keyword ++ c :: (v ++ (renameId map d.target ++ after))) := by
    rw [hdivided.renameIds_eq, List.map_singleton, Slot.renamed_plain]
    simp [Slot.toText, Slot.plain]
  rw [hline]
  exact NodeStyle.ofLine?_eq_some_iff.2
    ⟨after, ⟨w, c, v, rfl, hw, hc, hv, .of_isIdent hnew, hafter⟩, hnew, hproperties⟩

/-- A class directive is read with the new ids. -/
theorem ClassUse.ofLine?_renameIds (hmap : GivesIds map) {d : ClassUse}
    (h : ClassUse.ofLine? line = some d) : ClassUse.ofLine? (renameIds map line) =
      some { d with ids := d.ids.map (renameId map) } := by
  obtain ⟨after, ⟨w, c, v, rfl, hw, hc, hv, hword, hafter⟩, hne, hids, hname, htrim⟩ :=
    ClassUse.ofLine?_eq_some_iff.1 h
  have hnew : ∀ id ∈ d.ids.map (renameId map), IsIdent id := by
    intro id hid
    obtain ⟨old, hold, rfl⟩ := List.mem_map.1 hid
    exact isIdent_renameId hmap (hids old hold)
  have hnewne : d.ids.map (renameId map) ≠ [] := by simpa using hne
  have hlist := IsIdList.of_ids hids hne hafter (w ++ (ClassUse.keyword ++ c :: v))
  have htext := IsIdList.toText_ofIds hne (w ++ (ClassUse.keyword ++ c :: v)) after
  have hslots : IsIdList.ofIds (w ++ (ClassUse.keyword ++ c :: v)) d.ids ≠ [] := by
    obtain ⟨id, ids, hcons⟩ := List.exists_cons_of_ne_nil hne
    rw [hcons]
    exact List.cons_ne_nil _ _
  have hdivided := hlist.isDivided (by decide) hw hc hv htext (hlist.head?_of_ne_nil hslots htext)
  have hline : renameIds map (w ++ (ClassUse.keyword ++ c :: (v ++ (join [','] d.ids ++ after)))) =
      w ++ (ClassUse.keyword ++ c :: (v ++ (join [','] (d.ids.map (renameId map)) ++ after))) := by
    rw [hdivided.renameIds_eq, IsIdList.map_renamed_ofIds, IsIdList.toText_ofIds hnewne]
    simp
  rw [hline]
  exact ClassUse.ofLine?_eq_some_iff.2 ⟨after, ⟨w, c, v, rfl, hw, hc, hv,
    isWord_join hnewne hnew, hafter⟩, hnewne, hnew, hname, htrim⟩

/-! ## Headers -/

theorem stripEnd?_append_singleton (s : Text) (c : Char) : stripEnd? [c] (s ++ [c]) = some s := by
  rw [stripEnd?, List.reverse_append, List.reverse_singleton, stripFront?_self_append,
    Option.map_some, List.reverse_reverse]

namespace SubgraphHeader

/-- The label behind the id, with a blank in front. -/
def renderLabel : Option Text → Text
  | some label => ' ' :: '[' :: (quote label ++ [']'])
  | none => []

theorem render_eq (indent id : Text) (label : Option Text) :
    render indent id label = indent ++ (subgraphWord ++ ' ' :: (id ++ renderLabel label)) := by
  cases label <;> simp [render, renderLabel]

theorem labelOf_renderLabel {label : Option Text} (h : ∀ l ∈ label, ¬quoteEntity <:+: l) :
    labelOf (renderLabel label) = label := by
  cases label with
  | none => rfl
  | some l =>
    have htrim : trim (renderLabel (some l)) = '[' :: (quote l ++ [']']) := by
      refine (trim_of_isBlank_append isBlank_singleton_space _).trans (trim_eq_self ⟨?_, ?_⟩)
      · rintro _ ⟨⟩
        decide
      · rw [← List.cons_append, List.getLast?_concat]
        rintro _ ⟨⟩
        decide
    have hfront : stripFront? ['['] ('[' :: (quote l ++ [']'])) = some (quote l ++ [']']) :=
      stripFront?_self_append ['['] _
    rw [labelOf, htrim]
    simp only [hfront, Option.bind_some, stripEnd?_append_singleton, unquote_quote (h l rfl)]

/-- A header that is written is read. -/
theorem ofLine?_render (hw : IsBlank w) (hid : IsIdent id) {label : Option Text}
    (h : ∀ l ∈ label, ¬quoteEntity <:+: l) :
    ∃ header, ofLine? (render w id label) = some header ∧ header.id = id ∧
      header.label = label := by
  have hnext : ∀ e ∈ (renderLabel label).head?, isIdentChar e = false := by
    cases label with
    | none => rintro _ ⟨⟩
    | some l =>
      rintro _ ⟨⟩
      decide
  have hread := ofLine?_append hw (show isSpace ' ' = true by decide) isBlank_nil hid hnext
  rw [List.nil_append, labelOf_renderLabel h, ← render_eq] at hread
  exact ⟨_, hread, rfl, rfl⟩

/-- The label of a header that was read has no entity of a quote. -/
theorem not_infix_label {header : SubgraphHeader} (h : ofLine? line = some header) :
    ∀ l ∈ header.label, ¬quoteEntity <:+: l := by
  obtain ⟨rest, -, h⟩ := Option.bind_eq_some_iff.1 h
  obtain ⟨_, -, h⟩ := Option.bind_eq_some_iff.1 h
  dsimp only at h
  split at h
  · obtain rfl := Option.some.inj h
    rintro _ ⟨⟩
    exact not_infix_unquote _
  · obtain ⟨_, -, h⟩ := Option.bind_eq_some_iff.1 h
    obtain rfl := Option.some.inj h
    intro l hl
    change labelOf _ = some l at hl
    rw [labelOf] at hl
    split at hl
    · obtain rfl := Option.some.inj hl
      exact not_infix_unquote _
    · split at hl
      · cases hl
      · obtain rfl := Option.some.inj hl
        exact not_infix_unquote _

theorem renamesInPlace (hmap : GivesIds map) {header : SubgraphHeader}
    (h : ofLine? line = some header) : RenamesInPlace map line := by
  obtain ⟨w, c, v, s, rfl, hw, hc, hv, hs⟩ := (wordThenBlank_of_header h).exists_split
  by_cases hquote : (trimEnd s).head? = some '"'
  · obtain ⟨t, ht, htrim⟩ := exists_trimEnd_append s
    have hdivided := isDivided_of_quote hw hc hv hs hquote htrim
    cases hlookup : map.lookup (unquote (trimEnd s)) with
    | none =>
      refine hdivided.renamesInPlace (?_ : IsDivided (w ++ (subgraphWord ++ c :: (v ++ s))) _ t)
      rw [List.map_singleton, Slot.renamed_of_lookup_eq_none hlookup]
      exact hdivided
    | some new =>
      -- The new id is written without quotes, and nothing but blanks stands behind it.
      have hnew := (hmap _ (mem_of_lookup_eq_some hlookup)).1
      have hnext : ∀ d ∈ t.head?, isIdentChar d = false := fun d hd =>
        isIdentChar_of_isSpace (ht d (List.mem_of_head? hd))
      refine hdivided.renamesInPlace (?_ : IsDivided (w ++ (subgraphWord ++ c :: (v ++ (new ++ t)))) _ t)
      rw [List.map_singleton, Slot.renamed_of_lookup_eq_some hlookup]
      exact isDivided_of_isIdent hw hc hv hnew hnext
  · rcases head?_or_exists_isIdent s with hhead | ⟨id, t, rfl, hid, ht⟩
    · rw [ofLine?_behind hw hc hv hs, ofBody?, if_neg hquote] at h
      have htake : (trimEnd s).takeWhile isIdentChar = [] :=
        (NodeToken.takeWhile_append_of_head [] fun d hd => hhead d (mem_head?_of_trimEnd hd)).1
      simp [htake] at h
    · exact (isDivided_of_isIdent hw hc hv hid ht).renamesInPlace
        (isDivided_of_isIdent hw hc hv (isIdent_renameId hmap hid) ht)

end SubgraphHeader

/-! ## Statements -/

/-- The statement says of the new ids what another one says of the old ones. -/
inductive Statement.IsRenamed (map : List (Text × Text)) : Statement → Statement → Prop where
  | silent : IsRenamed map .silent .silent
  | subgraphOpen {h h' : SubgraphHeader} (hid : h'.id = renameId map h.id)
      (hlabel : h'.label = h.label) : IsRenamed map (.subgraphOpen h) (.subgraphOpen h')
  | blockEnd : IsRenamed map .blockEnd .blockEnd
  | link (l : LinkLine) : IsRenamed map (.link l) (.link (l.renamed map))
  | node (n : NodeLine) : IsRenamed map (.node n) (.node (n.renamed map))
  | directive {st st' : Statement} (hst : st.IsDirective) (hst' : st'.IsDirective)
      (hstyle : ∀ d, st = .nodeStyle d →
        st' = .nodeStyle { d with target := renameId map d.target })
      (hclass : ∀ d, st = .classUse d →
        st' = .classUse { d with ids := d.ids.map (renameId map) }) : IsRenamed map st st'

namespace Statement

theorem isRenamed_of_ofKeyword? (hmap : GivesIds map) (hwords : (keyword, many) ∈ IdReference.words)
    (h : IdReference.ofKeyword? keyword many line = some refs) :
    IsRenamed map (ofLine line) (ofLine (renameIds map line)) := by
  have hdirective := IdReference.mem_directiveWords hwords
  refine .directive (isDirective_ofLine (IdReference.wordThenBlank_of_ofKeyword? h) hdirective)
    (isDirective_ofLine (IdReference.wordThenBlank_renameIds hmap hwords h) hdirective)
    (fun d hd => ?_) fun d hd => ?_
  · have hreads := readsFrom_ofLine line
    rw [hd] at hreads
    exact ofLine_nodeStyle (NodeStyle.ofLine?_renameIds hmap hreads)
  · have hreads := readsFrom_ofLine line
    rw [hd] at hreads
    exact ofLine_classUse (ClassUse.ofLine?_renameIds hmap hreads)

theorem ofLine_of_header {h : SubgraphHeader} (hread : SubgraphHeader.ofLine? line = some h) :
    ofLine line = .subgraphOpen h := by
  have hsilent := not_silent_of_word (wordThenBlank_of_header hread) isIdent_subgraphWord
  simp [ofLine, hsilent, hread]

/-- A line that is no header says of the new ids what it said of the old ones. -/
theorem isRenamed_renameIds (hmap : GivesIds map) (hheader : SubgraphHeader.ofLine? line = none) :
    IsRenamed map (ofLine line) (ofLine (renameIds map line)) := by
  rcases IdReference.line_cases line with
    ⟨header, h⟩ | ⟨keyword, many, refs, hwords, h⟩ | ⟨l, hlink⟩ | ⟨n, hnode⟩ | hrefs
  · cases hheader.symm.trans h
  · exact isRenamed_of_ofKeyword? hmap hwords h
  · rw [ofLine_of_link hlink, ofLine_of_link (LinkLine.ofLine?_renameIds hmap hlink)]
    exact .link l
  · rw [ofLine_of_node hnode, ofLine_of_node (NodeLine.ofLine?_renameIds hmap hnode)]
    exact .node n
  · have hsame : renameIds map line = line := by
      rw [renameIds, hrefs]
      rfl
    have hreads := readsFrom_ofLine line
    rw [hsame]
    cases hst : ofLine line with
    | silent => exact .silent
    | blockEnd => exact .blockEnd
    | subgraphOpen header =>
      rw [hst] at hreads
      cases hheader.symm.trans hreads
    | link l =>
      rw [hst] at hreads
      cases hrefs.symm.trans (IdReference.ofLine_of_link hreads)
    | node n =>
      rw [hst] at hreads
      cases hrefs.symm.trans (IdReference.ofLine_of_node hreads)
    | _ =>
      refine .directive trivial trivial (fun d hd => ?_) fun d hd => ?_
      · first
        | cases hd; done
        | rw [hst, hd] at hreads
          have hread := ofLine_nodeStyle (NodeStyle.ofLine?_renameIds hmap hreads)
          rwa [hsame, hst] at hread
      · first
        | cases hd; done
        | rw [hst, hd] at hreads
          have hread := ofLine_classUse (ClassUse.ofLine?_renameIds hmap hreads)
          rwa [hsame, hst] at hread

end Statement

/-! ## Lines -/

theorem renamesInPlace (hmap : GivesIds map) (line : Text) : RenamesInPlace map line := by
  rcases IdReference.line_cases line with
    ⟨header, h⟩ | ⟨keyword, many, refs, hwords, h⟩ | ⟨l, h⟩ | ⟨n, h⟩ | hrefs
  · exact SubgraphHeader.renamesInPlace hmap h
  · exact IdReference.renamesInPlace_of_ofKeyword? hmap hwords h
  · exact LinkLine.renamesInPlace hmap h
  · exact NodeLine.renamesInPlace hmap h
  · have hdivided : IsDivided line [] line := ⟨rfl, hrefs, List.forall_mem_nil _⟩
    exact hdivided.renamesInPlace hdivided

/-- A line with other ids refers to the new id wherever it referred to the old one, in the same order, and
nothing between its references is new. -/
theorem IdReference.ofLine_renameIds (hmap : GivesIds map) (line : Text) :
    (IdReference.ofLine (renameIds map line)).map (·.id) =
      (IdReference.ofLine line).map (renameId map ·.id) ∧
    ∃ slots tail, IsDivided line slots tail ∧
      IsDivided (renameIds map line) (slots.map (Slot.renamed map)) tail := by
  obtain ⟨slots, tail, hold, hnew⟩ := renamesInPlace hmap line
  refine ⟨?_, slots, tail, hold, hnew⟩
  have hids := congrArg (List.map (renameId map)) hold.map_id_ofLine
  rw [List.map_map, List.map_map] at hids
  rw [hnew.map_id_ofLine, List.map_map]
  exact hids.symm

/-- The whole title is written anew, and the blanks behind it stay. -/
example : renameIds [("My Title".toList, "sub_1".toList)] "  subgraph \"My Title\" ".toList =
    "  subgraph sub_1 ".toList := by
  decide +kernel

/-- Both ends of a link are one node, which the link also defines and which its label is about. -/
theorem IdReference.ofLine_renameIds_loop :
    let map : List (Text × Text) := [(['A'], "new_1".toList)]
    let line := "  A[\"A --> B\"] -->|A| A:::A;".toList
    GivesIds map ∧ renameIds map line = "  new_1[\"A --> B\"] -->|A| new_1:::A;".toList ∧
      (IdReference.ofLine (renameIds map line)).map (·.id) =
        (IdReference.ofLine line).map (renameId map ·.id) ∧
      ∃ slots tail, IsDivided line slots tail ∧
        IsDivided (renameIds map line) (slots.map (Slot.renamed map)) tail := by
  have hmap : GivesIds [(['A'], "new_1".toList)] :=
    List.forall_mem_singleton.2 ⟨isIdent_eq_true_iff.1 (by decide +kernel), by decide +kernel⟩
  exact ⟨hmap, by decide +kernel, ofLine_renameIds hmap _⟩

end DiagramEditor.Flowchart
