import DiagramEditor.Proofs.Flowchart.Exchange

/-!
# Tokens with another definition

A token that is defined anew is read as it is written, whatever the definition was
(`NodeDefinition.IsFaithful`, `NodeToken.scan?_redefine`). What can go wrong stands in front of it. The
source of a link that leaves a quote open may be read on into a new target. It is not if the new target
does not close any shape right behind its first quote (`LinkLine.Shields`), and then the line is a link
between the same nodes again (`LinkLine.IsRead.redefineTarget`).

In front of the end of the connector nothing changes: a quote there is closed by the connector or not
at all, as no connector ends with a blank or a bracket (`LinkLine.IsRead.closesQuote_between`).
-/

namespace DiagramEditor.Flowchart

open Text Identifier

variable {line s t rest : Text} {c : Char}

/-- A shape closes right behind the first double quote of the text. -/
def closesBehindQuote (s : Text) : Bool :=
  match cutChar? '"' s with
  | some (_, rest) => NodeShape.all.any fun shape => startsWith shape.closing (trimStart rest)
  | none => false

theorem closesBehindQuote_of_closesQuote {shape : NodeShape} (h : shape.closesQuote s = true) :
    closesBehindQuote s = true := by
  rw [NodeShape.closesQuote] at h
  rw [closesBehindQuote]
  cases hcut : cutChar? '"' s with
  | none =>
    rw [hcut] at h
    cases h
  | some p =>
    rw [hcut] at h
    exact List.any_eq_true.2 ⟨shape, shape.mem_all, h⟩

/-! ## The source of a link -/

namespace LinkLine

variable {l : LinkLine} {target : Text}

/-- What is written in place of the target does not end a label that the source leaves open: a
double quote in front of the target that has no second one there is not closed together with a shape
behind it. -/
def Shields (target : Text) (l : LinkLine) : Prop :=
  (l.source.text ++ l.between).count '"' = 1 → closesBehindQuote (target ++ l.tail) = false

namespace IsRead

theorem exists_between_eq_cons (h : l.IsRead) : ∃ c r, l.between = c :: r ∧ c ≠ ':' ∧
    c ∉ NodeToken.openers ++ NodeToken.closers := by
  obtain ⟨w, text, v, hbetween, hw, -, hwritten⟩ := h.between
  cases w with
  | nil =>
    obtain ⟨c, r, rfl, hc⟩ := hwritten.head
    have hno : (c == ':' || (NodeToken.openers ++ NodeToken.closers).contains c) = false :=
      eq_false_of_any (p := fun c => c == ':' || (NodeToken.openers ++ NodeToken.closers).contains c)
        (by decide) hc
    exact ⟨c, r ++ v, hbetween, by simpa using hno⟩
  | cons c w =>
    have hspace := hw c List.mem_cons_self
    refine ⟨c, w ++ (text ++ v), hbetween, ?_, fun hc => ?_⟩
    · rintro rfl
      exact absurd hspace (by decide)
    · have hno : ∀ c ∈ NodeToken.openers ++ NodeToken.closers, isSpace c = false :=
        fun _ => eq_false_of_any (by decide)
      rw [hno c hc] at hspace
      cases hspace

theorem isBoundary (h : l.IsRead) (t : Text) : NodeToken.IsBoundary (l.between ++ t) := by
  obtain ⟨c, r, hbetween, hcolon, hbracket⟩ := h.exists_between_eq_cons
  rw [hbetween]
  constructor
  · rintro _ ⟨⟩
    exact hbracket
  · rintro _ ⟨⟩
    exact hcolon

/-- A quote in front of the end of the connector is closed there or not at all. -/
theorem closesQuote_between (h : l.IsRead) (hmem : '"' ∈ l.between) {shape : NodeShape} {t : Text}
    (hcloses : shape.closesQuote (l.between ++ t) = true) (t' : Text) :
    shape.closesQuote (l.between ++ t') = true := by
  obtain ⟨w, text, v, hbetween, -, hv, hwritten⟩ := h.between
  obtain ⟨r, e, rfl, he⟩ := hwritten.last
  obtain ⟨inner, u, rest, hinner, hu, heq⟩ := NodeShape.closesQuote_iff.1 hcloses
  rcases NodeToken.append_eq_append_cons heq with ⟨x, rfl, -⟩ | ⟨x, hx, hrest⟩
  · exact absurd (List.mem_append_left x hmem) hinner
  · rw [← List.append_assoc] at hrest
    rcases List.append_eq_append_iff.1 hrest with ⟨y, hy, -⟩ | ⟨y, hy, -⟩
    · refine NodeShape.closesQuote_iff.2 ⟨inner, u, y ++ t', hinner, hu, ?_⟩
      rw [hx, hy]
      simp
    · -- The last character of the connector stands behind the quote, among blanks and brackets.
      have hquote : e ≠ '"' := by
        rintro rfl
        exact absurd he (by decide)
      have hsplit : (w ++ r) ++ e :: v = inner ++ '"' :: x := by
        rw [← hx, hbetween]
        simp
      have hmem : e ∈ u ++ shape.closing := by
        rw [hy]
        refine List.mem_append_left y ?_
        rcases NodeToken.append_eq_append_cons hsplit with ⟨z, -, hz⟩ | ⟨z, -, hz⟩
        · cases z with
          | nil => exact absurd (List.cons.inj hz).1 hquote
          | cons d z =>
            obtain ⟨-, hz⟩ := List.cons.inj hz
            exact absurd (hv '"' (hz ▸ by simp)) (by decide)
        · rw [hz]
          simp
      rcases List.mem_append.1 hmem with hmem | hmem
      · have hspace := hu e hmem
        rw [eq_false_of_any (p := isSpace) (s := Connector.lasts) (by decide) he] at hspace
        cases hspace
      · have hno : Connector.lasts.any (shape.closing.contains ·) = false := by
          cases shape <;> decide
        have hclosing := eq_false_of_any hno he
        rw [List.contains_iff_mem.2 hmem] at hclosing
        cases hclosing

/-- The source of a link is read as before in front of another target that it does not run into. -/
theorem source_of_runsInto (h : l.IsRead)
    (hruns : '"' ∉ l.between → l.source.runsInto (target ++ l.tail) = false) :
    NodeToken.scan? (l.source.text ++ (l.between ++ (target ++ l.tail))) =
      some (l.source, l.between ++ (target ++ l.tail)) := by
  obtain ⟨c, r, hbetween, -⟩ := h.exists_between_eq_cons
  have hadmits := (NodeToken.scan?_append_iff h.source (h.isBoundary _)).1 h.source
  refine (NodeToken.scan?_append_iff h.source (h.isBoundary _)).2 ⟨?_, ?_, ?_⟩
  · have hident := hadmits.ident
    rw [hbetween] at hident ⊢
    exact hident
  · have hclass := hadmits.classSuffix
    rw [hbetween] at hclass ⊢
    exact hclass
  · by_cases hquote : '"' ∈ l.between
    · have hold := hadmits.quote
      rw [NodeToken.runsInto, List.any_eq_false] at hold ⊢
      intro shape hshape hboth
      obtain ⟨hopens, hcloses⟩ := Bool.and_eq_true_iff.1 hboth
      refine hold shape hshape (Bool.and_eq_true_iff.2 ⟨hopens, ?_⟩)
      exact h.closesQuote_between hquote hcloses _
    · rw [NodeToken.runsInto_append hquote]
      exact hruns hquote

/-- The source of a link is read as before if the new target does not end its label. -/
theorem source_of_shields (h : l.IsRead) (hshields : l.Shields target) :
    NodeToken.scan? (l.source.text ++ (l.between ++ (target ++ l.tail))) =
      some (l.source, l.between ++ (target ++ l.tail)) := by
  refine h.source_of_runsInto fun hquote => ?_
  rw [NodeToken.runsInto, List.any_eq_false]
  intro shape _ hboth
  obtain ⟨hopens, hcloses⟩ := Bool.and_eq_true_iff.1 hboth
  have hident : '"' ∉ l.source.text.takeWhile isIdentChar := fun hmem =>
    absurd (List.mem_takeWhile_imp hmem) (by decide)
  have hone : (l.source.text ++ l.between).count '"' = 1 := by
    rw [← List.takeWhile_append_dropWhile (p := isIdentChar) (l := l.source.text),
      List.count_append, List.count_append, List.count_eq_zero.2 hident,
      NodeShape.count_of_opensQuote hopens, List.count_eq_zero.2 hquote]
  have hno := hshields hone
  rw [closesBehindQuote_of_closesQuote hcloses] at hno
  cases hno

end IsRead

end LinkLine

/-! ## Definitions that come back -/

namespace NodeDefinition

variable {label : Text} {entries : List (Text × Text)}

/-- The definition is written so that it reads the same again, whatever follows. -/
structure IsFaithful (d : NodeDefinition) : Prop where
  opener : ∃ c cs, d.render [] = c :: cs ∧ c ∈ NodeToken.openers
  render : ∀ id, d.render id = id ++ d.render []
  scan : ∀ rest, NodeToken.scanDefinition? (d.render [] ++ rest) = some (some d, rest)

theorem isFaithful_classic (h : unquote (quote label) = label) (shape : NodeShape) :
    (classic shape label).IsFaithful := by
  have hrender : ∀ id, (classic shape label).render id =
      id ++ NodeToken.shaped shape (quote label) := by
    intro id
    simp [NodeDefinition.render, classic, NodeToken.shaped]
  obtain ⟨c, cs, hopen, hc⟩ := NodeToken.opening_eq_cons shape
  refine ⟨⟨c, cs ++ (quote label ++ shape.closing), ?_, hc⟩, fun id => ?_, fun rest => ?_⟩
  · rw [hrender, NodeToken.shaped, hopen]
    rfl
  · rw [hrender, hrender, List.nil_append]
  · have hread := NodeToken.scanDefinition?_shaped (NodeToken.scanShape?_quote shape label rest)
    rw [hrender, List.nil_append, hread, h]
    rfl

theorem isFaithful_advanced (h : ∀ entry ∈ entries, IsEntry entry) :
    (advanced entries).IsFaithful := by
  have hrender : ∀ id, (advanced entries).render id =
      id ++ '@' :: '{' :: (' ' :: (renderEntries entries ++ [' ']) ++ ['}']) := by
    intro id
    simp [NodeDefinition.render, advanced]
  have hspace : IsClosed (· == '}') [' '] := isClosed_space rfl
  have hclosed := hspace.append ((isClosed_renderEntries h).append hspace)
  refine ⟨⟨'@', _, hrender [], by decide⟩, fun id => ?_, fun rest => ?_⟩
  · rw [hrender, hrender]
    rfl
  · have hread := NodeToken.scanDefinition?_entries hclosed rest
    rw [ofEntries_eq, List.singleton_append, readEntries_renderEntries h] at hread
    rw [hrender, ← hread]
    simp

theorem lookup_setEntry (key value : Text) (entries : List (Text × Text)) :
    (setEntry key value entries).lookup key = some value := by
  induction entries with
  | nil => simp [setEntry]
  | cons entry entries ih =>
    rw [setEntry]
    split
    · next hkey => simp [hkey]
    · next hkey => rw [List.lookup_cons, beq_false_of_ne (Ne.symm hkey), ih]

theorem setEntry_setEntry (key value : Text) (entries : List (Text × Text)) :
    setEntry key value (setEntry key value entries) = setEntry key value entries := by
  induction entries with
  | nil => simp [setEntry]
  | cons entry entries ih =>
    rw [setEntry]
    split
    · next hkey => simp [setEntry, hkey]
    · next hkey => rw [setEntry, if_neg hkey, ih]

theorem mem_setEntry {key value : Text} {entry : Text × Text}
    (h : entry ∈ setEntry key value entries) : entry ∈ entries ∨ entry = (key, value) := by
  induction entries with
  | nil => exact .inr (List.mem_singleton.1 h)
  | cons e entries ih =>
    rw [setEntry] at h
    split at h
    · next hkey =>
      rcases List.mem_cons.1 h with rfl | h
      exacts [.inr (by rw [hkey]), .inl (List.mem_cons_of_mem e h)]
    · rcases List.mem_cons.1 h with rfl | h
      · exact .inl List.mem_cons_self
      · exact (ih h).imp_left (List.mem_cons_of_mem e)

theorem isEntry_quote (label : Text) : IsEntry (labelKey, quote label) := by
  have hfront : ∀ sep : Char, sep ≠ ':' → sep ∉ labelKey → IsClosed (· == sep) (labelKey ++ [':']) := by
    intro sep hcolon hsep
    refine isClosed_of_forall fun c hc => ?_
    have hquote : '"' ∉ labelKey ++ [':'] := by decide
    refine ⟨ne_of_mem_of_not_mem hc hquote, beq_false_of_ne ?_⟩
    rintro rfl
    rcases List.mem_append.1 hc with hc | hc
    exacts [hsep hc, hcolon (List.mem_singleton.1 hc)]
  have hclosed : ∀ sep : Char, sep ≠ ':' → sep ∉ labelKey →
      IsClosed (· == sep) (labelKey ++ ':' :: quote label) := by
    intro sep hcolon hsep
    have := (hfront sep hcolon hsep).append (isClosed_quote (· == sep) label)
    simpa using this
  have hkey : trim labelKey = labelKey := by decide
  have hcolon : ':' ∉ labelKey := by decide
  exact {
    key_ne_nil := by rintro ⟨⟩
    key_trimmed := trim_eq_self_iff.1 hkey
    value_trimmed := isTrimmed_quote label
    no_colon := hcolon
    no_comma := hclosed ',' (by decide) (by decide)
    no_brace := hclosed '}' (by decide) (by decide) }

/-- A definition that was read comes back with another label. -/
theorem isFaithful_withLabel {d : NodeDefinition} (h : unquote (quote label) = label)
    (hd : NodeToken.scanDefinition? s = some (some d, rest)) : (d.withLabel label).IsFaithful := by
  obtain ⟨body, -, hbody, rfl⟩ | ⟨shape, raw, -, -, rfl⟩ := NodeToken.scanDefinition?_eq_some hd
  · have hentries : ∀ entry ∈ (splitOutside ',' body).filterMap entryOf?, IsEntry entry :=
      fun _ => isEntry_of_mem hbody
    rw [ofEntries_eq]
    generalize (splitOutside ',' body).filterMap entryOf? = entries at *
    have hlabel : (advanced entries).withLabel label =
        advanced (setEntry labelKey (quote label) entries) := by
      rw [withLabel, advanced, advanced, lookup_setEntry]
      simp only [Option.map_some, h]
    rw [hlabel]
    refine isFaithful_advanced fun entry hentry => ?_
    rcases mem_setEntry hentry with hentry | rfl
    exacts [hentries entry hentry, isEntry_quote label]
  · exact isFaithful_classic h shape

theorem withLabel_withLabel (label : Text) (d : NodeDefinition) :
    (d.withLabel label).withLabel label = d.withLabel label := by
  cases hform : d.form with
  | classic shape => simp [withLabel, hform, classic]
  | advanced entries => simp [withLabel, hform, setEntry_setEntry]

/-- Whatever definition a token has, or none, it is rebuilt into one that comes back. -/
def Rebuilds (rebuild : Option NodeDefinition → NodeDefinition) : Prop :=
  ∀ s d rest, NodeToken.scanDefinition? s = some (d, rest) → (rebuild d).IsFaithful

end NodeDefinition

/-! ## Lines with another definition -/

section Redefine

variable {rebuild : Option NodeDefinition → NodeDefinition} {token : NodeToken} {l : LinkLine}
  {n : NodeLine}

namespace NodeToken

/-- The token defined anew, with the class name that it had. -/
def redefine (rebuild : Option NodeDefinition → NodeDefinition) (token : NodeToken) : NodeToken :=
  { token with
    definition := some (rebuild token.definition)
    text := (rebuild token.definition).render token.id ++ classText token.classSuffix }

theorem scan?_redefine (hr : NodeDefinition.Rebuilds rebuild)
    (h : scan? (token.text ++ rest) = some (token, rest))
    (hclass : scanClass (classText token.classSuffix ++ t) = (token.classSuffix, t)) :
    scan? ((token.redefine rebuild).text ++ t) = some (token.redefine rebuild, t) := by
  obtain ⟨-, definition, hident, -, -, hdef, -⟩ := scan?_eq_some_iff_isToken.1 h
  obtain ⟨⟨c, cs, hcons, hc⟩, hrender, hscan⟩ := hr _ _ _ hdef
  refine (?_ : IsToken (token.redefine rebuild) ((rebuild token.definition).render []) t).scan?
  refine ⟨hident, ?_, ?_, hscan _, hclass⟩
  · rw [redefine, hrender, List.append_assoc]
  · rw [hcons]
    rintro _ ⟨⟩
    exact isIdentChar_of_mem_openers hc

end NodeToken

/-- The link with its source defined anew. -/
def LinkLine.redefineSource (rebuild : Option NodeDefinition → NodeDefinition) (l : LinkLine) :
    LinkLine :=
  { l with source := l.source.redefine rebuild }

/-- The link with its target defined anew. -/
def LinkLine.redefineTarget (rebuild : Option NodeDefinition → NodeDefinition) (l : LinkLine) :
    LinkLine :=
  { l with target := l.target.redefine rebuild }

/-- The node line with its token defined anew. -/
def NodeLine.redefine (rebuild : Option NodeDefinition → NodeDefinition) (n : NodeLine) : NodeLine :=
  { n with token := n.token.redefine rebuild }

/-- A new target leaves the link readable unless the source goes on in it. -/
theorem LinkLine.IsRead.redefineTarget (h : l.IsRead) (hr : NodeDefinition.Rebuilds rebuild)
    (hshields : l.Shields (l.target.redefine rebuild).text) : (l.redefineTarget rebuild).IsRead where
  lead := h.lead
  source := h.source_of_shields hshields
  keyword := h.keyword
  between := h.between
  target := by
    obtain ⟨-, definition, htoken⟩ := NodeToken.scan?_eq_some_iff_isToken.1 h.target
    exact NodeToken.scan?_redefine hr h.target htoken.classSuffix
  tail := h.tail

/-- A new source leaves the link readable. -/
theorem LinkLine.IsRead.redefineSource (h : l.IsRead) (hr : NodeDefinition.Rebuilds rebuild) :
    (l.redefineSource rebuild).IsRead where
  lead := h.lead
  source := by
    obtain ⟨-, definition, htoken⟩ := NodeToken.scan?_eq_some_iff_isToken.1 h.source
    exact NodeToken.scan?_redefine hr h.source htoken.classSuffix
  keyword := rfl
  between := h.between
  target := h.target
  tail := h.tail

/-- A new token leaves the node line readable. -/
theorem NodeLine.IsRead.redefine (h : n.IsRead) (hr : NodeDefinition.Rebuilds rebuild) :
    (n.redefine rebuild).IsRead where
  lead := h.lead
  token := by
    obtain ⟨-, definition, htoken⟩ := NodeToken.scan?_eq_some_iff_isToken.1 h.token
    exact NodeToken.scan?_redefine hr h.token htoken.classSuffix
  tail := h.tail
  keyword := rfl

end Redefine

end DiagramEditor.Flowchart
