import DiagramEditor.Proofs.Flowchart.Relabel

/-!
# A source with one link written anew

A link line may be written anew in two ways: with its tokens in each other's place
(`LinkLine.turned`) and with another connector (`LinkLine.relinked`). The line is a link again exactly
if the first token admits what follows it now (`LinkLine.isRead_turned_iff`,
`LinkLine.isRead_relinked_iff`).

Then the source says what it said before, with this one link exchanged (`DiffersIn`,
`differsIn_setLink`): no other list of the view changes, and every other link keeps its place
(`DiffersIn.links`). A subgraph lists its members in the order in which lines mention them, so where
both ends of a turned link are first mentioned by it they change places there, and this is all that
happens to subgraphs (`DiffersIn.subgraphs`): from the link on two readers run in step, alike up to
this exchange (`Reader.IsTurned.step`).
-/

namespace DiagramEditor.Flowchart

open Text Source Identifier

variable {s s' : Source} {l l' : LinkLine} {c : Connector} {t x y : Text} {i k : Nat}
  {r : LinkRecord} {gs gs' : List SubgraphRecord}

/-! ## Connectors -/

namespace Connector

/-- How the written form of a connector reads: the text without the blanks around it, unless it is
quoted. -/
def reread (c : Connector) : Connector :=
  match c.text with
  | none => c
  | some text => ⟨.normal, some (if '"' ∈ text then text else trim text)⟩

/-- The text of the connector has no bar, and no entity of a quote. -/
def IsPlain (c : Connector) : Prop :=
  ∀ text ∈ c.text, '|' ∉ text ∧ ¬quoteEntity <:+: text

/-- A text that was read has no entity of a quote. -/
theorem not_infix_text {rest : Text} (h : scan? t = some (c, rest)) :
    ∀ text ∈ c.text, ¬quoteEntity <:+: text := by
  rcases Option.or_eq_some_iff.1 h with h | ⟨-, h⟩
  · obtain ⟨after, -, h⟩ := Option.bind_eq_some_iff.1 h
    obtain ⟨_, -, h⟩ := Option.bind_eq_some_iff.1 h
    obtain ⟨⟨raw, rest'⟩, -, h⟩ := Option.bind_eq_some_iff.1 h
    obtain ⟨_, -, h⟩ := Option.bind_eq_some_iff.1 h
    cases h
    rintro _ ⟨⟩
    exact not_infix_unquote raw
  · obtain ⟨⟨arrow, after⟩, -, h⟩ := Option.bind_eq_some_iff.1 h
    dsimp only at h
    split at h
    · obtain ⟨⟨raw, rest'⟩, -, h⟩ := Option.bind_eq_some_iff.1 h
      cases h
      rintro _ ⟨⟩
      exact not_infix_unquote raw
    · cases h
      rintro _ ⟨⟩

theorem IsWritten.not_infix_text (h : c.IsWritten t) : ∀ text ∈ c.text, ¬quoteEntity <:+: text := by
  refine Connector.not_infix_text (h.reads [] ?_)
  exact Option.some_ne_none _ ∘ Eq.symm

/-- The written form of a text without bars reads as the text. -/
theorem scanBehind?_bars {written : Text} (h : '|' ∉ written) :
    scan? (Arrow.normal.token ++ '|' :: (written ++ ['|'])) =
      some (⟨.normal, some (unquote written)⟩, []) := by
  have hbar : trimStart ('|' :: (written ++ ['|'])) = '|' :: (written ++ ['|']) :=
    trimStart_eq_self (by rintro _ ⟨⟩; decide)
  rw [scan?, scanAround?_arrow, Option.none_or, scanBehind?, scan?_arrow]
  simp only [Option.bind_eq_bind, Option.bind_some, hbar, cutChar?_append_cons h]
  rfl

theorem scan?_render (h : c.IsPlain) : scan? c.render = some (c.reread, []) := by
  obtain ⟨arrow, text⟩ := c
  cases text with
  | none =>
    have hscan := scan?_arrow arrow []
    have haround := scanAround?_arrow arrow []
    rw [List.append_nil] at hscan haround
    rw [render, reread, scan?, haround, Option.none_or, scanBehind?, hscan]
    rfl
  | some text =>
    obtain ⟨hbar, hentity⟩ := h text rfl
    rw [reread]
    dsimp only
    by_cases hquote : '"' ∈ text
    · have hno : '|' ∉ quote text := by
        intro hmem
        rcases List.mem_append.1 (quote_subset text hmem) with hmem | hmem
        · exact absurd hmem (by decide)
        · exact hbar hmem
      have hscan := scanBehind?_bars hno
      rw [unquote_quote hentity] at hscan
      simpa [render, hbar, hquote] using hscan
    · have hscan := scanBehind?_bars hbar
      rw [unquote_of_not_mem hquote hentity] at hscan
      simpa [render, hbar, hquote] using hscan

theorem isWritten_render (h : c.IsPlain) : c.reread.IsWritten c.render := by
  obtain ⟨text, htext, hwritten⟩ := exists_isWritten (scan?_render h)
  rw [List.append_nil] at htext
  exact htext ▸ hwritten

end Connector

/-! ## Lines -/

section Ends

variable (h : isStatementEnd t = true)

include h

/-- Behind a statement there are blanks and semicolons. -/
theorem mem_of_isStatementEnd {d : Char} (hd : d ∈ t) : isSpace d = true ∨ d = ';' := by
  obtain ⟨w, v, hw, hv, ht⟩ := exists_append_trim_append t
  rw [← ht, List.mem_append, List.mem_append] at hd
  rcases hd with (hd | hd) | hd
  · exact .inl (hw d hd)
  · have hend : trim t = [] ∨ trim t = [';'] := by simpa [isStatementEnd] using h
    rcases hend with hend | hend
    · rw [hend] at hd
      cases hd
    · rw [hend] at hd
      exact .inr (List.mem_singleton.1 hd)
  · exact .inl (hv d hd)

theorem isBoundary_of_isStatementEnd : NodeToken.IsBoundary t := by
  refine ⟨fun d hd hmem => ?_, fun d hd => ?_⟩
  · rcases mem_of_isStatementEnd h (List.mem_of_mem_head? hd) with hspace | rfl
    · have hno : ∀ c ∈ NodeToken.openers ++ NodeToken.closers, isSpace c = false :=
        fun _ => eq_false_of_any (by decide)
      rw [hno d hmem] at hspace
      cases hspace
    · exact absurd hmem (by decide)
  · rintro rfl
    exact absurd (mem_of_isStatementEnd h (List.mem_of_mem_head? hd)) (by decide)

/-- Every token may stand at the end of a line. -/
theorem admits_of_isStatementEnd (token : NodeToken) : token.Admits t := by
  have hclass : ∀ d ∈ t.head?, NodeToken.isClassChar d = false := by
    intro d hd
    rcases mem_of_isStatementEnd h (List.mem_of_mem_head? hd) with hspace | rfl
    exacts [NodeToken.isClassChar_of_isSpace hspace, by decide]
  have hquote : '"' ∉ t := fun hmem => absurd (mem_of_isStatementEnd h hmem) (by decide)
  refine ⟨fun _ _ d hd => ?_, fun _ => hclass, ?_⟩
  · exact (Bool.or_eq_false_iff.1 (hclass d hd)).1
  · rw [NodeToken.runsInto, List.any_eq_false]
    intro shape _
    rw [NodeShape.closesQuote_eq_false hquote, Bool.and_false]
    exact Bool.false_ne_true

end Ends

namespace LinkLine

/-- The link with its tokens in each other's place. -/
def turned (l : LinkLine) : LinkLine :=
  { l with source := l.target, target := l.source }

/-- The target may stand in place of the source: it is no keyword, and nothing that follows it there
is read as a part of it. -/
structure Turns (l : LinkLine) : Prop where
  keyword : l.target.isKeyword = false
  admits : l.target.Admits (l.between ++ (l.source.text ++ l.tail))

instance (l : LinkLine) : Decidable l.Turns :=
  decidable_of_iff (l.target.isKeyword = false ∧
    l.target.Admits (l.between ++ (l.source.text ++ l.tail)))
    ⟨fun h => ⟨h.1, h.2⟩, fun h => ⟨h.keyword, h.admits⟩⟩

theorem turned_turned (l : LinkLine) : l.turned.turned = l := rfl

/-- The line with the tokens in each other's place is a link exactly if the target may stand in place
of the source. -/
theorem isRead_turned_iff (h : l.IsRead) : l.turned.IsRead ↔ l.Turns := by
  have hfront := NodeToken.scan?_append_iff h.target
    (h.isBoundary (l.source.text ++ l.tail))
  constructor
  · intro hturned
    exact ⟨hturned.keyword, hfront.1 hturned.source⟩
  · intro hturns
    exact {
      lead := h.lead
      source := hfront.2 hturns.admits
      keyword := hturns.keyword
      between := h.between
      target := (NodeToken.scan?_append_iff h.source (isBoundary_of_isStatementEnd h.tail)).2
        (admits_of_isStatementEnd h.tail l.source)
      tail := h.tail }

/-- A link that was turned may be turned back. -/
theorem turns_turned (h : l.IsRead) (hturns : l.Turns) : l.turned.Turns :=
  (isRead_turned_iff ((isRead_turned_iff h).2 hturns)).1 h

/-- The link with another connector. -/
def relinked (c : Connector) (l : LinkLine) : LinkLine :=
  { l with between := ' ' :: (c.render ++ [' ']), connector := c.reread }

/-- The line with another connector is a link exactly if the source does not go on in it. -/
theorem isRead_relinked_iff (h : l.IsRead) (hc : c.IsPlain) : (l.relinked c).IsRead ↔
    l.source.runsInto (' ' :: (c.render ++ ' ' :: (l.target.text ++ l.tail))) = false := by
  have htext : (l.relinked c).between ++ (l.target.text ++ l.tail) =
      ' ' :: (c.render ++ ' ' :: (l.target.text ++ l.tail)) := by
    simp [relinked]
  have hboundary : NodeToken.IsBoundary (' ' :: (c.render ++ ' ' :: (l.target.text ++ l.tail))) :=
    ⟨by rintro _ ⟨⟩; decide, by rintro _ ⟨⟩; decide⟩
  have hsource := NodeToken.scan?_append_iff h.source hboundary
  constructor
  · intro hread
    have hscan := hread.source
    rw [show (l.relinked c).source = l.source from rfl, show (l.relinked c).target = l.target from rfl,
      show (l.relinked c).tail = l.tail from rfl, htext] at hscan
    exact (hsource.1 hscan).quote
  · intro hquote
    have hscan := hsource.2 ⟨fun _ _ => by rintro _ ⟨⟩; decide, fun _ => by rintro _ ⟨⟩; decide, hquote⟩
    exact {
      lead := h.lead
      source := by rw [← htext] at hscan; exact hscan
      keyword := h.keyword
      between := ⟨[' '], c.render, [' '], rfl, isBlank_singleton_space, isBlank_singleton_space,
        Connector.isWritten_render hc⟩
      target := h.target
      tail := h.tail }

end LinkLine

/-! ## Sources -/

/-- The two sources say the same, but for the link on the line `i`. -/
structure DiffersIn (i : Nat) (l l' : LinkLine) (s s' : Source) : Prop where
  statements : ∃ before after, statements s = before ++ (i, .link l) :: after ∧
    statements s' = before ++ (i, .link l') :: after
  declaration : s'.declarationOf? .flowchart = s.declarationOf? .flowchart
  length : s'.length = s.length
  balance : s'.checkBalance blockRules = s.checkBalance blockRules

/-- The source with another link on the line `i`. -/
def setLink (i : Nat) (l : LinkLine) (s : Source) : Source :=
  { s with lines := s.lines.set i l.toLine }

/-- A link line exchanged for another one. -/
theorem differsIn_setLink (h : (i, Statement.link l) ∈ statements s) (hread : l'.IsRead) :
    DiffersIn i l l' s (setLink i l' s) := by
  obtain ⟨text, hmem, heq⟩ := mem_statements.1 h
  have hline : s.lines[i]? = some text := by
    rw [body_eq_numbered] at hmem
    obtain ⟨hle, htext⟩ := mem_numbered.1 hmem
    rwa [List.getElem?_drop, Nat.add_sub_cancel' hle] at htext
  have hold : LinkLine.ofLine? text = some l := by
    have hreads := Statement.readsFrom_ofLine text
    rw [← heq] at hreads
    exact hreads
  have hnew : LinkLine.ofLine? l'.toLine = some l' := LinkLine.ofLine?_eq_some_iff.2 ⟨hread, rfl⟩
  have hall : List.Forall₂ (fun a b => b = a ∨ BeginsWithNode a ∧ BeginsWithNode b) s.lines
      (setLink i l' s).lines :=
    forall₂_set (fun _ => .inl rfl) hline
      (.inr ⟨beginsWithNode_of_link hold, beginsWithNode_of_link hnew⟩)
  have hdecl : (setLink i l' s).declarationOf? .flowchart = s.declarationOf? .flowchart :=
    congrArg (Option.map Prod.fst) (declarationFrom?_congr hall 0 false false)
  refine ⟨?_, hdecl, ?_, ?_⟩
  · obtain ⟨before, after, hsts⟩ := List.append_of_mem h
    refine ⟨before, after, hsts, ?_⟩
    have hle : s.bodyIndex .flowchart ≤ i := by
      rw [body_eq_numbered] at hmem
      exact (mem_numbered.1 hmem).1
    have hupdated := map_update (hsts ▸ nodup_map_fst_statements s) (.link l')
    rw [← hsts] at hupdated
    rw [← hupdated, Flowchart.statements, Flowchart.statements, body_set hdecl hle rfl, List.map_map,
      List.map_map]
    refine List.map_congr_left fun p _ => Prod.ext rfl ?_
    dsimp only [Function.comp_apply]
    split
    · exact Statement.ofLine_of_link hnew
    · rfl
  · simp [Source.length, setLink]
  · refine checkBalanceFrom_congr (List.Forall₂.imp (fun a b hab => ?_) hall) 0 []
    rcases hab with rfl | ⟨ha, hb⟩
    · rfl
    · rw [ha.blockStep_eq, hb.blockStep_eq]

namespace DiffersIn

variable (h : DiffersIn i l l' s s')

include h

theorem found_eq {α : Type} {get : Statement → Option α} (hl : get (.link l) = none)
    (hl' : get (.link l') = none) :
    found get (Flowchart.statements s') = found get (Flowchart.statements s) := by
  obtain ⟨before, after, hsts, hsts'⟩ := h.statements
  rw [hsts, hsts', found, found, List.filterMap_append, List.filterMap_append]
  simp [hl, hl']

theorem subgraphIds : (View.ofSource s').subgraphIds = (View.ofSource s).subgraphIds := by
  rw [View.subgraphIds_ofSource, View.subgraphIds_ofSource, ← map_snd_found, ← map_snd_found,
    h.found_eq rfl rfl]

/-- Every other link keeps its place. -/
theorem links (hr : (View.ofSource s).links[k]? = some r) (hline : r.line = i) :
    (View.ofSource s').links = (View.ofSource s).links.set k ⟨k, i, l'⟩ := by
  obtain ⟨before, after, hsts, hsts'⟩ := h.statements
  have hfound : ∀ l : LinkLine, View.numberLinks 0 (found Statement.link?
      (before ++ (i, .link l) :: after)) =
        View.numberLinks 0 (found Statement.link? before) ++
          ⟨(found Statement.link? before).length, i, l⟩ ::
            View.numberLinks ((found Statement.link? before).length + 1)
              (found Statement.link? after) := by
    intro l
    have hsplit : found Statement.link? (before ++ (i, .link l) :: after) =
        found Statement.link? before ++ [(i, l)] ++ found Statement.link? after := by
      simp [found, Statement.link?]
    rw [hsplit, View.numberLinks_append, View.numberLinks_append]
    simp [View.numberLinks]
  have hlinks := View.links_ofSource s
  rw [hsts, hfound] at hlinks
  have hlength := View.length_numberLinks 0 (found Statement.link? before)
  -- No other link stands on this line.
  have hthis : (View.ofSource s).links[(found Statement.link? before).length]? =
      some ⟨(found Statement.link? before).length, i, l⟩ := by
    rw [hlinks, List.getElem?_append_right (by omega), hlength]
    simp
  obtain rfl : k = (found Statement.link? before).length := View.eq_of_line_links hr hthis hline
  rw [View.links_ofSource s', hsts', hfound, hlinks, List.set_append_right _ _ (by omega), hlength]
  simp

/-- A node is defined as before if the link mentions it as before, and of an older definition and those
on the link the same one is the richest. -/
theorem definition_node? {id : Text} (hmentions : l'.touches id = l.touches id)
    (hdefinitions : ∀ old, ((Statement.link l').definitionsOf id).foldl View.pick old =
      ((Statement.link l).definitionsOf id).foldl View.pick old) :
    ((View.ofSource s').node? id).map (·.definition) =
      ((View.ofSource s).node? id).map (·.definition) := by
  obtain ⟨before, after, hsts, hsts'⟩ := h.statements
  refine View.definition_node?_congr h.subgraphIds ?_ ?_
  · have hlink : ∀ l : LinkLine,
        View.mentionsOf id ((Statement.link l).mentions i) = [] ↔ l.touches id = false := by
      intro l
      simp [View.mentionsOf, Statement.mentions, LinkLine.touches]
    have hsplit : ∀ l : LinkLine, View.mentionsOf id (View.mentions (before ++ (i, .link l) :: after)) =
        View.mentionsOf id (View.mentions before) ++
          (View.mentionsOf id ((Statement.link l).mentions i) ++
            View.mentionsOf id (View.mentions after)) := by
      intro l
      simp [View.mentions, View.mentionsOf]
    rw [hsts, hsts', hsplit, hsplit]
    simp only [List.append_eq_nil_iff, hlink, hmentions]
  · rw [hsts, hsts']
    simp only [List.map_append, List.map_cons, List.flatMap_append, List.flatMap_cons, View.richest,
      List.foldl_append, hdefinitions]

/-- A link with the same tokens defines the same. -/
theorem definition_node?_of_tokens (hsource : l'.source = l.source) (htarget : l'.target = l.target)
    (id : Text) : ((View.ofSource s').node? id).map (·.definition) =
      ((View.ofSource s).node? id).map (·.definition) := by
  refine h.definition_node? ?_ fun old => ?_
  · rw [LinkLine.touches, LinkLine.touches, hsource, htarget]
  · simp only [Statement.definitionsOf, Statement.tokens, hsource, htarget]

end DiffersIn

/-- Two definitions may come in either order, unless they differ and are equally rich. -/
theorem View.pick_comm {d e : NodeDefinition} (h : d.richness = e.richness → d = e)
    (old : Option NodeDefinition) : pick (pick old d) e = pick (pick old e) d := by
  by_cases heq : d.richness = e.richness
  · rw [h heq]
  · cases old <;> grind [pick]

/-- So does a link that is turned, unless it joins a node to itself and defines it in two equally rich
ways. -/
theorem DiffersIn.definition_node?_turned (h : DiffersIn i l l.turned s s') {id : Text}
    (hself : l.source.id = id → l.target.id = id → ∀ d ∈ l.source.definition,
      ∀ e ∈ l.target.definition, d.richness = e.richness → d = e) :
    ((View.ofSource s').node? id).map (·.definition) =
      ((View.ofSource s).node? id).map (·.definition) := by
  refine h.definition_node? (Bool.or_comm ..) fun old => ?_
  simp only [Statement.definitionsOf, Statement.tokens, LinkLine.turned, List.filter_cons]
  by_cases hsource : l.source.id = id
  · by_cases htarget : l.target.id = id
    · cases hd : l.source.definition with
      | none => simp [hsource, htarget, hd, List.filterMap_cons]
      | some d =>
        cases he : l.target.definition with
        | none => simp [hsource, htarget, hd, he]
        | some e =>
          have hcomm := View.pick_comm (hself hsource htarget d hd e he) old
          simpa [hsource, htarget, hd, he] using hcomm.symm
    · simp [hsource, htarget]
  · simp [hsource]

/-! ## Subgraphs -/

/-- The subgraph is as before, or two members that stand next to each other have changed places. -/
structure SubgraphRecord.IsTurned (x y : Text) (g g' : SubgraphRecord) : Prop where
  id_eq : g'.id = g.id
  label : g'.label = g.label
  span : g'.span = g.span
  parent : g'.parent = g.parent
  members : g'.members = g.members ∨
    ∃ a b, g.members = a ++ x :: y :: b ∧ g'.members = a ++ y :: x :: b

namespace SubgraphRecord.IsTurned

variable {g g' : SubgraphRecord}

theorem refl (x y : Text) (g : SubgraphRecord) : g.IsTurned x y g :=
  ⟨rfl, rfl, rfl, rfl, .inl rfl⟩

theorem addMember (h : g.IsTurned x y g') (id : Text) :
    (g.addMember id).IsTurned x y (g'.addMember id) := by
  have hcontains : g'.members.contains id = g.members.contains id := by
    rcases h.members with heq | ⟨a, b, heq, heq'⟩
    · rw [heq]
    · rw [heq, heq', List.contains_append, List.contains_append, List.contains_cons,
        List.contains_cons, List.contains_cons, List.contains_cons, Bool.or_left_comm (id == y)]
  rw [SubgraphRecord.addMember, SubgraphRecord.addMember, hcontains]
  split
  · exact h
  · refine ⟨h.id_eq, h.label, h.span, h.parent, ?_⟩
    rcases h.members with heq | ⟨a, b, heq, heq'⟩
    · exact .inl (congrArg (· ++ [id]) heq)
    · exact .inr ⟨a, b ++ [id], by simp [heq], by simp [heq']⟩

/-- Two members that come in one order or the other. -/
theorem addMember_addMember (x y : Text) (g : SubgraphRecord) :
    ((g.addMember x).addMember y).IsTurned x y ((g.addMember y).addMember x) := by
  by_cases hxy : x = y
  · rw [hxy]
    exact refl y y _
  · refine ⟨?_, ?_, ?_, ?_, ?_⟩ <;> by_cases hx : x ∈ g.members <;> by_cases hy : y ∈ g.members <;>
      simp [SubgraphRecord.addMember, hx, hy, hxy, Ne.symm hxy]
    exact ⟨g.members, [], rfl, rfl⟩

theorem filter (h : g.IsTurned x y g') (p : Text → Bool) :
    IsTurned x y { g with members := g.members.filter p }
      { g' with members := g'.members.filter p } := by
  refine ⟨h.id_eq, h.label, h.span, h.parent, ?_⟩
  rcases h.members with heq | ⟨a, b, heq, heq'⟩
  · exact .inl (congrArg (List.filter p) heq)
  · simp only [heq, heq', List.filter_append, List.filter_cons]
    by_cases hx : p x = true
    · by_cases hy : p y = true
      · exact .inr ⟨a.filter p, b.filter p, by simp [hx, hy], by simp [hx, hy]⟩
      · exact .inl (by simp [hx, hy])
    · exact .inl (by simp [hx])

/-- Two equal members change nothing. -/
theorem eq (h : g.IsTurned x x g') : g' = g := by
  have hmembers : g'.members = g.members := by
    rcases h.members with heq | ⟨a, b, heq, heq'⟩
    exacts [heq, heq'.trans heq.symm]
  obtain ⟨id, label, span, parent, members⟩ := g
  obtain ⟨id', label', span', parent', members'⟩ := g'
  obtain rfl : id' = id := h.id_eq
  obtain rfl : label' = label := h.label
  obtain rfl : span' = span := h.span
  obtain rfl : parent' = parent := h.parent
  obtain rfl : members' = members := hmembers
  rfl

end SubgraphRecord.IsTurned

/-- Both readers have the same subgraphs open, and their subgraphs are alike. -/
structure Reader.IsTurned (x y : Text) (r r' : Reader) : Prop where
  openBlocks : r'.openBlocks = r.openBlocks
  subgraphs : List.Forall₂ (SubgraphRecord.IsTurned x y) r.view.subgraphs r'.view.subgraphs

/-- The subgraph with more members. -/
def SubgraphRecord.addMembers (ids : List Text) (g : SubgraphRecord) : SubgraphRecord :=
  ids.foldl (fun g id => g.addMember id) g

theorem SubgraphRecord.IsTurned.addMembers {g g' : SubgraphRecord} (h : g.IsTurned x y g')
    (ids : List Text) : (g.addMembers ids).IsTurned x y (g'.addMembers ids) := by
  induction ids generalizing g g' with
  | nil => exact h
  | cons id ids ih => exact ih (h.addMember id)

/-- Mentions inside a subgraph make members of it, and change nothing else about subgraphs. -/
theorem View.subgraphs_addMentions (container : Option Nat) (ms : List (Mention × NodeToken))
    (v : View) : (v.addMentions container ms).subgraphs = match container with
      | some i => v.subgraphs.modify i (·.addMembers (ms.map (·.2.id)))
      | none => v.subgraphs := by
  induction ms generalizing v with
  | nil =>
    cases container with
    | none => rfl
    | some i => exact (List.modify_id i v.subgraphs).symm
  | cons p ms ih =>
    have hstep := ih (v.addMention p.1 p.2 container)
    cases container with
    | none => exact hstep
    | some i =>
      refine hstep.trans ?_
      simp only [View.addMention]
      rw [List.modify_modify_eq]
      rfl

theorem map_id_of_isTurned (h : List.Forall₂ (SubgraphRecord.IsTurned x y) gs gs') :
    gs'.map (·.id) = gs.map (·.id) := by
  induction h with
  | nil => rfl
  | cons hg _ ih => rw [List.map_cons, List.map_cons, hg.id_eq, ih]

namespace Reader.IsTurned

variable {r r' : Reader} {st : Statement}

theorem refl (x y : Text) (r : Reader) : r.IsTurned x y r :=
  ⟨rfl, List.forall₂_same.2 fun g _ => .refl x y g⟩

theorem addMentions (h : r.IsTurned x y r') (ms : List (Mention × NodeToken)) :
    List.Forall₂ (SubgraphRecord.IsTurned x y) (r.view.addMentions r.openBlocks.head? ms).subgraphs
      (r'.view.addMentions r'.openBlocks.head? ms).subgraphs := by
  rw [View.subgraphs_addMentions, View.subgraphs_addMentions, h.openBlocks]
  cases r.openBlocks.head? with
  | none => exact h.subgraphs
  | some i =>
    exact forall₂_modify h.subgraphs (fun _ _ hg => hg) (fun _ _ hg => hg.addMembers _) i

theorem closeAt (h : List.Forall₂ (SubgraphRecord.IsTurned x y) gs gs') (i line : Nat) :
    List.Forall₂ (SubgraphRecord.IsTurned x y)
      (gs.modify i fun g => { g with span := ⟨g.span.start, line⟩ })
      (gs'.modify i fun g => { g with span := ⟨g.span.start, line⟩ }) := by
  refine forall₂_modify h (fun _ _ hg => hg) (fun g g' hg => ?_) i
  exact { hg with span := congrArg (fun span : BlockSpan => (⟨span.start, line⟩ : BlockSpan)) hg.span }

/-- Reading the same line leaves the two readers alike. -/
theorem step (h : r.IsTurned x y r') (i : Nat) (st : Statement) :
    (r.step i st).IsTurned x y (r'.step i st) := by
  have hids : r'.view.subgraphs.map (·.id) = r.view.subgraphs.map (·.id) :=
    map_id_of_isTurned h.subgraphs
  obtain ⟨v, blocks⟩ := r
  obtain ⟨v', blocks'⟩ := r'
  obtain rfl : blocks' = blocks := h.openBlocks
  cases st with
  | link l => exact ⟨rfl, h.addMentions ((Statement.link l).mentions i)⟩
  | node n => exact ⟨rfl, h.addMentions ((Statement.node n).mentions i)⟩
  | blockEnd =>
    cases blocks' with
    | nil => exact h
    | cons j outer => exact ⟨rfl, closeAt h.subgraphs j i⟩
  | subgraphOpen header =>
    refine ⟨congrArg (· :: blocks') h.subgraphs.length_eq.symm, ?_⟩
    refine List.rel_append h.subgraphs (.cons ⟨rfl, rfl, rfl, ?_, .inl rfl⟩ .nil)
    dsimp only
    cases blocks'.head? with
    | none => rfl
    | some j => rw [Option.bind_some, Option.bind_some, ← List.getElem?_map, hids, List.getElem?_map]
  | _ => exact ⟨rfl, h.subgraphs⟩

/-- So does a whole source. -/
theorem readAll (h : r.IsTurned x y r') (sts : List (Nat × Statement)) :
    (r.readAll sts).IsTurned x y (r'.readAll sts) := by
  induction sts generalizing r r' with
  | nil => exact h
  | cons p sts ih => exact ih (h.step p.1 p.2)

/-- Two links that mention the same nodes on a line leave subgraphs alike, if one order of the ends is
as good as the other. -/
theorem step_link (r : Reader) (i : Nat)
    (hends : ∀ g : SubgraphRecord, (g.addMembers [l.source.id, l.target.id]).IsTurned x y
      (g.addMembers [l'.source.id, l'.target.id])) :
    (r.step i (.link l)).IsTurned x y (r.step i (.link l')) := by
  refine ⟨rfl, ?_⟩
  rw [Reader.step_link, Reader.step_link]
  dsimp only
  rw [View.subgraphs_addMentions, View.subgraphs_addMentions]
  cases r.openBlocks.head? with
  | none => exact List.forall₂_same.2 fun g _ => .refl _ _ g
  | some j =>
    refine forall₂_modify (R := Eq) (List.forall₂_same.2 fun _ _ => rfl) ?_ ?_ j
    · rintro g _ rfl
      exact .refl _ _ g
    · rintro g _ rfl
      exact hends g

theorem finish (h : r.IsTurned x y r') (length : Nat) :
    List.Forall₂ (SubgraphRecord.IsTurned x y) (r.finish length).subgraphs
      (r'.finish length).subgraphs := by
  have hclose : ∀ (blocks : List Nat) (v v' : View),
      List.Forall₂ (SubgraphRecord.IsTurned x y) v.subgraphs v'.subgraphs →
        List.Forall₂ (SubgraphRecord.IsTurned x y)
          (blocks.foldl (fun v i => Reader.closeAt i (length - 1) v) v).subgraphs
          (blocks.foldl (fun v i => Reader.closeAt i (length - 1) v) v').subgraphs := by
    intro blocks
    induction blocks with
    | nil => exact fun _ _ h => h
    | cons i blocks ih => exact fun v v' h => ih _ _ (closeAt h i _)
  rw [Reader.finish, Reader.finish, h.openBlocks, View.dropSubgraphIds, View.dropSubgraphIds]
  have hall := hclose r.openBlocks r.view r'.view h.subgraphs
  dsimp only
  rw [map_id_of_isTurned hall, List.forall₂_map_left_iff, List.forall₂_map_right_iff]
  exact hall.imp fun _ _ hg => hg.filter _

end Reader.IsTurned

theorem DiffersIn.forall₂_subgraphs (h : DiffersIn i l l' s s')
    (hends : ∀ g : SubgraphRecord, (g.addMembers [l.source.id, l.target.id]).IsTurned x y
      (g.addMembers [l'.source.id, l'.target.id])) :
    List.Forall₂ (SubgraphRecord.IsTurned x y) (View.ofSource s).subgraphs
      (View.ofSource s').subgraphs := by
  obtain ⟨before, after, hsts, hsts'⟩ := h.statements
  have hstart : Reader.start s' = Reader.start s := by
    rw [Reader.start, Reader.start, h.declaration]
  have hread :=
    (Reader.IsTurned.step_link ((Reader.start s).readAll before) i hends).readAll after
  rw [View.ofSource_eq, View.ofSource_eq, hsts, hsts', hstart, h.length, Reader.readAll,
    Reader.readAll, List.foldl_append, List.foldl_append]
  exact hread.finish s.length

/-- Where a link was turned, subgraphs list its ends in the other order, at most. -/
theorem DiffersIn.subgraphs_turned (h : DiffersIn i l l.turned s s') :
    List.Forall₂ (SubgraphRecord.IsTurned l.source.id l.target.id) (View.ofSource s).subgraphs
      (View.ofSource s').subgraphs :=
  h.forall₂_subgraphs fun g => .addMember_addMember l.source.id l.target.id g

/-- Where a link has the same ends, subgraphs stay as they are. -/
theorem DiffersIn.subgraphs_eq (h : DiffersIn i l l' s s') (hsource : l'.source.id = l.source.id)
    (htarget : l'.target.id = l.target.id) :
    (View.ofSource s').subgraphs = (View.ofSource s).subgraphs := by
  have hall := h.forall₂_subgraphs (x := []) (y := []) fun g => by
    rw [hsource, htarget]
    exact .refl _ _ _
  have heq : List.Forall₂ Eq (View.ofSource s).subgraphs (View.ofSource s').subgraphs :=
    hall.imp fun _ _ hg => hg.eq.symm
  rw [List.forall₂_eq_eq_eq] at heq
  exact heq.symm

end DiagramEditor.Flowchart
