import DiagramEditor.Flowchart.View
import DiagramEditor.Proofs.Flowchart.Token
import DiagramEditor.Proofs.Text.Words

/-!
# What lines say

A statement is read by the recognizer that it names (`Statement.readsFrom_ofLine`). Which recognizer
gets a line is mostly decided by the word that it begins with. A directive and a header need a blank
behind their word (`WordThenBlank`), and such a word is no node if it is one of the words that begin
other lines (`linkLine_eq_none`, `nodeLine_eq_none`). A line without such a word is a link or a node
line or nothing (`Statement.ofLine_of_no_word`).

For the lines that edits write, the statement is known: a line that begins with the word of a
directive is no link and mentions no node (`isDirective_ofLine`), a written definition is a node line
with this very definition (`ofLine_render`), and a bare id is at most a mention (`ofLine_ident`).
-/

namespace DiagramEditor.Flowchart

open Text
open NodeToken (IsIdent)

variable {word line s : Text} {c : Char}

/-! ## The first word of a line -/

section FirstWord

open Identifier

variable {word' : Text}

namespace NodeToken.IsIdent

variable {id : Text}

theorem isTrimmed (h : IsIdent id) : IsTrimmed id where
  head c hc := isSpace_of_isIdentChar (h.2 c (List.mem_of_mem_head? hc))
  last c hc := isSpace_of_isIdentChar (h.2 c (List.mem_of_mem_getLast? hc))

theorem exists_cons (h : IsIdent id) :
    ∃ c r, id = c :: r ∧ Identifier.isIdentChar c = true := by
  obtain ⟨c, r, rfl⟩ := List.exists_cons_of_ne_nil h.1
  exact ⟨c, r, rfl, h.2 c List.mem_cons_self⟩

/-- Behind blanks, a text that begins with an id begins there. -/
theorem trimStart_append (h : IsIdent id) {w : Text} (hw : IsBlank w) (s : Text) :
    trimStart (w ++ (id ++ s)) = id ++ s := by
  obtain ⟨c, r, rfl, hc⟩ := h.exists_cons
  rw [trimStart_of_isBlank_append hw, List.cons_append, trimStart_eq_self]
  simpa using isSpace_of_isIdentChar hc

theorem trimStart_blank_append (h : IsIdent id) {w : Text} (hw : IsBlank w) :
    Text.trimStart (w ++ id) = id := by
  have := h.trimStart_append hw []
  rwa [List.append_nil] at this

/-- The id at the front of a text is its first run of identifier characters. -/
theorem takeWhile_append (h : IsIdent id) (hs : ∀ c ∈ s.head?, Identifier.isIdentChar c = false) :
    (id ++ s).takeWhile Identifier.isIdentChar = id ∧
      (id ++ s).dropWhile Identifier.isIdentChar = s := by
  rw [List.takeWhile_append_of_pos h.2, List.dropWhile_append_of_pos h.2]
  cases s with
  | nil => simp
  | cons c s => simp [hs c rfl]

end NodeToken.IsIdent

/-- The line begins with the word, and a blank stands behind it. -/
def WordThenBlank (word line : Text) : Prop :=
  ∃ c rest, isSpace c = true ∧ trimStart line = word ++ c :: rest

theorem wordThenBlank_append (hword : IsIdent word) {w : Text} (hw : IsBlank w)
    (hc : isSpace c = true) (rest : Text) : WordThenBlank word (w ++ (word ++ c :: rest)) :=
  ⟨c, rest, hc, hword.trimStart_append hw _⟩

theorem startsWithSpace_eq_true : startsWithSpace s = true ↔
    ∃ c rest, isSpace c = true ∧ s = c :: rest := by
  cases s <;> simp [startsWithSpace]

theorem wordThenBlank_of_stripKeyword? {rest : Text} (h : stripKeyword? word line = some rest) :
    WordThenBlank word line := by
  simp only [stripKeyword?, Option.bind_eq_bind, Option.bind_eq_some_iff, Option.guard_eq_some',
    stripFront?_eq_some, startsWithSpace_eq_true] at h
  obtain ⟨_, hline, _, ⟨c, r, hc, rfl⟩, -⟩ := h
  obtain ⟨v, -, hv⟩ := exists_trimEnd_append (trimStart line)
  refine ⟨c, r ++ v, hc, ?_⟩
  rw [← hv, ← trim, hline, List.append_assoc, List.cons_append]

namespace WordThenBlank

/-- The word is the first run of identifier characters of the line, and a blank follows it. -/
theorem takeWhile (h : WordThenBlank word line) (hword : IsIdent word) :
    (trimStart line).takeWhile Identifier.isIdentChar = word ∧ ∃ c rest, isSpace c = true ∧
      (trimStart line).dropWhile Identifier.isIdentChar = c :: rest := by
  obtain ⟨c, rest, hc, hline⟩ := h
  rw [hline]
  have hhead : ∀ d ∈ (c :: rest).head?, Identifier.isIdentChar d = false := by
    simpa using isIdentChar_of_isSpace hc
  obtain ⟨htake, hdrop⟩ := hword.takeWhile_append hhead
  exact ⟨htake, c, rest, hc, hdrop⟩

/-- A line begins with one word only. -/
theorem unique (h : WordThenBlank word line) (h' : WordThenBlank word' line)
    (hword : IsIdent word) (hword' : IsIdent word') : word = word' :=
  (h.takeWhile hword).1.symm.trans (h'.takeWhile hword').1

theorem scan?_eq_some (h : WordThenBlank word line) (hword : IsIdent word) :
    ∃ token rest, NodeToken.scan? (trimStart line) = some (token, rest) ∧ token.id = word ∧
      token.definition = none := by
  obtain ⟨c, rest, hc, hline⟩ := h
  have hident : ∀ d ∈ (c :: rest).head?, Identifier.isIdentChar d = false := by
    simpa using isIdentChar_of_isSpace hc
  have hopen : NodeToken.NoOpener (c :: rest) := by
    rintro d ⟨⟩ hd
    rw [NodeToken.isSpace_of_mem_openers hd] at hc
    contradiction
  rw [hline]
  exact ⟨_, _, NodeToken.scan?_append hword hident (NodeToken.scanDefinition?_of_noOpener hopen) rfl,
    rfl, rfl⟩

theorem trim (h : WordThenBlank word line) (hword : IsIdent word) :
    trim line = word ∨ ∃ c rest, isSpace c = true ∧ Text.trim line = word ++ c :: rest := by
  obtain ⟨c, rest, hc, hline⟩ := h
  rw [Text.trim, hline]
  by_cases hblank : IsBlank (c :: rest)
  · exact .inl (by rw [trimEnd_append_of_isBlank _ hblank, trimEnd_eq_self hword.isTrimmed.last])
  · obtain ⟨v, hv, hrest⟩ := exists_trimEnd_append (c :: rest)
    refine .inr ?_
    rw [trimEnd_append _ hblank]
    cases ht : trimEnd (c :: rest) with
    | nil => rw [ht, List.nil_append] at hrest; exact absurd (hrest ▸ hv) hblank
    | cons d r =>
      rw [ht, List.cons_append] at hrest
      obtain ⟨rfl, -⟩ := List.cons.inj hrest
      exact ⟨d, r, hc, rfl⟩

theorem firstWord (h : WordThenBlank word line) (hword : IsIdent word) :
    Text.firstWord (Text.trim line) = word := by
  have hno : ∀ d ∈ word, isSpace d = false := fun d hd => isSpace_of_isIdentChar (hword.2 d hd)
  rcases h.trim hword with htrim | ⟨c, rest, hc, htrim⟩
  · rw [Text.firstWord, words, htrim, splitWhere_eq_splitOnP, List.splitOnP_eq_singleton hno]
    simp [hword.1]
  · rw [Text.firstWord, words, htrim, splitWhere_eq_splitOnP,
      List.splitOnP_append_cons_of_forall_mem hno c hc]
    simp [hword.1]

end WordThenBlank

end FirstWord

/-! ## Recognizers -/

namespace Statement

/-- The link on the line. -/
def link? : Statement → Option LinkLine
  | link l => some l
  | _ => none

/-- The `linkStyle` directive on the line. -/
def linkStyle? : Statement → Option LinkStyle
  | linkStyle d => some d
  | _ => none

/-- The node tokens on the line from left to right. -/
def tokens : Statement → List NodeToken
  | link l => [l.source, l.target]
  | node n => [n.token]
  | _ => []

/-- The id of the subgraph that the line opens. -/
def subgraph? : Statement → Option Text
  | subgraphOpen header => some header.id
  | _ => none

/-- The line gives properties or a class name, or it is not understood. -/
def IsDirective : Statement → Prop
  | nodeStyle _ | linkStyle _ | classUse _ | classDef _ | other => True
  | _ => False

/-- The recognizer that the statement names reads it from the line. -/
def ReadsFrom (line : Text) : Statement → Prop
  | silent => isSilent (trim line) = true
  | subgraphOpen header => SubgraphHeader.ofLine? line = some header
  | blockEnd => isBlockEnd (trim line) = true
  | nodeStyle d => NodeStyle.ofLine? line = some d
  | linkStyle d => LinkStyle.ofLine? line = some d
  | classUse d => ClassUse.ofLine? line = some d
  | classDef d => ClassDef.ofLine? line = some d
  | link l => LinkLine.ofLine? line = some l
  | node n => NodeLine.ofLine? line = some n
  | other => True

theorem eq_of_linkStyle? {st : Statement} {d : LinkStyle} (h : st.linkStyle? = some d) :
    st = .linkStyle d := by
  cases st <;> cases h
  rfl

theorem readsFrom_ofLine (line : Text) : (ofLine line).ReadsFrom line := by
  rw [ofLine]
  split
  · assumption
  · repeat' split
    all_goals first | assumption | trivial

end Statement

/-- The tokens of a line are read by the token recognizer. -/
theorem exists_scan?_of_mem_tokens {t : NodeToken} (h : t ∈ (Statement.ofLine line).tokens) :
    ∃ s rest, NodeToken.scan? s = some (t, rest) := by
  have hreads := Statement.readsFrom_ofLine line
  cases hst : Statement.ofLine line with
  | link l =>
    rw [hst] at h hreads
    simp only [Statement.ReadsFrom, LinkLine.ofLine?, Option.bind_eq_bind, Option.bind_eq_some_iff,
      Option.pure_def, Option.some.injEq, Prod.exists] at hreads
    obtain ⟨source, _, hsource, _, -, _, _, -, target, _, htarget, _, -, rfl⟩ := hreads
    rcases List.mem_cons.1 h with rfl | h
    · exact ⟨_, _, hsource⟩
    · rw [List.mem_singleton.1 h]
      exact ⟨_, _, htarget⟩
  | node n =>
    rw [hst] at h hreads
    simp only [Statement.ReadsFrom, NodeLine.ofLine?, Option.bind_eq_bind, Option.bind_eq_some_iff,
      Option.pure_def, Option.some.injEq, Prod.exists] at hreads
    obtain ⟨token, _, htoken, _, -, _, -, rfl⟩ := hreads
    rw [List.mem_singleton.1 h]
    exact ⟨_, _, htoken⟩
  | _ =>
    rw [hst] at h
    cases h

/-! ## Lines that begin with a word -/

theorem wordThenBlank_of_header {h : SubgraphHeader} (hread : SubgraphHeader.ofLine? line = some h) :
    WordThenBlank subgraphWord line := by
  simp only [SubgraphHeader.ofLine?, Option.bind_eq_bind, Option.bind_eq_some_iff,
    Option.guard_eq_some', stripFront?_eq_some, startsWithSpace_eq_true] at hread
  obtain ⟨_, hline, _, ⟨c, r, hc, rfl⟩, -⟩ := hread
  exact ⟨c, r, hc, hline⟩

theorem wordThenBlank_of_nodeStyle {d : NodeStyle} (h : NodeStyle.ofLine? line = some d) :
    WordThenBlank NodeStyle.keyword line := by
  obtain ⟨_, hrest, -⟩ := Option.bind_eq_some_iff.1 h
  exact wordThenBlank_of_stripKeyword? hrest

theorem wordThenBlank_of_linkStyle {d : LinkStyle} (h : LinkStyle.ofLine? line = some d) :
    WordThenBlank LinkStyle.keyword line := by
  obtain ⟨_, hrest, -⟩ := Option.bind_eq_some_iff.1 h
  exact wordThenBlank_of_stripKeyword? hrest

theorem wordThenBlank_of_classUse {d : ClassUse} (h : ClassUse.ofLine? line = some d) :
    WordThenBlank ClassUse.keyword line := by
  obtain ⟨_, hrest, -⟩ := Option.bind_eq_some_iff.1 h
  exact wordThenBlank_of_stripKeyword? hrest

theorem wordThenBlank_of_classDef {d : ClassDef} (h : ClassDef.ofLine? line = some d) :
    WordThenBlank ClassDef.keyword line := by
  obtain ⟨_, hrest, -⟩ := Option.bind_eq_some_iff.1 h
  exact wordThenBlank_of_stripKeyword? hrest

theorem isIdent_of_mem_statementKeywords (h : word ∈ statementKeywords) :
    IsIdent word := by
  have hall : statementKeywords.all (fun w => !w.isEmpty && w.all Identifier.isIdentChar) = true := by
    decide
  have hword := List.all_eq_true.1 hall word h
  rw [Bool.and_eq_true, Bool.not_eq_true', List.isEmpty_eq_false_iff] at hword
  exact ⟨hword.1, List.all_eq_true.1 hword.2⟩

/-- A link does not begin with a statement word and a blank. -/
theorem linkLine_eq_none (h : WordThenBlank word line) (hword : word ∈ statementKeywords) :
    LinkLine.ofLine? line = none := by
  obtain ⟨token, rest, hscan, hid, hdef⟩ := h.scan?_eq_some (isIdent_of_mem_statementKeywords hword)
  have hkey : token.isKeyword = true := by
    simpa [NodeToken.isKeyword, hid, hdef] using hword
  simp [LinkLine.ofLine?, hscan, hkey]

/-- A node line does not begin with a statement word and a blank. -/
theorem nodeLine_eq_none (h : WordThenBlank word line) (hword : word ∈ statementKeywords) :
    NodeLine.ofLine? line = none := by
  obtain ⟨token, rest, hscan, hid, hdef⟩ := h.scan?_eq_some (isIdent_of_mem_statementKeywords hword)
  have hkey : token.isKeyword = true := by
    simpa [NodeToken.isKeyword, hid, hdef] using hword
  simp [NodeLine.ofLine?, hscan, hkey]

/-- The words of directives and of `click` lines. -/
def directiveWords : List Text :=
  [NodeStyle.keyword, LinkStyle.keyword, ClassUse.keyword, ClassDef.keyword, "click".toList]

theorem mem_statementKeywords_of_directive (h : word ∈ directiveWords) :
    word ∈ statementKeywords := by
  revert word
  decide

theorem not_silent_of_word (h : WordThenBlank word line) (hword : IsIdent word) :
    isSilent (trim line) = false := by
  obtain ⟨d, r, rfl, hd⟩ := hword.exists_cons
  obtain ⟨r', htrim⟩ : ∃ r', trim line = d :: r' := by
    rcases h.trim hword with htrim | ⟨c, rest, -, htrim⟩
    exacts [⟨_, htrim⟩, ⟨_, htrim⟩]
  have hne : d ≠ '%' := by
    rintro rfl
    exact absurd hd (by decide)
  simp [isSilent, htrim, startsWith, stripFront?, hne.symm]

theorem not_blockEnd_of_word (h : WordThenBlank word line) (hword : IsIdent word)
    (hne : word ≠ endWord) : isBlockEnd (trim line) = false := by
  have hend : trim line ≠ endWord ∧ trim line ≠ endWord ++ [';'] := by
    rcases h.trim hword with htrim | ⟨c, rest, hc, htrim⟩
    · rw [htrim]
      refine ⟨hne, fun heq => ?_⟩
      have := hword.2 ';' (by rw [heq]; decide)
      exact absurd this (by decide)
    · -- There is no blank in either of the two texts.
      have hmem : c ∈ trim line := by rw [htrim]; simp
      have hno : (endWord ++ [';']).any isSpace = false := by decide
      constructor <;> intro heq <;> rw [heq] at hmem
      · rw [eq_false_of_any hno (List.mem_append_left _ hmem)] at hc
        contradiction
      · rw [eq_false_of_any hno hmem] at hc
        contradiction
  simp [isBlockEnd, hend.1, hend.2]

/-- A line with the word of a directive is a directive or nothing. -/
theorem isDirective_ofLine (h : WordThenBlank word line) (hword : word ∈ directiveWords) :
    (Statement.ofLine line).IsDirective := by
  have hkey := mem_statementKeywords_of_directive hword
  have hident := isIdent_of_mem_statementKeywords hkey
  have hreads := Statement.readsFrom_ofLine line
  have hsub : subgraphWord ∈ statementKeywords := by decide
  cases hst : Statement.ofLine line with
  | silent =>
    rw [hst] at hreads
    exact absurd hreads (by simp [Statement.ReadsFrom, not_silent_of_word h hident])
  | subgraphOpen header =>
    rw [hst] at hreads
    have := h.unique (wordThenBlank_of_header hreads) hident
      (isIdent_of_mem_statementKeywords hsub)
    exact absurd hword (by rw [this]; decide)
  | blockEnd =>
    rw [hst] at hreads
    have hne : word ≠ endWord := by rintro rfl; exact absurd hword (by decide)
    exact absurd hreads (by simp [Statement.ReadsFrom, not_blockEnd_of_word h hident hne])
  | link l =>
    rw [hst, Statement.ReadsFrom, linkLine_eq_none h hkey] at hreads
    contradiction
  | node n =>
    rw [hst, Statement.ReadsFrom, nodeLine_eq_none h hkey] at hreads
    contradiction
  | nodeStyle d => trivial
  | linkStyle d => trivial
  | classUse d => trivial
  | classDef d => trivial
  | other => trivial

/-- A recognizer of lines with another word does not read the line. -/
theorem WordThenBlank.eq_none {α : Type} {read? : Text → Option α} {word' : Text}
    (h : WordThenBlank word line) (hword : word ∈ statementKeywords)
    (hread : ∀ a, read? line = some a → WordThenBlank word' line)
    (hword' : word' ∈ statementKeywords) (hne : word ≠ word') : read? line = none :=
  Option.eq_none_iff_forall_ne_some.2 fun a ha =>
    hne (h.unique (hread a ha) (isIdent_of_mem_statementKeywords hword)
      (isIdent_of_mem_statementKeywords hword'))

/-- A line with the word of a directive is neither silent nor the header or the end of a block. -/
theorem ofLine_of_directive (h : WordThenBlank word line) (hword : word ∈ directiveWords) :
    isSilent (trim line) = false ∧ SubgraphHeader.ofLine? line = none ∧
      isBlockEnd (trim line) = false := by
  have hkey := mem_statementKeywords_of_directive hword
  have hident := isIdent_of_mem_statementKeywords hkey
  refine ⟨not_silent_of_word h hident, ?_, not_blockEnd_of_word h hident ?_⟩
  · refine h.eq_none hkey (fun _ => wordThenBlank_of_header) (by decide) ?_
    rintro rfl
    exact absurd hword (by decide)
  · rintro rfl
    exact absurd hword (by decide)

/-- A directive that its recognizer reads is the statement of the line. -/
theorem ofLine_nodeStyle {d : NodeStyle} (h : NodeStyle.ofLine? line = some d) :
    Statement.ofLine line = .nodeStyle d := by
  obtain ⟨hsilent, hheader, hend⟩ := ofLine_of_directive (wordThenBlank_of_nodeStyle h) (by decide)
  simp [Statement.ofLine, hsilent, hheader, hend, h]

@[inherit_doc ofLine_nodeStyle]
theorem ofLine_linkStyle {d : LinkStyle} (h : LinkStyle.ofLine? line = some d) :
    Statement.ofLine line = .linkStyle d := by
  have hword := wordThenBlank_of_linkStyle h
  obtain ⟨hsilent, hheader, hend⟩ := ofLine_of_directive hword (by decide)
  have hstyle : NodeStyle.ofLine? line = none :=
    hword.eq_none (by decide) (fun _ => wordThenBlank_of_nodeStyle) (by decide) (by decide)
  simp [Statement.ofLine, hsilent, hheader, hend, hstyle, h]

@[inherit_doc ofLine_nodeStyle]
theorem ofLine_classUse {d : ClassUse} (h : ClassUse.ofLine? line = some d) :
    Statement.ofLine line = .classUse d := by
  have hword := wordThenBlank_of_classUse h
  obtain ⟨hsilent, hheader, hend⟩ := ofLine_of_directive hword (by decide)
  have hstyle : NodeStyle.ofLine? line = none :=
    hword.eq_none (by decide) (fun _ => wordThenBlank_of_nodeStyle) (by decide) (by decide)
  have hlink : LinkStyle.ofLine? line = none :=
    hword.eq_none (by decide) (fun _ => wordThenBlank_of_linkStyle) (by decide) (by decide)
  simp [Statement.ofLine, hsilent, hheader, hend, hstyle, hlink, h]

/-! ## Lines that begin with an id -/

/-- Without the word of a directive or header at its front, a line with content is a link, a node
line or not understood. -/
theorem ofLine_of_no_word (hsilent : isSilent (trim line) = false)
    (hend : isBlockEnd (trim line) = false)
    (hword : ∀ word ∈ statementKeywords, ¬WordThenBlank word line) :
    Statement.ofLine line = match LinkLine.ofLine? line with
      | some l => .link l
      | none => match NodeLine.ofLine? line with
        | some n => .node n
        | none => .other := by
  have hheader : SubgraphHeader.ofLine? line = none :=
    Option.eq_none_iff_forall_ne_some.2 fun _ h =>
      hword _ (by decide) (wordThenBlank_of_header h)
  have hstyle : NodeStyle.ofLine? line = none :=
    Option.eq_none_iff_forall_ne_some.2 fun _ h =>
      hword _ (by decide) (wordThenBlank_of_nodeStyle h)
  have hlink : LinkStyle.ofLine? line = none :=
    Option.eq_none_iff_forall_ne_some.2 fun _ h =>
      hword _ (by decide) (wordThenBlank_of_linkStyle h)
  have huse : ClassUse.ofLine? line = none :=
    Option.eq_none_iff_forall_ne_some.2 fun _ h =>
      hword _ (by decide) (wordThenBlank_of_classUse h)
  have hdef : ClassDef.ofLine? line = none :=
    Option.eq_none_iff_forall_ne_some.2 fun _ h =>
      hword _ (by decide) (wordThenBlank_of_classDef h)
  cases hl : LinkLine.ofLine? line with
  | some l => simp [Statement.ofLine, hsilent, hheader, hend, hstyle, hlink, huse, hdef, hl]
  | none =>
    cases hn : NodeLine.ofLine? line <;>
      simp [Statement.ofLine, hsilent, hheader, hend, hstyle, hlink, huse, hdef, hl, hn]

/-- Behind an id, a text that goes on with neither a blank nor an identifier character ends every
word of a directive. -/
theorem not_wordThenBlank_of_ident {id : Text} (hid : IsIdent id)
    (hline : trimStart line = id ++ s)
    (hs : ∀ c ∈ s.head?, Identifier.isIdentChar c = false ∧ isSpace c = false)
    (hword : word ∈ statementKeywords) : ¬WordThenBlank word line := by
  intro h
  obtain ⟨-, c, rest, hc, hdrop⟩ := h.takeWhile (isIdent_of_mem_statementKeywords hword)
  rw [hline, (hid.takeWhile_append fun d hd => (hs d hd).1).2] at hdrop
  rw [hdrop] at hs
  rw [(hs c rfl).2] at hc
  contradiction

theorem not_silent_of_ident {id : Text} (hid : IsIdent id) (hline : trimStart line = id ++ s) :
    isSilent (trim line) = false := by
  obtain ⟨d, r, rfl, hd⟩ := hid.exists_cons
  have hhead : (trim line).head? = some d := by rw [head?_trim, hline]; rfl
  obtain ⟨r', htrim⟩ := List.head?_eq_some_iff.1 hhead
  have hne : d ≠ '%' := by
    rintro rfl
    exact absurd hd (by decide)
  simp [isSilent, htrim, startsWith, stripFront?, hne.symm]

theorem connector_scan?_nil : Connector.scan? [] = none := by decide

/-- A line that consists of one token is the mention of a node. -/
theorem ofLine_token {token : NodeToken} (hscan : NodeToken.scan? (trimStart line) = some (token, []))
    (hkey : token.isKeyword = false) (hsilent : isSilent (trim line) = false)
    (hend : isBlockEnd (trim line) = false)
    (hword : ∀ word ∈ statementKeywords, ¬WordThenBlank word line) :
    Statement.ofLine line = .node ⟨indent line, token, []⟩ := by
  have hlink : LinkLine.ofLine? line = none := by
    simp [LinkLine.ofLine?, hscan, hkey, show trimStart ([] : Text) = [] from rfl,
      connector_scan?_nil]
  have hnode : NodeLine.ofLine? line = some ⟨indent line, token, []⟩ := by
    simp [NodeLine.ofLine?, hscan, hkey, show isStatementEnd [] = true from rfl]
  rw [ofLine_of_no_word hsilent hend hword, hlink, hnode]

/-- A definition that was read with a token, written on a line of its own, defines the same. -/
theorem ofLine_render {token : NodeToken} {rest : Text} {d : NodeDefinition} {w id : Text}
    (h : NodeToken.scan? s = some (token, rest)) (hd : token.definition = some d) (hw : IsBlank w)
    (hid : IsIdent id) :
    Statement.ofLine (w ++ d.render id) = .node ⟨w, ⟨id, some d, none, d.render id⟩, []⟩ := by
  obtain ⟨after, -, hdef, -, -, -⟩ := NodeToken.scan?_eq_some_iff.1 h
  rw [hd] at hdef
  obtain ⟨⟨c, cs, hc, hcons⟩, hrender, -⟩ := NodeToken.scanDefinition?_render hdef
  have hspace := NodeToken.isSpace_of_mem_openers hc
  have hident := NodeToken.isIdentChar_of_mem_openers hc
  have hstart : trimStart (w ++ d.render id) = id ++ c :: cs := by
    rw [hrender, hcons, hid.trimStart_append hw]
  have hindent : indent (w ++ d.render id) = w := by
    have := indent_append_trimStart (w ++ d.render id)
    rw [hstart, ← hcons, ← hrender] at this
    exact List.append_cancel_right this
  have hend : isBlockEnd (trim (w ++ d.render id)) = false := by
    have hmem : c ∈ trim (w ++ d.render id) := by
      refine (mem_dense.1 ?_).1
      rw [dense_trim, hrender, hcons]
      exact mem_dense.2 ⟨by simp, hspace⟩
    have hno : NodeToken.openers.any (fun e => (endWord ++ [';']).contains e) = false := by decide
    have hc' : c ∉ endWord ++ [';'] := by simpa using eq_false_of_any hno hc
    have h1 : trim (w ++ d.render id) ≠ endWord := fun e =>
      hc' (List.mem_append_left _ (e ▸ hmem))
    have h2 : trim (w ++ d.render id) ≠ endWord ++ [';'] := fun e => hc' (e ▸ hmem)
    simp [isBlockEnd, h1, h2]
  have hscan : NodeToken.scan? (trimStart (w ++ d.render id)) =
      some (⟨id, some d, none, d.render id⟩, []) := by
    rw [hstart, ← hcons, ← hrender]
    exact NodeToken.scan?_render h hd hid
  rw [ofLine_token hscan rfl (not_silent_of_ident hid hstart) hend fun word hword =>
    not_wordThenBlank_of_ident hid hstart (by simp [hspace, hident]) hword, hindent]

/-- A line with nothing but an id mentions at most the node of this id, and says nothing else about
nodes, links and headers. -/
theorem ofLine_ident {w id : Text} (hw : IsBlank w) (hid : IsIdent id) :
    (Statement.ofLine (w ++ id) = .node ⟨w, ⟨id, none, none, id⟩, []⟩) ∨
      Statement.ofLine (w ++ id) = .blockEnd ∨ Statement.ofLine (w ++ id) = .other := by
  have hstart : trimStart (w ++ id) = id := hid.trimStart_blank_append hw
  have hindent : indent (w ++ id) = w := by
    have := indent_append_trimStart (w ++ id)
    rw [hstart] at this
    exact List.append_cancel_right this
  have hsilent := not_silent_of_ident (s := []) hid (by rw [hstart, List.append_nil])
  have hword : ∀ word ∈ statementKeywords, ¬WordThenBlank word (w ++ id) := fun word hword =>
    not_wordThenBlank_of_ident (s := []) hid (by rw [hstart, List.append_nil]) (by simp) hword
  have hscan : NodeToken.scan? (trimStart (w ++ id)) = some (⟨id, none, none, id⟩, []) := by
    rw [hstart]
    exact NodeToken.scan?_ident hid
  by_cases hend : isBlockEnd (trim (w ++ id)) = true
  · have hheader : SubgraphHeader.ofLine? (w ++ id) = none :=
      Option.eq_none_iff_forall_ne_some.2 fun _ h =>
        hword _ (by decide) (wordThenBlank_of_header h)
    refine .inr (.inl ?_)
    simp [Statement.ofLine, hsilent, hheader, hend]
  · rw [Bool.not_eq_true] at hend
    by_cases hkey : (NodeToken.mk id none none id).isKeyword = true
    · refine .inr (.inr ?_)
      rw [ofLine_of_no_word hsilent hend hword]
      simp [LinkLine.ofLine?, NodeLine.ofLine?, hscan, hkey]
    · rw [Bool.not_eq_true] at hkey
      refine .inl ?_
      rw [ofLine_token hscan hkey hsilent hend hword, hindent]

end DiagramEditor.Flowchart
