import DiagramEditor.Edit.Flowchart.Delete
import DiagramEditor.Proofs.Edit.Basic
import DiagramEditor.Proofs.Flowchart.Directive
import DiagramEditor.Proofs.Flowchart.View

/-!
# Which lines go and which change

The plan of a removal is a list of line numbers and a list of new texts. Seen from a line, it depends
on what the line says: link and node lines go with their ids, directives go with the last thing they
are about, and only directives change (`mem_lines_iff`, `mem_changes_iff`). After the removal the
body holds the lines that stay, in order, and each of them says what it said before, directives apart
(`isDeclared_apply`, `flatMap_kept`).
-/

namespace DiagramEditor.Edit.Flowchart

open DiagramEditor.Flowchart Source Text

variable {targets : List Text} {extra : List Nat} {s s' : Source} {removal : Removal} {i : Nat}

/-! ## The plan -/

/-- The line `i`, blank if there is none. -/
def lineOf (s : Source) (i : Nat) : Text :=
  (s.lines[i]?).getD []

theorem fates_eq_ok {α : Type} {fate : Text → α → Fate} {ds : List (Nat × α)}
    {out : List (Nat × Fate)} (h : fates fate s ds = .ok out) :
    out = ds.map fun p => (p.1, fate (indent (lineOf s p.1)) p.2) := by
  have hall := mapM_eq_ok h
  clear h
  induction hall with
  | nil => rfl
  | @cons p q ds out hpq _ ih =>
    obtain ⟨line, hline, rfl⟩ := map_eq_ok.1 hpq
    rw [ih, List.map_cons, lineOf, lineAt_eq_ok hline]
    rfl

/-- The fates of the `class` directives. -/
def classFates (targets : List Text) (s : Source) : List (Nat × Fate) :=
  (View.ofSource s).classes.map fun p => (p.1, classFate targets (indent (lineOf s p.1)) p.2)

/-- The lines that go whatever becomes of the `linkStyle` directives. -/
def firstLines (targets : List Text) (extra : List Nat) (s : Source) : List Nat :=
  extra ++ linesAbout targets (View.ofSource s) s ++
    ((classFates targets s).filter fun p => p.2 = .remove).map Prod.fst

/-- The positions of the links that go. -/
def removedLinks (targets : List Text) (extra : List Nat) (s : Source) : List Nat :=
  ((View.ofSource s).links.filter fun r => (firstLines targets extra s).contains r.line).map (·.index)

/-- The fates of the `linkStyle` directives on lines that do not go anyway. -/
def linkStyleFates (targets : List Text) (extra : List Nat) (s : Source) : List (Nat × Fate) :=
  ((View.ofSource s).linkStyles.filter fun p => !(firstLines targets extra s).contains p.1).map fun p =>
    (p.1, linkStyleFate (removedLinks targets extra s) (indent (lineOf s p.1)) p.2)

theorem plan_eq_ok (h : Removal.plan targets extra (View.ofSource s) s = .ok removal) :
    removal.lines = firstLines targets extra s ++
        ((linkStyleFates targets extra s).filter fun p => p.2 = .remove).map Prod.fst ∧
      removal.changes = (classFates targets s ++ linkStyleFates targets extra s).filterMap fun p =>
        if removal.lines.contains p.1 then none else p.2.text?.map fun text => (p.1, text) := by
  obtain ⟨classes, hclasses, h⟩ := bind_eq_ok.1 h
  obtain ⟨linkStyles, hlinkStyles, h⟩ := bind_eq_ok.1 h
  obtain rfl := fates_eq_ok hclasses
  obtain rfl := fates_eq_ok hlinkStyles
  cases h
  exact ⟨rfl, rfl⟩

/-! ## Lines that go -/

/-- The extra lines are lines of links. -/
def AreLinkLines (extra : List Nat) (s : Source) : Prop :=
  ∀ i ∈ extra, ∃ l, (i, Statement.link l) ∈ statements s

/-- The link goes: its line is one of the extra ones, or it starts or ends at a deleted id. -/
def Goes (targets : List Text) (extra : List Nat) (i : Nat) (l : LinkLine) : Prop :=
  i ∈ extra ∨ l.source.id ∈ targets ∨ l.target.id ∈ targets

theorem mem_standalone_iff : (∃ n ∈ (View.ofSource s).nodes, n.id ∈ targets ∧
      ∃ m ∈ n.mentions, m.standalone = true ∧ m.line = i) ↔
    ∃ n, (i, Statement.node n) ∈ statements s ∧ n.token.id ∈ targets ∧
      n.token.id ∉ (View.ofSource s).subgraphIds := by
  constructor
  · rintro ⟨n, hn, htarget, m, hm, hstand, rfl⟩
    obtain ⟨t, hmem, hid⟩ := (View.mem_mentions_of_node hn).1 hm
    obtain ⟨⟨line, st⟩, hst, hp⟩ := View.mem_mentions.1 hmem
    cases st with
    | node nl =>
      obtain ⟨rfl, rfl⟩ := Prod.mk.inj (List.mem_singleton.1 hp)
      exact ⟨nl, hst, hid ▸ htarget, hid ▸ View.not_mem_subgraphIds hn⟩
    | link l =>
      rcases List.mem_cons.1 hp with hp | hp
      · obtain ⟨rfl, -⟩ := Prod.mk.inj hp
        cases hstand
      · obtain ⟨rfl, -⟩ := Prod.mk.inj (List.mem_singleton.1 hp)
        cases hstand
    | _ => cases hp
  · rintro ⟨nl, hst, htarget, hsub⟩
    have hmem : (_, nl.token) ∈ View.mentions (statements s) :=
      View.mem_mentions.2 ⟨_, hst, List.mem_singleton.2 rfl⟩
    obtain ⟨n, hn, hid⟩ := View.exists_mem_nodes hmem hsub
    exact ⟨n, hn, hid ▸ htarget, _, (View.mem_mentions_of_node hn).2 ⟨_, hmem, hid.symm⟩, rfl, rfl⟩

theorem mem_linesAbout_iff : i ∈ linesAbout targets (View.ofSource s) s ↔
    (∃ n, (i, Statement.node n) ∈ statements s ∧ n.token.id ∈ targets ∧
      n.token.id ∉ (View.ofSource s).subgraphIds) ∨
    (∃ l, (i, Statement.link l) ∈ statements s ∧ (l.source.id ∈ targets ∨ l.target.id ∈ targets)) ∨
    (∃ d, (i, Statement.nodeStyle d) ∈ statements s ∧ d.target ∈ targets) ∨
    (∃ line, s.lines[i]? = some line ∧ isClickOn targets line = true) := by
  rw [linesAbout, List.mem_append, List.mem_append, List.mem_append, or_assoc, or_assoc,
    ← mem_standalone_iff]
  refine or_congr ?_ (or_congr ?_ (or_congr ?_ ?_))
  · simp only [List.mem_flatMap, List.mem_filter, List.mem_map, List.contains_iff_mem]
    constructor
    · rintro ⟨n, ⟨hn, ht⟩, m, ⟨hm, hs⟩, rfl⟩
      exact ⟨n, hn, ht, m, hm, hs, rfl⟩
    · rintro ⟨n, hn, ht, m, hm, hs, rfl⟩
      exact ⟨n, ⟨hn, ht⟩, m, ⟨hm, hs⟩, rfl⟩
  · simp only [List.mem_map, List.mem_filter, Bool.or_eq_true, List.contains_iff_mem]
    constructor
    · rintro ⟨r, ⟨hr, ht⟩, rfl⟩
      exact ⟨r.link, View.mem_links hr, ht⟩
    · rintro ⟨l, hl, ht⟩
      obtain ⟨r, hr, rfl, rfl⟩ := View.exists_mem_links hl
      exact ⟨r, ⟨hr, ht⟩, rfl⟩
  · rw [View.styles_ofSource]
    simp only [List.mem_map, List.mem_filter, List.contains_iff_mem, Prod.exists, mem_found]
    constructor
    · rintro ⟨_, d, ⟨⟨st, hst, hd⟩, ht⟩, rfl⟩
      cases st <;> cases hd
      exact ⟨d, hst, ht⟩
    · rintro ⟨d, hst, ht⟩
      exact ⟨i, d, ⟨⟨_, hst, rfl⟩, ht⟩, rfl⟩
  · rw [numberedFrom_eq, List.drop_zero]
    simp only [List.mem_map, List.mem_filter, Prod.exists, mem_numbered]
    constructor
    · rintro ⟨_, line, ⟨⟨-, hline⟩, hc⟩, rfl⟩
      exact ⟨line, hline, hc⟩
    · rintro ⟨line, hline, hc⟩
      exact ⟨i, line, ⟨⟨Nat.zero_le i, hline⟩, hc⟩, rfl⟩

theorem mem_firstLines_iff : i ∈ firstLines targets extra s ↔
    i ∈ extra ∨ i ∈ linesAbout targets (View.ofSource s) s ∨
      ∃ d, (i, Statement.classUse d) ∈ statements s ∧
        classFate targets (indent (lineOf s i)) d = .remove := by
  rw [firstLines, List.mem_append, List.mem_append, or_assoc, classFates, View.classes_ofSource]
  refine or_congr Iff.rfl (or_congr Iff.rfl ?_)
  simp only [List.mem_map, List.mem_filter, Prod.exists, mem_found, decide_eq_true_eq]
  constructor
  · rintro ⟨_, _, ⟨⟨i, d, ⟨st, hst, hd⟩, heq⟩, hremove⟩, rfl⟩
    obtain ⟨rfl, rfl⟩ := Prod.mk.inj heq
    cases st <;> cases hd
    exact ⟨d, hst, hremove⟩
  · rintro ⟨d, hst, hremove⟩
    exact ⟨i, _, ⟨⟨i, d, ⟨_, hst, rfl⟩, rfl⟩, hremove⟩, rfl⟩

/-- A line with the word of a directive that says something about nodes, links or subgraphs is no
`click` line. -/
theorem wordThenBlank_of_isClickOn {line : Text} (h : isClickOn targets line = true) :
    WordThenBlank "click".toList line := by
  rw [isClickOn, Bool.and_eq_true] at h
  obtain ⟨rest, hrest⟩ := Option.isSome_iff_exists.1 h.1
  exact ⟨' ', rest, by decide, by rw [stripFront?_eq_some.1 hrest]; rfl⟩

theorem not_isClickOn {line : Text} (h : ¬(Statement.ofLine line).IsDirective) :
    isClickOn targets line = false := by
  rw [← Bool.not_eq_true]
  exact fun hc => h (isDirective_ofLine (wordThenBlank_of_isClickOn hc) (by decide))

/-- A `linkStyle` line goes for its own sake only. -/
theorem not_mem_firstLines_of_linkStyle (targets : List Text) (hextra : AreLinkLines extra s)
    {d : LinkStyle}
    (h : (i, Statement.linkStyle d) ∈ statements s) : i ∉ firstLines targets extra s := by
  intro hi
  rcases mem_firstLines_iff.1 hi with hi | hi | ⟨c, hc, -⟩
  · obtain ⟨l, hl⟩ := hextra i hi
    cases eq_of_mem_statements h hl
  · rcases mem_linesAbout_iff.1 hi with ⟨n, hn, -⟩ | ⟨l, hl, -⟩ | ⟨c, hc, -⟩ | ⟨line, hline, hclick⟩
    · cases eq_of_mem_statements h hn
    · cases eq_of_mem_statements h hl
    · cases eq_of_mem_statements h hc
    · obtain ⟨text, htext, hread⟩ := exists_line_of_mem_statements h
      rw [hline, Option.some.injEq] at htext
      subst htext
      have hlink := Statement.readsFrom_ofLine line
      rw [hread] at hlink
      have := (wordThenBlank_of_linkStyle hlink).unique (wordThenBlank_of_isClickOn hclick)
        (isIdent_of_mem_statementKeywords (by decide)) (isIdent_of_mem_statementKeywords (by decide))
      exact absurd this (by decide)
  · cases eq_of_mem_statements h hc

/-- Every line that goes is of one of these forms, and for its own reason. -/
theorem mem_lines_iff (hextra : AreLinkLines extra s)
    (h : Removal.plan targets extra (View.ofSource s) s = .ok removal) :
    i ∈ removal.lines ↔ i ∈ extra ∨ i ∈ linesAbout targets (View.ofSource s) s ∨
      (∃ d, (i, Statement.classUse d) ∈ statements s ∧
        classFate targets (indent (lineOf s i)) d = .remove) ∨
      ∃ d, (i, Statement.linkStyle d) ∈ statements s ∧
        linkStyleFate (removedLinks targets extra s) (indent (lineOf s i)) d = .remove := by
  rw [(plan_eq_ok h).1, List.mem_append, mem_firstLines_iff, or_assoc, or_assoc]
  refine or_congr Iff.rfl (or_congr Iff.rfl (or_congr Iff.rfl ?_))
  rw [linkStyleFates, View.linkStyles_ofSource]
  simp only [List.mem_map, List.mem_filter, Prod.exists, mem_found, decide_eq_true_eq]
  constructor
  · rintro ⟨_, _, ⟨⟨i, d, ⟨⟨st, hst, hd⟩, -⟩, heq⟩, hremove⟩, rfl⟩
    obtain ⟨rfl, rfl⟩ := Prod.mk.inj heq
    cases st <;> cases hd
    exact ⟨d, hst, hremove⟩
  · rintro ⟨d, hst, hremove⟩
    have hno := not_mem_firstLines_of_linkStyle targets hextra hst
    exact ⟨i, _, ⟨⟨i, d, ⟨⟨_, hst, rfl⟩, by simpa using hno⟩, rfl⟩, hremove⟩, rfl⟩

theorem exists_linkStyle_of_mem_linkStyleFates {p : Nat × Fate}
    (h : p ∈ linkStyleFates targets extra s) : ∃ d, (p.1, Statement.linkStyle d) ∈ statements s := by
  rw [linkStyleFates, View.linkStyles_ofSource] at h
  obtain ⟨q, hq, rfl⟩ := List.mem_map.1 h
  obtain ⟨st, hst, hd⟩ := mem_found.1 (List.mem_filter.1 hq).1
  cases st <;> cases hd
  exact ⟨_, hst⟩

/-- Of the lines that are no directives, the extra ones go, the links at deleted ids and the lines that
hold a deleted node alone. -/
theorem mem_lines_iff_of_not_isDirective
    (hplan : Removal.plan targets extra (View.ofSource s) s = .ok removal) {st : Statement}
    (h : (i, st) ∈ statements s) (hst : ¬st.IsDirective) : i ∈ removal.lines ↔ i ∈ extra ∨
      (∃ l, st = .link l ∧ (l.source.id ∈ targets ∨ l.target.id ∈ targets)) ∨
      ∃ n, st = .node n ∧ n.token.id ∈ targets ∧ n.token.id ∉ (View.ofSource s).subgraphIds := by
  have hdirective : ∀ st', (i, st') ∈ statements s → ¬st'.IsDirective := fun st' h' =>
    eq_of_mem_statements h' h ▸ hst
  rw [(plan_eq_ok hplan).1, List.mem_append, mem_firstLines_iff, mem_linesAbout_iff]
  constructor
  · rintro ((hi | (⟨n, hn, ht⟩ | ⟨l, hl, ht⟩ | ⟨d, hd, -⟩ | ⟨line, hline, hclick⟩) | ⟨d, hd, -⟩) | hi)
    · exact .inl hi
    · exact .inr (.inr ⟨n, eq_of_mem_statements h hn, ht⟩)
    · exact .inr (.inl ⟨l, eq_of_mem_statements h hl, ht⟩)
    · exact absurd trivial (hdirective _ hd)
    · obtain ⟨text, htext, hread⟩ := exists_line_of_mem_statements h
      rw [hline, Option.some.injEq] at htext
      subst htext
      rw [not_isClickOn (by rwa [hread])] at hclick
      contradiction
    · exact absurd trivial (hdirective _ hd)
    · obtain ⟨p, hp, rfl⟩ := List.mem_map.1 hi
      obtain ⟨d, hd⟩ := exists_linkStyle_of_mem_linkStyleFates (List.mem_filter.1 hp).1
      exact absurd trivial (hdirective _ hd)
  · rintro (hi | ⟨l, rfl, ht⟩ | ⟨n, rfl, ht⟩)
    · exact .inl (.inl hi)
    · exact .inl (.inr (.inl (.inr (.inl ⟨l, h, ht⟩))))
    · exact .inl (.inr (.inl (.inl ⟨n, h, ht⟩)))

/-! ## Lines of each kind -/

section Kinds

variable (hextra : AreLinkLines extra s)
  (hplan : Removal.plan targets extra (View.ofSource s) s = .ok removal)

include hextra hplan

/-- Of the lines that are no directives, link lines go with the link and node lines with the node. -/
theorem mem_lines_cases {st : Statement} (h : (i, st) ∈ statements s) (hst : ¬st.IsDirective)
    (hi : i ∈ removal.lines) : (∃ l, st = .link l ∧ Goes targets extra i l) ∨
      ∃ n, st = .node n ∧ n.token.id ∈ targets ∧ n.token.id ∉ (View.ofSource s).subgraphIds := by
  rcases (mem_lines_iff_of_not_isDirective hplan h hst).1 hi with hi | ⟨l, rfl, ht⟩ | hn
  · obtain ⟨l, hl⟩ := hextra i hi
    exact .inl ⟨l, eq_of_mem_statements h hl, .inl hi⟩
  · exact .inl ⟨l, rfl, .inr ht⟩
  · exact .inr hn

/-- A link line goes exactly when the link does. -/
theorem mem_lines_of_link {l : LinkLine} (h : (i, Statement.link l) ∈ statements s) :
    i ∈ removal.lines ↔ Goes targets extra i l := by
  constructor
  · intro hi
    rcases mem_lines_cases hextra hplan h id hi with ⟨l', heq, hgoes⟩ | ⟨n, heq, -⟩
    · cases heq
      exact hgoes
    · cases heq
  · rw [mem_lines_iff hextra hplan, mem_linesAbout_iff]
    rintro (hi | ht)
    exacts [.inl hi, .inr (.inl (.inr (.inl ⟨l, h, ht⟩)))]

/-- A node line goes exactly when its node does. -/
theorem mem_lines_of_node {n : NodeLine} (h : (i, Statement.node n) ∈ statements s) :
    i ∈ removal.lines ↔ n.token.id ∈ targets ∧ n.token.id ∉ (View.ofSource s).subgraphIds := by
  constructor
  · intro hi
    rcases mem_lines_cases hextra hplan h id hi with ⟨l, heq, -⟩ | ⟨n', heq, ht⟩
    · cases heq
    · cases heq
      exact ht
  · rw [mem_lines_iff hextra hplan, mem_linesAbout_iff]
    exact fun ht => .inr (.inl (.inl ⟨n, h, ht⟩))

/-- The nodes that the lines that stay mention are not deleted. -/
theorem not_mem_targets_of_stays {st : Statement} {id : Text} (h : (i, st) ∈ statements s)
    (hi : i ∉ removal.lines) (hid : id ∈ st.tokens.map (·.id))
    (hnode : id ∉ (View.ofSource s).subgraphIds) : id ∉ targets := by
  intro htarget
  obtain ⟨t, ht, rfl⟩ := List.mem_map.1 hid
  cases st with
  | link l =>
    refine hi ((mem_lines_of_link hextra hplan h).2 (.inr ?_))
    rcases List.mem_cons.1 ht with rfl | ht
    · exact .inl htarget
    · exact .inr (List.mem_singleton.1 ht ▸ htarget)
  | node n =>
    obtain rfl := List.mem_singleton.1 ht
    exact hi ((mem_lines_of_node hextra hplan h).2 ⟨htarget, hnode⟩)
  | _ => cases ht

/-- A header stays. -/
theorem not_mem_lines_of_subgraphOpen {header : SubgraphHeader}
    (h : (i, Statement.subgraphOpen header) ∈ statements s) : i ∉ removal.lines := by
  intro hi
  rcases mem_lines_cases hextra hplan h id hi with ⟨l, heq, -⟩ | ⟨n, heq, -⟩ <;> cases heq

/-- A `linkStyle` line goes exactly when it loses its last position. -/
theorem mem_lines_of_linkStyle {d : LinkStyle} (h : (i, Statement.linkStyle d) ∈ statements s) :
    i ∈ removal.lines ↔
      linkStyleFate (removedLinks targets extra s) (indent (lineOf s i)) d = .remove := by
  have hfirst := not_mem_firstLines_of_linkStyle targets hextra h
  rw [mem_firstLines_iff] at hfirst
  rw [mem_lines_iff hextra hplan]
  constructor
  · rintro (hi | hi | hi | ⟨d', hd', hremove⟩)
    · exact absurd (.inl hi) hfirst
    · exact absurd (.inr (.inl hi)) hfirst
    · exact absurd (.inr (.inr hi)) hfirst
    · cases eq_of_mem_statements h hd'
      exact hremove
  · exact fun hremove => .inr (.inr (.inr ⟨d, h, hremove⟩))

end Kinds

/-! ## Lines that change -/

/-- Only directives change, each to its own written form. -/
theorem mem_changes_cases (hplan : Removal.plan targets extra (View.ofSource s) s = .ok removal)
    {text : Text} (h : (i, text) ∈ removal.changes) :
    (∃ d, (i, Statement.classUse d) ∈ statements s ∧
      classFate targets (indent (lineOf s i)) d = .change text) ∨
    ∃ d, (i, Statement.linkStyle d) ∈ statements s ∧
      linkStyleFate (removedLinks targets extra s) (indent (lineOf s i)) d = .change text := by
  have htext : ∀ {f : Fate}, f.text? = some text → f = .change text := by
    intro f hf
    cases f <;> cases hf
    rfl
  rw [(plan_eq_ok hplan).2] at h
  obtain ⟨⟨j, f⟩, hmem, hf⟩ := List.mem_filterMap.1 h
  simp only [Option.ite_none_left_eq_some, Option.map_eq_some_iff, Prod.mk.injEq] at hf
  obtain ⟨-, _, hf, rfl, rfl⟩ := hf
  rcases List.mem_append.1 hmem with hmem | hmem
  · rw [classFates, View.classes_ofSource] at hmem
    obtain ⟨⟨k, d⟩, hd, heq⟩ := List.mem_map.1 hmem
    obtain ⟨rfl, rfl⟩ := Prod.mk.inj heq
    obtain ⟨st, hst, hget⟩ := mem_found.1 hd
    cases st <;> cases hget
    exact .inl ⟨d, hst, htext hf⟩
  · rw [linkStyleFates, View.linkStyles_ofSource] at hmem
    obtain ⟨⟨k, d⟩, hd, heq⟩ := List.mem_map.1 hmem
    obtain ⟨rfl, rfl⟩ := Prod.mk.inj heq
    obtain ⟨st, hst, hget⟩ := mem_found.1 (List.mem_filter.1 hd).1
    cases st <;> cases hget
    exact .inr ⟨d, hst, htext hf⟩

theorem mem_changes_of_linkStyle (hextra : AreLinkLines extra s)
    (hplan : Removal.plan targets extra (View.ofSource s) s = .ok removal) {d : LinkStyle}
    {text : Text} (h : (i, Statement.linkStyle d) ∈ statements s)
    (hfate : linkStyleFate (removedLinks targets extra s) (indent (lineOf s i)) d = .change text) :
    (i, text) ∈ removal.changes := by
  have hstay : i ∉ removal.lines := by
    rw [mem_lines_of_linkStyle hextra hplan h, hfate]
    exact nofun
  have hfirst := not_mem_firstLines_of_linkStyle targets hextra h
  rw [(plan_eq_ok hplan).2, List.mem_filterMap]
  refine ⟨(i, .change text), List.mem_append_right _ ?_, by simp [hstay, Fate.text?]⟩
  rw [linkStyleFates, View.linkStyles_ofSource, List.mem_map]
  refine ⟨(i, d), List.mem_filter.2 ⟨mem_found.2 ⟨_, h, rfl⟩, by simpa using hfirst⟩, ?_⟩
  rw [hfate]

theorem wordThenBlank_of_classFate {w text : Text} {d : ClassUse} (hw : IsBlank w)
    (h : classFate targets w d = .change text) : WordThenBlank ClassUse.keyword text := by
  rw [classFate] at h
  split at h
  · cases h
  · split at h
    · cases h
    · cases h
      have hident : NodeToken.IsIdent ClassUse.keyword :=
        isIdent_of_mem_statementKeywords (by decide)
      rw [ClassUse.render, List.append_assoc, List.append_assoc]
      exact wordThenBlank_append hident hw (by decide) _

/-- The positions that a directive keeps, renumbered. -/
def keptPositions (removed positions : List Nat) : List Nat :=
  (positions.filter fun i => !removed.contains i).map (renumber removed)

theorem linkStyleFate_indices (removed : List Nat) (w : Text) (positions : List Nat)
    (properties : Properties) : linkStyleFate removed w ⟨.indices positions, properties⟩ =
      if keptPositions removed positions = [] then .remove
      else if keptPositions removed positions = positions then .keep
      else .change (LinkStyle.render w (keptPositions removed positions) properties) := by
  rw [linkStyleFate]
  simp only [List.isEmpty_iff]
  rfl

theorem linkStyleFate_eq_change {removed : List Nat} {w text : Text} {d : LinkStyle}
    (h : linkStyleFate removed w d = .change text) : ∃ positions, d.target = .indices positions ∧
      keptPositions removed positions ≠ [] ∧
      text = LinkStyle.render w (keptPositions removed positions) d.properties := by
  obtain ⟨target, properties⟩ := d
  cases target with
  | default => cases h
  | indices positions =>
    rw [linkStyleFate_indices] at h
    split at h
    · cases h
    · next hne =>
      split at h
      · cases h
      · cases h
        exact ⟨positions, rfl, hne, rfl⟩

theorem wordThenBlank_of_linkStyleFate {removed : List Nat} {w text : Text} {d : LinkStyle}
    (hw : IsBlank w) (h : linkStyleFate removed w d = .change text) :
    WordThenBlank LinkStyle.keyword text := by
  obtain ⟨positions, -, -, rfl⟩ := linkStyleFate_eq_change h
  have hident : NodeToken.IsIdent LinkStyle.keyword := isIdent_of_mem_statementKeywords (by decide)
  rw [LinkStyle.render, List.append_assoc, List.append_assoc]
  exact wordThenBlank_append hident hw (by decide) _

/-- A changed line says what it said before, unless it was a directive and is one. -/
theorem ofLine_changedLine (hplan : Removal.plan targets extra (View.ofSource s) s = .ok removal)
    {text : Text} (h : (i, text) ∈ s.body .flowchart) :
    changedLine removal.changes i text = text ∨ (Statement.ofLine text).IsDirective ∧
      (Statement.ofLine (changedLine removal.changes i text)).IsDirective := by
  have hst : (i, Statement.ofLine text) ∈ statements s := mem_statements.2 ⟨text, h, rfl⟩
  rcases changedLine_cases removal.changes i text with ⟨heq, -⟩ | hmem
  · exact .inl heq
  · refine .inr ?_
    rcases mem_changes_cases hplan hmem with ⟨d, hd, hfate⟩ | ⟨d, hd, hfate⟩
    · rw [eq_of_mem_statements hst hd]
      have hword := wordThenBlank_of_classFate (isBlank_indent _) hfate
      exact ⟨trivial, isDirective_ofLine hword (by decide)⟩
    · rw [eq_of_mem_statements hst hd]
      have hword := wordThenBlank_of_linkStyleFate (isBlank_indent _) hfate
      exact ⟨trivial, isDirective_ofLine hword (by decide)⟩

/-! ## The removal -/

section Apply

variable {front body : List Text} {line : Text}
  (hdecl : IsDeclared .flowchart front line body s) (hextra : ∀ i ∈ extra, front.length < i)
  (hplan : Removal.plan targets extra (View.ofSource s) s = .ok removal)

/-- The body after the removal: the lines that stay, changed where they change. -/
def keptBody (removal : Removal) (s : Source) : List Text :=
  ((s.body .flowchart).filter fun p => !removal.lines.contains p.1).map fun p =>
    changedLine removal.changes p.1 p.2

theorem filterMap_keptBody {β : Type} (removal : Removal) (s : Source) (g : Text → Option β) :
    (keptBody removal s).filterMap g = (s.body .flowchart).filterMap fun p =>
      if removal.lines.contains p.1 then none else g (changedLine removal.changes p.1 p.2) := by
  rw [keptBody, List.filterMap_map, List.filterMap_filter]
  refine List.filterMap_congr fun p _ => ?_
  cases removal.lines.contains p.1 <;> rfl

include hdecl in
theorem lt_of_mem_statements {st : Statement} (h : (i, st) ∈ statements s) : front.length < i := by
  obtain ⟨text, hmem, -⟩ := mem_statements.1 h
  rw [hdecl.body_eq] at hmem
  exact (mem_numbered.1 hmem).1

include hdecl in
theorem AreLinkLines.lt_of_mem (h : AreLinkLines extra s) (hi : i ∈ extra) : front.length < i := by
  obtain ⟨l, hl⟩ := h i hi
  exact lt_of_mem_statements hdecl hl

include hdecl hextra hplan in
/-- Up to the declaration, only `click` lines go. -/
theorem isClickOn_of_mem_lines (hi : i ∈ removal.lines) (hle : i ≤ front.length) {text : Text}
    (htext : s.lines[i]? = some text) : isClickOn targets text = true := by
  have hlt : ∀ st, (i, st) ∈ statements s → front.length < i := fun _ => lt_of_mem_statements hdecl
  rw [(plan_eq_ok hplan).1, List.mem_append, mem_firstLines_iff, mem_linesAbout_iff] at hi
  rcases hi with (hi | (⟨n, hn, -⟩ | ⟨l, hl, -⟩ | ⟨d, hd, -⟩ | ⟨line, hline, hclick⟩) | ⟨d, hd, -⟩) |
    hi
  · exact absurd (hextra i hi) (Nat.not_lt.2 hle)
  · exact absurd (hlt _ hn) (Nat.not_lt.2 hle)
  · exact absurd (hlt _ hl) (Nat.not_lt.2 hle)
  · exact absurd (hlt _ hd) (Nat.not_lt.2 hle)
  · rw [htext, Option.some.injEq] at hline
    exact hline ▸ hclick
  · exact absurd (hlt _ hd) (Nat.not_lt.2 hle)
  · obtain ⟨p, hp, rfl⟩ := List.mem_map.1 hi
    obtain ⟨d, hd⟩ := exists_linkStyle_of_mem_linkStyleFates (List.mem_filter.1 hp).1
    exact absurd (hlt _ hd) (Nat.not_lt.2 hle)

include hdecl hextra hplan in
/-- The removal leaves the declaration and the lines of the body that stay. -/
theorem isDeclared_apply (hok : removal.apply s = .ok s') :
    ∃ front', front'.Sublist front ∧ IsDeclared .flowchart front' line (keptBody removal s) s' := by
  obtain ⟨s₁, hs₁, h⟩ := bind_eq_ok.1 hok
  cases h
  have hlines := lines_replaceLines_deleteLineSet removal.lines hs₁
  have hident : NodeToken.IsIdent "click".toList := isIdent_of_mem_statementKeywords (by decide)
  have hclick : ∀ i text, i ∈ removal.lines → i ≤ front.length → s.lines[i]? = some text →
      WordThenBlank "click".toList text := fun i text hi hle htext =>
    wordThenBlank_of_isClickOn (isClickOn_of_mem_lines hdecl hextra hplan hi hle htext)
  rw [keptBody, hdecl.body_eq]
  refine ⟨_, ?_, hdecl.of_filter (fun i => !removal.lines.contains i)
    (fun p => changedLine removal.changes p.1 p.2) hlines ?_ ?_ ?_⟩
  · have hsub := (List.filter_sublist
      (p := fun p => !removal.lines.contains p.1) (l := numbered 0 front)).map Prod.snd
    rwa [map_snd_numbered] at hsub
  · rintro ⟨i, text⟩ hp hgone hfence
    obtain ⟨-, htext⟩ := mem_numbered.1 hp
    have hlt := (List.getElem?_eq_some_iff.1 htext).1
    have hword := hclick i text (by simpa using hgone) (by omega)
      (by rw [hdecl.lines, List.getElem?_append_left (by omega)]; exact htext)
    have hfirst := hword.firstWord hident
    rw [hfence] at hfirst
    exact absurd hfirst (by decide)
  · rw [Bool.not_eq_true', ← Bool.not_eq_true]
    intro hgone
    have hword := hclick front.length line (by simpa using hgone) (Nat.le_refl _)
      (by rw [hdecl.lines]; simp)
    obtain ⟨state, -, hdeclares⟩ := hdecl.prelude
    have hkey := hdeclares.keyword
    rw [hword.firstWord hident] at hkey
    exact absurd hkey (by decide)
  · intro i text hle
    rcases changedLine_cases removal.changes i text with ⟨heq, -⟩ | hmem
    · exact heq
    · rcases mem_changes_cases hplan hmem with ⟨d, hd, -⟩ | ⟨d, hd, -⟩
      · exact absurd (lt_of_mem_statements hdecl hd) (Nat.not_lt.2 hle)
      · exact absurd (lt_of_mem_statements hdecl hd) (Nat.not_lt.2 hle)

/-- The statements on the lines that stay. -/
def keptStatements (removal : Removal) (s : Source) : List (Nat × Statement) :=
  (statements s).filter fun p => !removal.lines.contains p.1

include hplan in
/-- What directives do not have is read off the lines that stay as before. -/
theorem flatMap_keptBody {β : Type} {f : Statement → List β}
    (hf : ∀ st, st.IsDirective → f st = []) :
    (keptBody removal s).flatMap (fun text => f (Statement.ofLine text)) =
      ((keptStatements removal s).map Prod.snd).flatMap f := by
  rw [keptBody, keptStatements, statements, List.filter_map, List.map_map, List.flatMap_map,
    List.flatMap_map]
  refine List.flatMap_congr fun p hp => ?_
  rcases ofLine_changedLine hplan (List.mem_filter.1 hp).1 with heq | ⟨hst, hst'⟩
  · rw [heq]
    rfl
  · rw [hf _ hst']
    exact (hf _ hst).symm

end Apply

end DiagramEditor.Edit.Flowchart
