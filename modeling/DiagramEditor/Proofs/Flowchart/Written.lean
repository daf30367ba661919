import DiagramEditor.Identifier.Fresh
import DiagramEditor.Proofs.Flowchart.View
import DiagramEditor.Proofs.Text.Numeral

/-!
# Lines that are written

Which properties a link has depends on two kinds of lines only: links and `linkStyle` directives.
They are the marks of a source (`marks`), and what the view has of either kind it has from them
(`found_marks`). A line is no mark if it is no link and does not begin with the word of the directive
(`isMark_eq_false`).

The lines that edits write for nodes, subgraphs and their directives are no marks, whatever the labels
are. A shape around a quoted label is read as it is
written (`scanShape?_quote`), and blanks behind a token are left over (`scan?_append_blank`), so the
line of a node is no mark after it has moved either (`isMark_of_nodeLine`).
-/

namespace DiagramEditor.Flowchart

/-! ## Marks -/

section Marks

open Text Source

variable {α : Type} {s : Source} {start : Nat} {line : Text} {lines texts : List Text}
  {word : Text}

/-- The line is a link or a `linkStyle` directive. -/
def Statement.isMark : Statement → Bool
  | link _ | linkStyle _ => true
  | _ => false

theorem link?_eq_none {st : Statement} (h : st.isMark = false) : st.link? = none := by
  cases st <;> first | rfl | cases h

theorem linkStyle?_eq_none {st : Statement} (h : st.isMark = false) : st.linkStyle? = none := by
  cases st <;> first | rfl | cases h

/-- The marks among the lines, the first of which has the number `start`. -/
def marksFrom (start : Nat) (lines : List Text) : List (Nat × Statement) :=
  ((numbered start lines).map fun p => (p.1, Statement.ofLine p.2)).filter fun p => p.2.isMark

/-- The marks in the body of the source. -/
def marks (s : Source) : List (Nat × Statement) :=
  (statements s).filter fun p => p.2.isMark

@[simp] theorem marksFrom_nil (start : Nat) : marksFrom start [] = [] := rfl

theorem marksFrom_append (start : Nat) (lines texts : List Text) :
    marksFrom start (lines ++ texts) =
      marksFrom start lines ++ marksFrom (start + lines.length) texts := by
  rw [marksFrom, numbered_append, List.map_append, List.filter_append]
  rfl

theorem marksFrom_cons (start : Nat) (line : Text) (lines : List Text) :
    marksFrom start (line :: lines) = marksFrom start [line] ++ marksFrom (start + 1) lines :=
  marksFrom_append start [line] lines

theorem marksFrom_singleton (start : Nat) (line : Text) : marksFrom start [line] =
    if (Statement.ofLine line).isMark = true then [(start, Statement.ofLine line)] else [] := by
  rw [marksFrom, numbered_cons, numbered_nil, List.map_singleton]
  cases h : (Statement.ofLine line).isMark <;> simp [h]

theorem marksFrom_eq_nil (h : ∀ text ∈ texts, (Statement.ofLine text).isMark = false) :
    marksFrom start texts = [] := by
  refine List.filter_eq_nil_iff.2 fun p hp => ?_
  obtain ⟨⟨i, text⟩, hq, rfl⟩ := List.mem_map.1 hp
  rw [h text (List.mem_of_getElem? (mem_numbered.1 hq).2)]
  exact Bool.false_ne_true

theorem mem_marksFrom {p : Nat × Statement} : p ∈ marksFrom start lines ↔
    ∃ text, (p.1, text) ∈ numbered start lines ∧ p.2 = Statement.ofLine text ∧
      p.2.isMark = true := by
  rw [marksFrom, List.mem_filter, List.mem_map]
  constructor
  · rintro ⟨⟨⟨i, text⟩, hq, rfl⟩, hmark⟩
    exact ⟨text, hq, rfl, hmark⟩
  · rintro ⟨text, hq, heq, hmark⟩
    exact ⟨⟨_, hq, Prod.ext rfl heq.symm⟩, hmark⟩

theorem le_of_mem_marksFrom {p : Nat × Statement} (h : p ∈ marksFrom start lines) :
    start ≤ p.1 ∧ p.1 < start + lines.length := by
  obtain ⟨text, hq, -⟩ := mem_marksFrom.1 h
  obtain ⟨hle, hget⟩ := mem_numbered.1 hq
  have := (List.getElem?_eq_some_iff.1 hget).1
  omega

/-- Lines that have moved down have marks that have moved down. -/
theorem marksFrom_add (start n : Nat) (lines : List Text) :
    marksFrom (start + n) lines = (marksFrom start lines).map (Prod.map (· + n) id) := by
  induction lines generalizing start with
  | nil => rfl
  | cons line lines ih =>
    rw [marksFrom_cons, marksFrom_cons start, List.map_append, ← ih, marksFrom_singleton,
      marksFrom_singleton, Nat.add_right_comm start n 1]
    congr 1
    split <;> rfl

theorem marks_eq {front body : List Text} (h : IsDeclared .flowchart front line body s) :
    marks s = marksFrom (front.length + 1) body := by
  rw [marks, statements, h.body_eq]
  rfl

/-- What the view finds in the body, it finds in the marks. -/
theorem found_marks {get : Statement → Option α}
    (hget : ∀ st, st.isMark = false → get st = none) (s : Source) :
    found get (marks s) = found get (statements s) := by
  rw [marks, found, found, List.filterMap_filter]
  refine List.filterMap_congr fun p _ => ?_
  cases h : p.2.isMark with
  | true => rfl
  | false => rw [hget p.2 h]; rfl

theorem found_map (f : Nat → Nat) (get : Statement → Option α) (sts : List (Nat × Statement)) :
    found get (sts.map (Prod.map f id)) = (found get sts).map (Prod.map f id) := by
  rw [found, found, List.filterMap_map, List.map_filterMap]
  refine List.filterMap_congr fun p _ => ?_
  cases h : get p.2 <;> simp [h]

theorem found_append (get : Statement → Option α) (sts sts' : List (Nat × Statement)) :
    found get (sts ++ sts') = found get sts ++ found get sts' :=
  List.filterMap_append

theorem isMark_eq_false (h : LinkLine.ofLine? line = none)
    (hword : ¬WordThenBlank LinkStyle.keyword line) : (Statement.ofLine line).isMark = false := by
  have hread := Statement.readsFrom_ofLine line
  cases hst : Statement.ofLine line with
  | link l =>
    rw [hst] at hread
    exact absurd (h.symm.trans hread) nofun
  | linkStyle d =>
    rw [hst] at hread
    exact absurd (wordThenBlank_of_linkStyle hread) hword
  | _ => rfl

/-- A line with another word of the language at its front is no mark. -/
theorem isMark_of_word (h : WordThenBlank word line) (hword : word ∈ statementKeywords)
    (hne : word ≠ LinkStyle.keyword) : (Statement.ofLine line).isMark = false :=
  isMark_eq_false (linkLine_eq_none h hword) fun h' =>
    hne (h.unique h' (isIdent_of_mem_statementKeywords hword)
      (isIdent_of_mem_statementKeywords (by decide)))

/-- A bare id is no mark. -/
theorem isMark_of_ident {w id : Text} (hw : IsBlank w) (hid : NodeToken.IsIdent id) :
    (Statement.ofLine (w ++ id)).isMark = false := by
  rcases ofLine_ident hw hid with h | h | h <;> rw [h] <;> rfl

end Marks

open Text Identifier
open NodeToken (IsIdent)

variable {line s t w after rest : Text}

/-! ## Classic definitions -/

namespace NodeToken

/-- A quoted label has a quote at both ends and none in between. -/
theorem quote_eq (label : Text) : ∃ inner, quote label = '"' :: (inner ++ ['"']) ∧ '"' ∉ inner :=
  ⟨escape label, rfl, not_mem_escape label⟩

theorem trimStart_quote (label s : Text) : trimStart (quote label ++ s) = quote label ++ s :=
  trimStart_eq_self (by simp [quote, isSpace_quote])

theorem scanLabel?_quote {closing : Text} (label s : Text) :
    scanLabel? closing (quote label ++ s) =
      (stripFront? closing (trimStart s)).map fun rest =>
        (before (quote label ++ s) (trimStart s), rest) := by
  obtain ⟨inner, hquote, hinner⟩ := quote_eq label
  have hstart : trimStart (quote label ++ s) = '"' :: (inner ++ '"' :: s) := by
    rw [trimStart_quote, hquote]
    simp
  rw [scanLabel?_of_quote hstart, cutChar?_append_cons hinner]
  rfl

/-- A shape around a quoted label is read as this shape. -/
theorem scanShape?_quote (shape : NodeShape) (label rest : Text) :
    scanShape? (shaped shape (quote label) ++ rest) = some (shape, quote label, rest) := by
  have hno : ∀ c cs, c ≠ '"' → ∀ s, stripFront? (c :: cs) (quote label ++ s) = none := by
    intro c cs hc s
    refine stripFront?_eq_none_of_head ?_
    simp [quote, Ne.symm hc]
  have hread : scanAs? (shaped shape (quote label) ++ rest) shape =
      some (shape, quote label, rest) := by
    obtain ⟨inner, hquote, hinner⟩ := quote_eq label
    refine scanAs?_eq_some_iff.2 ⟨rfl, rfl, .inl ⟨[], inner, [], by simp [IsBlank], hinner,
      by simp [IsBlank], hquote⟩⟩
  have hslash : ∀ t, trimStart ('/' :: t) = '/' :: t := fun t =>
    trimStart_eq_self (by rintro c ⟨⟩; decide)
  have hback : ∀ t, trimStart ('\\' :: t) = '\\' :: t := fun t =>
    trimStart_eq_self (by rintro c ⟨⟩; decide)
  have hearlier : ∀ e ∈ NodeShape.all.takeWhile (· ≠ shape),
      scanAs? (shaped shape (quote label) ++ rest) e = none := by
    cases shape <;> simp [NodeShape.all, scanAs?, shaped, NodeShape.opening, NodeShape.closing,
      stripFront?, hno, scanLabel?_quote, hslash, hback]
  have hall : NodeShape.all = NodeShape.all.takeWhile (· ≠ shape) ++
      shape :: (NodeShape.all.dropWhile (· ≠ shape)).tail := by
    cases shape <;> rfl
  rw [scanShape?_eq_findSome?, List.findSome?_eq_some_iff]
  exact ⟨_, shape, _, hall, hread, hearlier⟩

/-! ## Texts behind a definition -/

/-- The characters that a definition ends with. -/
def closers : Text :=
  [']', ')', '}']

/-- A definition neither begins nor ends in the text. -/
def NoDelimiter (t : Text) : Prop :=
  ∀ c ∈ t, c ∉ openers ++ closers

theorem noDelimiter_of_isBlank (ht : IsBlank t) : NoDelimiter t := by
  intro c hc hmem
  have hall : ∀ c ∈ openers ++ closers, isSpace c = false := fun _ => eq_false_of_any (by decide)
  have hspace := ht c hc
  rw [hall c hmem] at hspace
  cases hspace

theorem eq_append_of_append_eq {a b : Text} {c : Char} (h : s ++ t = a ++ c :: b) (hc : c ∉ t) :
    ∃ b', s = a ++ c :: b' ∧ b = b' ++ t := by
  rcases List.append_eq_append_iff.1 h with ⟨a', -, rfl⟩ | ⟨b', hs, hb⟩
  · exact absurd (List.mem_append_right a' List.mem_cons_self) hc
  · cases b' with
    | nil =>
      rw [List.nil_append] at hb
      exact absurd (hb ▸ List.mem_cons_self) hc
    | cons d b' =>
      rw [List.cons_append] at hb
      obtain ⟨rfl, rfl⟩ := List.cons.inj hb
      exact ⟨b', hs, rfl⟩

theorem stripFront?_append_of_not_mem {front : Text} (hs : stripFront? front s = none)
    (ht : ∀ c ∈ front.getLast?, c ∉ t) : stripFront? front (s ++ t) = none := by
  cases h : stripFront? front (s ++ t) with
  | none => rfl
  | some rest =>
    have heq := stripFront?_eq_some.1 h
    rcases List.eq_nil_or_concat front with rfl | ⟨init, c, rfl⟩
    · cases hs
    · rw [List.concat_eq_append, List.append_assoc] at heq
      rw [List.concat_eq_append] at hs ht
      obtain ⟨b', rfl, -⟩ := eq_append_of_append_eq heq (ht c (by simp))
      rw [show init ++ c :: b' = init ++ [c] ++ b' by simp, stripFront?_self_append] at hs
      cases hs

/-- Whether a shape is read does not depend on such a text behind it. -/
theorem scanAs?_append (ht : NoDelimiter t) (shape : NodeShape) :
    scanAs? (s ++ t) shape = (scanAs? s shape).map fun p => (p.1, p.2.1, p.2.2 ++ t) := by
  obtain ⟨init, c, hclosing, hc⟩ : ∃ init c, shape.closing = init ++ [c] ∧ c ∈ closers := by
    cases shape <;> first
      | exact ⟨[], _, rfl, by decide⟩
      | exact ⟨[_], _, rfl, by decide⟩
      | exact ⟨[_, _], _, rfl, by decide⟩
  have hct : c ∉ t := fun hmem => ht c hmem (List.mem_append_right _ hc)
  refine Option.ext fun p => ?_
  obtain ⟨shape', raw, rest⟩ := p
  rw [Option.map_eq_some_iff, scanAs?_eq_some_iff]
  constructor
  · rintro ⟨rfl, hs, hlabel⟩
    have hs' : s ++ t = (shape'.opening ++ (raw ++ init)) ++ c :: rest := by
      rw [hs, shaped, hclosing]
      simp
    obtain ⟨rest', rfl, rfl⟩ := eq_append_of_append_eq hs' hct
    refine ⟨(shape', raw, rest'), scanAs?_eq_some_iff.2 ⟨rfl, ?_, hlabel⟩, rfl⟩
    rw [shaped, hclosing]
    simp
  · rintro ⟨⟨shape', raw', rest'⟩, hread, heq⟩
    obtain ⟨rfl, rfl, hlabel⟩ := scanAs?_eq_some_iff.1 hread
    cases heq
    exact ⟨rfl, List.append_assoc .., hlabel⟩

theorem scanShape?_append (ht : NoDelimiter t) :
    scanShape? (s ++ t) = (scanShape? s).map fun p => (p.1, p.2.1, p.2.2 ++ t) := by
  rw [scanShape?_eq_findSome?, scanShape?_eq_findSome?, List.map_findSome?]
  congr 1
  funext shape
  exact scanAs?_append ht shape

theorem cutOutside?_append (ht : '}' ∉ t) :
    cutOutside? ['}'] (s ++ t) = (cutOutside? ['}'] s).map fun p => (p.1, p.2 ++ t) := by
  refine Option.ext fun p => ?_
  obtain ⟨body, rest⟩ := p
  rw [Option.map_eq_some_iff, cutOutside?_singleton_eq_some (by decide)]
  constructor
  · rintro ⟨hs, hbody⟩
    obtain ⟨rest', rfl, rfl⟩ := eq_append_of_append_eq hs ht
    exact ⟨(body, rest'), (cutOutside?_singleton_eq_some (by decide)).2 ⟨rfl, hbody⟩, rfl⟩
  · rintro ⟨⟨body', rest'⟩, hread, heq⟩
    obtain ⟨rfl, hbody⟩ := (cutOutside?_singleton_eq_some (by decide)).1 hread
    cases heq
    exact ⟨by simp, hbody⟩

theorem scanDefinition?_append (ht : NoDelimiter t) :
    scanDefinition? (s ++ t) = (scanDefinition? s).map fun p => (p.1, p.2 ++ t) := by
  have hnot : ∀ c ∈ openers ++ closers, c ∉ t := fun c hc hmem => ht c hmem hc
  rw [scanDefinition?, scanDefinition?]
  cases hs : stripFront? entriesOpening s with
  | some inner =>
    rw [stripFront?_append hs t]
    simp only [cutOutside?_append (hnot '}' (by decide)), Option.map_map]
    rfl
  | none =>
    have hs' : stripFront? entriesOpening (s ++ t) = none :=
      stripFront?_append_of_not_mem hs (by rintro c ⟨⟩; exact hnot '{' (by decide))
    rw [hs', scanShape?_append ht]
    cases scanShape? s <;> rfl

/-! ## Blanks behind a token -/

theorem takeWhile_append_of_head {p : Char → Bool} (s : Text) (ht : ∀ c ∈ t.head?, p c = false) :
    (s ++ t).takeWhile p = s.takeWhile p ∧ (s ++ t).dropWhile p = s.dropWhile p ++ t := by
  induction s with
  | nil => cases t <;> simp_all
  | cons c s ih =>
    cases hc : p c with
    | true => simp [hc, ih]
    | false => simp [hc]

theorem isClassChar_of_isSpace {c : Char} (h : isSpace c = true) : isClassChar c = false := by
  rw [isClassChar, isIdentChar_of_isSpace h, Bool.false_or, beq_eq_false_iff_ne]
  rintro rfl
  revert h
  decide

theorem scanClass_append (ht : IsBlank t) :
    scanClass (s ++ t) = ((scanClass s).1, (scanClass s).2 ++ t) := by
  have hhead : ∀ c ∈ t.head?, isClassChar c = false := fun c hc =>
    isClassChar_of_isSpace (ht c (List.mem_of_mem_head? hc))
  rw [scanClass, scanClass]
  cases hs : stripFront? classMark s with
  | none =>
    rw [stripFront?_append_of_not_mem hs]
    rintro c ⟨⟩ hc
    exact absurd (ht ':' hc) (by decide)
  | some rest =>
    obtain ⟨htake, hdrop⟩ := takeWhile_append_of_head rest hhead
    rw [stripFront?_append hs t]
    simp only [htake, hdrop]
    split <;> rfl

/-- Blanks behind a token are left over. -/
theorem scan?_append_blank (ht : IsBlank t) :
    scan? (s ++ t) = (scan? s).map fun p => (p.1, p.2 ++ t) := by
  have hhead : ∀ c ∈ t.head?, Identifier.isIdentChar c = false := fun c hc =>
    isIdentChar_of_isSpace (ht c (List.mem_of_mem_head? hc))
  obtain ⟨htake, hdrop⟩ := takeWhile_append_of_head s hhead
  rw [scan?, scan?, htake, hdrop, scanDefinition?_append (noDelimiter_of_isBlank ht)]
  cases hdef : scanDefinition? (s.dropWhile Identifier.isIdentChar) with
  | none => cases (s.takeWhile Identifier.isIdentChar).isEmpty <;> rfl
  | some p =>
    have hbefore : ∀ rest : Text, before (s ++ t) (rest ++ t) = before s rest := by
      intro rest
      rw [before, before, List.length_append, List.length_append, Nat.add_sub_add_right,
        List.take_append_of_le_length (Nat.sub_le ..)]
    cases (s.takeWhile Identifier.isIdentChar).isEmpty with
    | true => rfl
    | false =>
      simp only [Option.map_some, Option.bind_eq_bind, Option.bind_some, scanClass_append ht,
        hbefore]
      rfl

end NodeToken

/-! ## Lines of one token -/

theorem connector_scan?_of_end (h : isStatementEnd rest = true) :
    Connector.scan? (trimStart rest) = none := by
  have hhead := head?_trim rest
  have hend : trim rest = [] ∨ trim rest = [';'] := by simpa [isStatementEnd] using h
  rcases hend with hend | hend
  · rw [hend] at hhead
    rw [List.head?_eq_none_iff.1 hhead.symm]
    exact connector_scan?_nil
  · rw [hend] at hhead
    obtain ⟨r, hr⟩ := List.head?_eq_some_iff.1 hhead.symm
    rw [hr]
    rfl

/-- A line with one token that is no keyword is no mark. -/
theorem isMark_of_scan? {token : NodeToken} (hscan : NodeToken.scan? (trimStart line) = some (token, rest))
    (hkeyword : token.isKeyword = false) (hend : isStatementEnd rest = true) :
    (Statement.ofLine line).isMark = false := by
  refine isMark_eq_false ?_ fun hword => ?_
  · rw [LinkLine.ofLine?, hscan]
    simp [hkeyword, connector_scan?_of_end hend]
  · have hmem : LinkStyle.keyword ∈ statementKeywords := by decide
    obtain ⟨token', rest', hscan', hid, hdef⟩ :=
      hword.scan?_eq_some (isIdent_of_mem_statementKeywords hmem)
    rw [hscan] at hscan'
    obtain ⟨rfl, -⟩ := Prod.mk.inj (Option.some.inj hscan')
    rw [NodeToken.isKeyword, hdef, hid, List.contains_iff_mem.2 hmem] at hkeyword
    cases hkeyword

/-- The line of a node may be written behind other blanks. -/
theorem nodeLine_behind {n : NodeLine} (h : NodeLine.ofLine? line = some n) (hw : IsBlank w) :
    ∃ tail, NodeLine.ofLine? (w ++ trim line) = some ⟨w, n.token, tail⟩ := by
  simp only [NodeLine.ofLine?, Option.bind_eq_bind, Option.bind_eq_some_iff, Option.guard_eq_some',
    Prod.exists, Bool.not_eq_true'] at h
  obtain ⟨token, tail, hscan, _, hend, _, hkeyword, hn⟩ := h
  cases hn
  obtain ⟨v, hv, htrim⟩ := exists_trimEnd_append (trimStart line)
  rw [← htrim, NodeToken.scan?_append_blank hv] at hscan
  obtain ⟨⟨token', rest⟩, hscan', heq⟩ := Option.map_eq_some_iff.1 hscan
  cases heq
  have hstart : trimStart (w ++ trim line) = trimEnd (trimStart line) := by
    rw [trimStart_of_isBlank_append hw]
    exact trimStart_eq_self (isTrimmed_trim line).head
  have hindent : indent (w ++ trim line) = w := by
    have := indent_append_trimStart (w ++ trim line)
    rw [hstart] at this
    exact List.append_cancel_right this
  rw [isStatementEnd, trim_append_of_isBlank _ hv] at hend
  refine ⟨rest, ?_⟩
  rw [NodeLine.ofLine?, hstart, hscan', hindent]
  simp [hkeyword, show isStatementEnd rest = true from hend]

/-- The line of a node says nothing else when it has moved. -/
theorem isMark_of_nodeLine {n : NodeLine} (h : NodeLine.ofLine? line = some n) (hw : IsBlank w) :
    (Statement.ofLine (w ++ trim line)).isMark = false := by
  obtain ⟨tail, h⟩ := nodeLine_behind h hw
  simp only [NodeLine.ofLine?, Option.bind_eq_bind, Option.bind_eq_some_iff, Option.guard_eq_some',
    Prod.exists, Bool.not_eq_true'] at h
  obtain ⟨token, tail, hscan, _, hend, _, hkeyword, -⟩ := h
  exact isMark_of_scan? hscan hkeyword hend

/-- A definition that reads back is written on a line that is no mark, also with a class name behind
it. -/
theorem isMark_of_render {d : NodeDefinition} {id : Text}
    (h : NodeToken.scanDefinition? s = some (some d, rest)) (hw : IsBlank w) (hid : IsIdent id)
    (ht : NodeToken.NoDelimiter t) {suffix : Option Text}
    (hclass : NodeToken.scanClass t = (suffix, [])) :
    (Statement.ofLine (w ++ (d.render id ++ t))).isMark = false := by
  obtain ⟨⟨c, cs, hc, hcons⟩, hrender, hread⟩ := NodeToken.scanDefinition?_render h
  have hdef : NodeToken.scanDefinition? (d.render [] ++ t) = some (some d, t) := by
    rw [NodeToken.scanDefinition?_append ht, hread]
    rfl
  have hhead : ∀ e ∈ (d.render [] ++ t).head?, Identifier.isIdentChar e = false := by
    rw [hcons]
    rintro e ⟨⟩
    exact NodeToken.isIdentChar_of_mem_openers hc
  have hscan := NodeToken.scan?_append hid hhead hdef hclass
  rw [hrender, List.append_assoc]
  rw [← hid.trimStart_append hw] at hscan
  exact isMark_of_scan? hscan rfl rfl

/-- A classic definition around a quoted label reads back. -/
theorem isMark_of_classic {id : Text} (shape : NodeShape) (label : Text) (hw : IsBlank w)
    (hid : IsIdent id) (ht : NodeToken.NoDelimiter t) {suffix : Option Text}
    (hclass : NodeToken.scanClass t = (suffix, [])) :
    (Statement.ofLine (w ++ ((NodeDefinition.classic shape label).render id ++ t))).isMark =
      false := by
  have hentries : stripFront? NodeToken.entriesOpening (NodeToken.shaped shape (quote label)) =
      none := by
    rw [NodeToken.shaped, NodeToken.entriesOpening, stripFront?_eq_none_of_head]
    cases shape <;> simp [NodeShape.opening]
  have hshape := NodeToken.scanShape?_quote shape label []
  rw [List.append_nil] at hshape
  have hread : NodeToken.scanDefinition? (NodeToken.shaped shape (quote label)) =
      some (some ⟨.classic shape, some (quote label), some (unquote (quote label))⟩, []) := by
    rw [NodeToken.scanDefinition?, hentries, hshape]
  have hmark := isMark_of_render hread hw hid ht hclass
  exact hmark

/-- A line that is written with another word in front is no mark. -/
theorem isMark_of_written {word : Text} (hw : IsBlank w) (hword : word ∈ statementKeywords)
    (hne : word ≠ LinkStyle.keyword) (rest : Text) :
    (Statement.ofLine (w ++ (word ++ ' ' :: rest))).isMark = false :=
  isMark_of_word (wordThenBlank_append (isIdent_of_mem_statementKeywords hword) hw (by decide) rest)
    hword hne

theorem isMark_header (hw : IsBlank w) (id : Text) (label : Option Text) :
    (Statement.ofLine (SubgraphHeader.render w id label)).isMark = false := by
  rw [SubgraphHeader.render.eq_def, List.append_assoc, List.append_assoc]
  exact isMark_of_written hw (by decide) (by decide) _

theorem wordThenBlank_nodeStyle (hw : IsBlank w) (d : NodeStyle) :
    WordThenBlank NodeStyle.keyword (d.render w) := by
  rw [NodeStyle.render, List.append_assoc, List.append_assoc]
  exact wordThenBlank_append (isIdent_of_mem_statementKeywords (by decide)) hw (by decide) _

theorem wordThenBlank_classUse (hw : IsBlank w) (d : ClassUse) :
    WordThenBlank ClassUse.keyword (d.render w) := by
  rw [ClassUse.render, List.append_assoc, List.append_assoc]
  exact wordThenBlank_append (isIdent_of_mem_statementKeywords (by decide)) hw (by decide) _

theorem isMark_nodeStyle (hw : IsBlank w) (d : NodeStyle) :
    (Statement.ofLine (d.render w)).isMark = false :=
  isMark_of_word (wordThenBlank_nodeStyle hw d) (by decide) (by decide)

theorem isMark_classUse (hw : IsBlank w) (d : ClassUse) :
    (Statement.ofLine (d.render w)).isMark = false :=
  isMark_of_word (wordThenBlank_classUse hw d) (by decide) (by decide)

/-! ## New ids -/

/-- A name that goes on with a number is one of identifier characters. -/
theorem isIdent_append_ofNat {stem : Text} (h : ∀ c ∈ stem, Identifier.isIdentChar c = true)
    (n : Nat) : IsIdent (stem ++ ofNat n) := by
  refine ⟨fun hnil => ofNat_ne_nil n (List.append_eq_nil_iff.1 hnil).2, fun c hc => ?_⟩
  rcases List.mem_append.1 hc with hc | hc
  exacts [h c hc, isIdentChar_of_isDigit (isDigit_of_mem_ofNat hc)]

theorem isIdent_suffixed {id : Text} (h : IsIdent id) (taken : List Text) :
    IsIdent (Fresh.suffixed id taken) := by
  rw [Fresh.suffixed, Fresh.suffixedName, ← List.singleton_append, ← List.append_assoc]
  refine isIdent_append_ofNat (fun c hc => ?_) _
  rcases List.mem_append.1 hc with hc | hc
  · exact h.2 c hc
  · rw [List.mem_singleton.1 hc]
    decide

theorem isIdent_freshNode (taken : List Text) (ids : IdAllocator) :
    IsIdent (ids.freshNode taken).1 :=
  isIdent_append_ofNat (List.all_eq_true.1 (by decide)) _

theorem isIdent_freshSubgraph (taken : List Text) (ids : IdAllocator) :
    IsIdent (ids.freshSubgraph taken).1 :=
  isIdent_append_ofNat (List.all_eq_true.1 (by decide)) _

theorem isIdent_of_checkNode {id : Text} (h : Identifier.checkNode id = .ok ()) : IsIdent id := by
  rw [Identifier.checkNode, Identifier.check] at h
  split at h
  · cases h
  · next hne =>
    split at h
    · cases h
    · split at h
      · cases h
      · next hall =>
        refine ⟨by simpa using hne, fun c hc => ?_⟩
        simpa using List.find?_eq_none.1 hall c hc

end DiagramEditor.Flowchart
