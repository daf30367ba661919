import DiagramEditor.Flowchart.Reference
import DiagramEditor.Proofs.Flowchart.Block
import DiagramEditor.Proofs.Flowchart.Directive
import DiagramEditor.Proofs.Flowchart.Redefine

/-!
# What a line refers to

A line is divided by its references (`IsDivided`): each is written somewhere (`Slot`), behind a gap, and
something may stand behind the last one. The positions of the references are counted from the slots
(`Slot.references`), so that a line can be taken apart and put together again without them.

There are four ways in which a line is divided: by the two ends of a link (`LinkLine.isDivided`), by the token of a
node line (`NodeLine.isDivided`), by the ids behind a word (`IsIdList.isDivided`), and by the id or the quoted title of
a header (`SubgraphHeader.isDivided_of_isIdent`, `SubgraphHeader.isDivided_of_quote`). Every other line has no
references (`IdReference.line_cases`).
-/

namespace DiagramEditor.Flowchart

open Text Identifier
open NodeToken (IsIdent)

variable {line gap s t rest tail id w v u : Text} {c : Char} {start fuel : Nat} {many : Bool}
  {keyword : Text} {refs : List IdReference}

/-! ## Slots -/

/-- A place of a line where an id is written. -/
structure Slot where
  /-- What stands in front of it, behind the place before. -/
  gap : Text
  written : Text
  id : Text

namespace Slot

/-- An id that is written as it is. -/
def plain (gap id : Text) : Slot :=
  ⟨gap, id, id⟩

/-- The line with these slots and with `tail` behind them. -/
def toText (tail : Text) : List Slot → Text
  | [] => tail
  | x :: slots => x.gap ++ (x.written ++ toText tail slots)

/-- The references that are written in the slots, the first gap of which begins at `start`. -/
def references : (start : Nat) → List Slot → List IdReference
  | _, [] => []
  | start, x :: slots => ⟨start + x.gap.length, x.written.length, x.id⟩ ::
      references (start + x.gap.length + x.written.length) slots

/-- The id is written as it is, or as a quoted title. -/
def IsWritten (x : Slot) : Prop :=
  x.written = x.id ∨ x.written.head? = some '"' ∧ x.id = unquote x.written

variable {x : Slot} {slots : List Slot}

theorem isWritten_plain (gap id : Text) : (plain gap id).IsWritten :=
  .inl rfl

theorem map_id_references (start : Nat) (slots : List Slot) :
    (references start slots).map (·.id) = slots.map (·.id) := by
  induction slots generalizing start with
  | nil => rfl
  | cons x slots ih => rw [references, List.map_cons, List.map_cons, ih]

end Slot

/-- The line is made up of its references, each behind its gap, and of the tail behind them. -/
structure IsDivided (line : Text) (slots : List Slot) (tail : Text) : Prop where
  text : line = Slot.toText tail slots
  references : IdReference.ofLine line = Slot.references 0 slots
  written : ∀ x ∈ slots, x.IsWritten

theorem IsDivided.map_id_ofLine {slots : List Slot} (h : IsDivided line slots tail) :
    (IdReference.ofLine line).map (·.id) = slots.map (·.id) := by
  rw [h.references, Slot.map_id_references]

/-! ## Links and node lines -/

namespace NodeToken

variable {token : NodeToken}

/-- What a token has behind its id. -/
def afterId (token : NodeToken) : Text :=
  token.text.drop token.id.length

theorem text_eq_id_append (h : scan? (token.text ++ rest) = some (token, rest)) :
    token.text = token.id ++ token.afterId := by
  obtain ⟨-, _, htoken⟩ := scan?_eq_some_iff_isToken.1 h
  rw [afterId, htoken.text, List.drop_left]

/-- A line that begins with a word of its own has this word as its first token. -/
theorem isKeyword_of_wordThenBlank (hword : WordThenBlank u line) (hkeyword : u ∈ statementKeywords)
    (hscan : scan? (trimStart line) = some (token, rest)) : token.isKeyword = true := by
  obtain ⟨c, after, hc, hline⟩ := hword
  rw [hline] at hscan
  exact Statement.isKeyword_of_front hscan hkeyword (by simpa using Statement.not_opener_of_isSpace hc)

end NodeToken

open NodeToken

theorem IdReference.wordThenBlank_of_ofKeyword? (h : ofKeyword? keyword many line = some refs) :
    WordThenBlank keyword line := by
  obtain ⟨rest, hrest, h⟩ := Option.bind_eq_some_iff.1 h
  obtain ⟨_, hspace, -⟩ := Option.bind_eq_some_iff.1 h
  obtain ⟨c, cs, hc, rfl⟩ := startsWithSpace_eq_true.1 ((Option.guard_eq_some' _).1 hspace)
  exact ⟨c, cs, hc, stripFront?_eq_some.1 hrest⟩

/-- The references of a line whose first token is no keyword are those of its tokens. -/
theorem IdReference.ofLine_of_scan? {token : NodeToken}
    (hscan : NodeToken.scan? (trimStart line) = some (token, rest))
    (h : token.isKeyword = false) : IdReference.ofLine line = match LinkLine.ofLine? line with
      | some l => [ofToken l.sourceStart l.source, ofToken l.targetStart l.target]
      | none => match NodeLine.ofLine? line with
        | some n => [ofToken n.lead.length n.token]
        | none => [] := by
  have hnot : ∀ {word : Text}, word ∈ statementKeywords → ¬WordThenBlank word line :=
    fun hkeyword hword => by simp [isKeyword_of_wordThenBlank hword hkeyword hscan] at h
  have hheader : SubgraphHeader.ofLine? line = none :=
    Option.eq_none_iff_forall_ne_some.2 fun _ hread =>
      hnot (by decide) (wordThenBlank_of_header hread)
  have hwords : ∀ {word : Text} {list : Bool}, word ∈ statementKeywords →
      ofKeyword? word list line = none := fun hkeyword =>
    Option.eq_none_iff_forall_ne_some.2 fun _ hread => hnot hkeyword (wordThenBlank_of_ofKeyword? hread)
  rw [ofLine, hheader, hwords (by decide), hwords (by decide), hwords (by decide)]
  cases LinkLine.ofLine? line <;> rfl

/-- A link refers to its two ends. -/
theorem IdReference.ofLine_of_link {l : LinkLine} (h : LinkLine.ofLine? line = some l) :
    IdReference.ofLine line = [ofToken l.sourceStart l.source, ofToken l.targetStart l.target] := by
  obtain ⟨⟨_, _⟩, hscan, hread⟩ := Option.bind_eq_some_iff.1 h
  obtain ⟨_, hkeyword, -⟩ := Option.bind_eq_some_iff.1 hread
  rw [ofLine_of_scan? hscan (by simpa using hkeyword), h]

/-- A node line refers to its node. -/
theorem IdReference.ofLine_of_node {n : NodeLine} (h : NodeLine.ofLine? line = some n) :
    IdReference.ofLine line = [ofToken n.lead.length n.token] := by
  obtain ⟨⟨_, _⟩, hscan, hread⟩ := Option.bind_eq_some_iff.1 h
  obtain ⟨_, -, hread⟩ := Option.bind_eq_some_iff.1 hread
  obtain ⟨_, hkeyword, -⟩ := Option.bind_eq_some_iff.1 hread
  have hlink : LinkLine.ofLine? line = none := by
    refine Option.eq_none_iff_forall_ne_some.2 fun l hl => ?_
    have hlinked := Statement.ofLine_of_link hl
    rw [Statement.ofLine_of_node h] at hlinked
    cases hlinked
  rw [ofLine_of_scan? hscan (by simpa using hkeyword), hlink, h]

namespace LinkLine

variable {l : LinkLine}

/-- The places of the two ends. -/
def slots (l : LinkLine) : List Slot :=
  [.plain l.lead l.source.id, .plain (l.source.afterId ++ l.between) l.target.id]

theorem isDivided (h : ofLine? line = some l) :
    IsDivided line l.slots (l.target.afterId ++ l.tail) := by
  obtain ⟨hpieces, rfl⟩ := ofLine?_eq_some_iff.1 h
  have hsource := NodeToken.text_eq_id_append hpieces.source
  have htarget := NodeToken.text_eq_id_append hpieces.target
  refine ⟨?_, ?_, ?_⟩
  · simp [toLine_eq, slots, Slot.toText, Slot.plain, hsource, htarget]
  · rw [IdReference.ofLine_of_link h]
    simp [slots, Slot.references, Slot.plain, IdReference.ofToken, targetStart, betweenStart,
      sourceStart, hsource, Nat.add_assoc]
  · simp [slots, Slot.isWritten_plain]

end LinkLine

namespace NodeLine

variable {n : NodeLine}

/-- The place of the node. -/
def slots (n : NodeLine) : List Slot :=
  [.plain n.lead n.token.id]

theorem isDivided (h : ofLine? line = some n) :
    IsDivided line n.slots (n.token.afterId ++ n.tail) := by
  obtain ⟨hpieces, rfl⟩ := ofLine?_eq_some_iff.1 h
  have htoken := NodeToken.text_eq_id_append hpieces.token
  refine ⟨?_, ?_, ?_⟩
  · simp [slots, Slot.toText, Slot.plain, htoken]
  · rw [IdReference.ofLine_of_node h]
    simp [slots, Slot.references, Slot.plain, IdReference.ofToken]
  · simp [slots, Slot.isWritten_plain]

end NodeLine

/-! ## What stands behind a word -/

theorem trimStart_behind (hc : isSpace c = true) (hv : IsBlank v)
    (hs : ∀ d ∈ s.head?, isSpace d = false) : trimStart (c :: (v ++ s)) = s := by
  rw [← List.cons_append, trimStart_of_isBlank_append, trimStart_eq_self hs]
  exact fun d hd => (List.mem_cons.1 hd).elim (fun h => h ▸ hc) (hv d)

theorem length_sub_behind (w u v s : Text) (c : Char) :
    (w ++ (u ++ c :: (v ++ s))).length - s.length = (w ++ (u ++ c :: v)).length := by
  simp only [List.length_append, List.length_cons]
  omega

/-- The blanks around a word that begins a line, and what stands behind them. -/
theorem WordThenBlank.exists_split (h : WordThenBlank u line) : ∃ w c v s,
    line = w ++ (u ++ c :: (v ++ s)) ∧ IsBlank w ∧ isSpace c = true ∧ IsBlank v ∧
      ∀ d ∈ s.head?, isSpace d = false := by
  obtain ⟨c, r, hc, hline⟩ := h
  refine ⟨indent line, c, indent r, trimStart r, ?_, isBlank_indent line, hc, isBlank_indent r,
    head?_trimStart r⟩
  rw [indent_append_trimStart, ← hline, indent_append_trimStart]

/-! ## Ids behind a word -/

namespace IdReference

/-- The ids behind the word are listed where they stand. -/
theorem ofKeyword?_append (hkeyword : IsIdent keyword) (hw : IsBlank w) (hc : isSpace c = true)
    (hv : IsBlank v) (hs : ∀ d ∈ s.head?, isSpace d = false) :
    ofKeyword? keyword many (w ++ (keyword ++ c :: (v ++ s))) =
      some (idList many (s.length + 1) (w ++ (keyword ++ c :: v)).length s) := by
  simp only [ofKeyword?, hkeyword.trimStart_append hw, stripFront?_self_append, startsWithSpace, hc,
    trimStart_behind hc hv hs, length_sub_behind, guard_true, Option.bind_eq_bind, Option.bind_some,
    Option.pure_def]

/-- There may be no id at all. -/
theorem idList_of_none (hs : ∀ d ∈ s.head?, isIdentChar d = false) (fuel start : Nat) :
    idList many fuel start s = [] := by
  have htake : s.takeWhile isIdentChar = [] := (takeWhile_append_of_head [] hs).1
  cases fuel with
  | zero => rfl
  | succ fuel => simp [idList, htake]

/-- No id follows the last one. -/
theorem idList_of_end (hid : IsIdent id) (ht : ∀ d ∈ t.head?, isIdentChar d = false)
    (hend : many = false ∨ ∀ d ∈ t.head?, d ≠ ',') (fuel start : Nat) :
    idList many (fuel + 1) start (id ++ t) = [⟨start, id.length, id⟩] := by
  obtain ⟨htake, hdrop⟩ := hid.takeWhile_append ht
  unfold idList
  simp only [htake, hdrop, List.isEmpty_eq_false_iff.2 hid.1, Bool.false_eq_true, if_false]
  split
  · simp at hend
  · rfl

/-- The list goes on behind a comma. -/
theorem idList_of_comma (hid : IsIdent id) (fuel start : Nat) (rest : Text) :
    idList true (fuel + 1) start (id ++ ',' :: rest) =
      ⟨start, id.length, id⟩ :: idList true fuel (start + id.length + 1) rest := by
  have hcomma : ∀ d ∈ (',' :: rest).head?, isIdentChar d = false := by
    rintro _ ⟨⟩
    decide
  obtain ⟨htake, hdrop⟩ := hid.takeWhile_append hcomma
  conv_lhs => unfold idList
  simp only [htake, hdrop, List.isEmpty_eq_false_iff.2 hid.1, Bool.false_eq_true, if_false]

/-- The words that ids follow, and whether more than one may. -/
def words : List (Text × Bool) :=
  [("style".toList, false), ("class".toList, true), ("click".toList, false)]

theorem mem_directiveWords (h : (keyword, many) ∈ words) : keyword ∈ directiveWords := by
  simp only [words, List.mem_cons, List.not_mem_nil, or_false, Prod.mk.injEq] at h
  rcases h with ⟨rfl, -⟩ | ⟨rfl, -⟩ | ⟨rfl, -⟩ <;> decide

theorem isIdent_of_mem_words (h : (keyword, many) ∈ words) : IsIdent keyword :=
  isIdent_of_mem_statementKeywords (mem_statementKeywords_of_directive (mem_directiveWords h))

/-- The ids behind a word are all references of the line. -/
theorem ofLine_of_ofKeyword? (hwords : (keyword, many) ∈ words)
    (h : ofKeyword? keyword many line = some refs) : ofLine line = refs := by
  have hword := wordThenBlank_of_ofKeyword? h
  have hheader := (ofLine_of_directive hword (mem_directiveWords hwords)).2.1
  have hkey := mem_statementKeywords_of_directive (mem_directiveWords hwords)
  have hother : ∀ {word : Text} {list : Bool}, word ∈ statementKeywords → keyword ≠ word →
      ofKeyword? word list line = none := fun hword' hne =>
    hword.eq_none hkey (fun _ hread => wordThenBlank_of_ofKeyword? hread) hword' hne
  simp only [words, List.mem_cons, List.not_mem_nil, or_false, Prod.mk.injEq] at hwords
  rw [ofLine, hheader]
  rcases hwords with ⟨rfl, rfl⟩ | ⟨rfl, rfl⟩ | ⟨rfl, rfl⟩
  · simp only [h, Option.some_or]
  · rw [hother (by decide) (by decide)]
    simp only [h, Option.some_or, Option.none_or]
  · rw [hother (by decide) (by decide), hother (by decide) (by decide)]
    simp only [h, Option.none_or]

end IdReference

/-- A text begins with an id or not. -/
theorem head?_or_exists_isIdent (s : Text) : (∀ d ∈ s.head?, isIdentChar d = false) ∨
    ∃ id t, s = id ++ t ∧ IsIdent id ∧ ∀ d ∈ t.head?, isIdentChar d = false := by
  have hsplit : s.takeWhile isIdentChar ++ s.dropWhile isIdentChar = s :=
    List.takeWhile_append_dropWhile
  have hnext : ∀ d ∈ (s.dropWhile isIdentChar).head?, isIdentChar d = false := by
    intro d hd
    obtain ⟨_, hcons⟩ := List.head?_eq_some_iff.1 hd
    exact NodeToken.head?_dropWhile hcons
  by_cases hnil : s.takeWhile isIdentChar = []
  · rw [hnil, List.nil_append] at hsplit
    exact .inl (hsplit ▸ hnext)
  · exact .inr ⟨_, _, hsplit.symm, ⟨hnil, fun _ => List.mem_takeWhile_imp⟩, hnext⟩

/-- The slots are a list of ids with commas, the first of them behind `gap`, and the list does not go on in
`tail`. -/
inductive IsIdList (many : Bool) : (gap : Text) → List Slot → (tail : Text) → Prop where
  | nil {gap t : Text} (ht : ∀ d ∈ t.head?, isIdentChar d = false) : IsIdList many gap [] (gap ++ t)
  | last {gap id t : Text} (hid : IsIdent id) (ht : ∀ d ∈ t.head?, isIdentChar d = false)
    (hend : many = false ∨ ∀ d ∈ t.head?, d ≠ ',') : IsIdList many gap [.plain gap id] t
  | comma {gap id tail : Text} {slots : List Slot} (hmany : many = true) (hid : IsIdent id)
    (hrest : IsIdList many [','] slots tail) : IsIdList many gap (.plain gap id :: slots) tail

namespace IsIdList

variable {slots : List Slot}

theorem exists_toText_eq (h : IsIdList many gap slots tail) : ∃ s, Slot.toText tail slots = gap ++ s := by
  cases h <;> exact ⟨_, rfl⟩

theorem isWritten (h : IsIdList many gap slots tail) : ∀ x ∈ slots, x.IsWritten := by
  induction h with
  | nil => exact List.forall_mem_nil _
  | last => exact List.forall_mem_singleton.2 (Slot.isWritten_plain _ _)
  | comma _ _ _ ih => exact List.forall_mem_cons.2 ⟨Slot.isWritten_plain _ _, ih⟩

/-- Every text is such a list. -/
theorem exists_slots (many : Bool) (gap s : Text) :
    ∃ slots tail, IsIdList many gap slots tail ∧ Slot.toText tail slots = gap ++ s := by
  induction hn : s.length using Nat.strong_induction_on generalizing gap s with
  | _ n ih =>
    rcases head?_or_exists_isIdent s with hs | ⟨id, t, rfl, hid, ht⟩
    · exact ⟨[], gap ++ s, .nil hs, rfl⟩
    by_cases hend : many = false ∨ ∀ d ∈ t.head?, d ≠ ','
    · exact ⟨_, _, .last hid ht hend, rfl⟩
    · simp only [not_or, Bool.not_eq_false, not_forall, not_not] at hend
      obtain ⟨hmany, _, hcomma, rfl⟩ := hend
      obtain ⟨rest, rfl⟩ := List.head?_eq_some_iff.1 hcomma
      have hlt : rest.length < n := by
        rw [← hn, List.length_append, List.length_cons]
        omega
      obtain ⟨slots, tail, hslots, htext⟩ := ih _ hlt [','] rest rfl
      refine ⟨.plain gap id :: slots, tail, .comma hmany hid hslots, ?_⟩
      rw [Slot.toText, htext]
      rfl

/-- The list is read, and nothing behind it. -/
theorem idList_eq (h : IsIdList many gap slots tail) (hs : Slot.toText tail slots = gap ++ s)
    (hfuel : s.length < fuel) (start : Nat) :
    IdReference.idList many fuel (start + gap.length) s = Slot.references start slots := by
  obtain ⟨fuel, rfl⟩ : ∃ n, fuel = n + 1 := ⟨fuel - 1, by omega⟩
  induction h generalizing s fuel start with
  | nil ht =>
    obtain rfl := List.append_cancel_left hs
    exact IdReference.idList_of_none ht _ _
  | @last gap id t hid ht hend =>
    obtain rfl := List.append_cancel_left hs
    exact IdReference.idList_of_end hid ht hend fuel _
  | @comma gap id tail slots hmany hid hrest ih =>
    subst hmany
    obtain ⟨r, hr⟩ := hrest.exists_toText_eq
    obtain rfl := List.append_cancel_left hs
    have hlt : r.length < fuel := by
      simp only [Slot.plain, hr, List.length_append, List.length_singleton] at hfuel
      omega
    obtain ⟨fuel, rfl⟩ : ∃ n, fuel = n + 1 := ⟨fuel - 1, by omega⟩
    have htail := ih hr (start + gap.length + id.length) fuel hlt
    change IdReference.idList true _ _ (id ++ Slot.toText tail slots) = _
    rw [hr, List.singleton_append, IdReference.idList_of_comma hid]
    exact congrArg (_ :: ·) htail

theorem head?_of_ne_nil (h : IsIdList many gap slots tail) (hne : slots ≠ [])
    (hs : Slot.toText tail slots = gap ++ s) : ∀ d ∈ s.head?, isSpace d = false := by
  have hident : ∀ {id t : Text}, IsIdent id → ∀ d ∈ (id ++ t).head?, isSpace d = false := by
    intro id t hid
    obtain ⟨c, r, rfl, hc⟩ := hid.exists_cons
    rintro _ ⟨⟩
    exact isSpace_of_isIdentChar hc
  cases h with
  | nil => exact absurd rfl hne
  | last hid =>
    obtain rfl := List.append_cancel_left hs
    exact hident hid
  | comma _ hid =>
    obtain rfl := List.append_cancel_left hs
    exact hident hid

/-- Behind a word the list is all that the line refers to. -/
theorem isDivided (hwords : (keyword, many) ∈ IdReference.words) (hw : IsBlank w)
    (hc : isSpace c = true) (hv : IsBlank v) (h : IsIdList many (w ++ (keyword ++ c :: v)) slots tail)
    (htext : Slot.toText tail slots = (w ++ (keyword ++ c :: v)) ++ s)
    (hs : ∀ d ∈ s.head?, isSpace d = false) :
    IsDivided (w ++ (keyword ++ c :: (v ++ s))) slots tail where
  text := by simp [htext]
  references := by
    have hread := IdReference.ofLine_of_ofKeyword? hwords
      (IdReference.ofKeyword?_append (IdReference.isIdent_of_mem_words hwords) hw hc hv hs)
    have hlist := h.idList_eq htext (Nat.lt_succ_self _) 0
    rwa [Nat.zero_add, ← hread] at hlist
  written := h.isWritten

/-- A line whose first word is followed by ids is divided by them. -/
theorem exists_isDivided (hwords : (keyword, many) ∈ IdReference.words)
    (h : IdReference.ofKeyword? keyword many line = some refs) :
    ∃ w c v slots tail, IsBlank w ∧ isSpace c = true ∧ IsBlank v ∧
      IsIdList many (w ++ (keyword ++ c :: v)) slots tail ∧ IsDivided line slots tail := by
  obtain ⟨w, c, v, s, rfl, hw, hc, hv, hs⟩ := (IdReference.wordThenBlank_of_ofKeyword? h).exists_split
  obtain ⟨slots, tail, hlist, htext⟩ := exists_slots many (w ++ (keyword ++ c :: v)) s
  exact ⟨w, c, v, slots, tail, hw, hc, hv, hlist, hlist.isDivided hwords hw hc hv htext hs⟩

end IsIdList

/-! ## Headers -/

namespace SubgraphHeader

variable {header : SubgraphHeader}

/-- The header whose word is followed by `body`, which begins at position `start`. -/
def ofBody? (start : Nat) (body : Text) : Option SubgraphHeader :=
  if body.head? = some '"' then some ⟨unquote body, some (unquote body), start, body.length⟩
  else
    let id := body.takeWhile isIdentChar
    if id.isEmpty then none else some ⟨id, labelOf (body.dropWhile isIdentChar), start, id.length⟩

/-- What stands behind the word makes the header. -/
theorem ofLine?_behind (hw : IsBlank w) (hc : isSpace c = true) (hv : IsBlank v)
    (hs : ∀ d ∈ s.head?, isSpace d = false) :
    ofLine? (w ++ (subgraphWord ++ c :: (v ++ s))) =
      ofBody? (w ++ (subgraphWord ++ c :: v)).length (trimEnd s) := by
  have hspace : startsWithSpace (c :: (v ++ s)) = true := hc
  rw [ofLine?, isIdent_subgraphWord.trimStart_append hw, stripFront?_self_append]
  simp only [Option.bind_eq_bind, Option.bind_some, hspace, guard_true, trimStart_behind hc hv hs,
    length_sub_behind, Option.pure_def, ofBody?]
  cases ((trimEnd s).takeWhile isIdentChar).isEmpty <;> rfl

theorem mem_head?_of_trimEnd {d : Char} (h : d ∈ (trimEnd s).head?) : d ∈ s.head? := by
  obtain ⟨blanks, -, htrim⟩ := exists_trimEnd_append s
  rw [← htrim, List.head?_append, Option.mem_def.1 h]
  rfl

theorem labelOf_trimEnd (t : Text) : labelOf (trimEnd t) = labelOf t := by
  obtain ⟨blanks, hblanks, htrim⟩ := exists_trimEnd_append t
  have hsame : trim (trimEnd t) = trim t := by
    conv_rhs => rw [← htrim]
    exact (trim_append_of_isBlank _ hblanks).symm
  rw [labelOf, labelOf, hsame]

/-- A header with an id is read with what stands behind the id as its label. -/
theorem ofLine?_append (hw : IsBlank w) (hc : isSpace c = true) (hv : IsBlank v)
    (hid : IsIdent id) (ht : ∀ d ∈ t.head?, isIdentChar d = false) :
    ofLine? (w ++ (subgraphWord ++ c :: (v ++ (id ++ t)))) =
      some ⟨id, labelOf t, (w ++ (subgraphWord ++ c :: v)).length, id.length⟩ := by
  obtain ⟨x, xs, hcons, hx⟩ := hid.exists_cons
  obtain ⟨front, y, hlast⟩ := (List.eq_nil_or_concat id).resolve_left hid.1
  have hspace : ∀ d ∈ (id ++ t).head?, isSpace d = false := by
    rw [hcons]
    rintro _ ⟨⟩
    exact isSpace_of_isIdentChar hx
  have hbody : trimEnd (id ++ t) = id ++ trimEnd t := by
    have hy : isSpace y = false := isSpace_of_isIdentChar (hid.2 y (by simp [hlast]))
    rw [hlast, List.concat_append, trimEnd_append_cons hy, List.concat_append]
  have hhead : (id ++ trimEnd t).head? ≠ some '"' := by
    rw [hcons]
    rintro ⟨⟩
    exact absurd hx (by decide)
  obtain ⟨htake, hdrop⟩ := hid.takeWhile_append fun d hd => ht d (mem_head?_of_trimEnd hd)
  rw [ofLine?_behind hw hc hv hspace, hbody, ofBody?, if_neg hhead]
  simp only [htake, hdrop, List.isEmpty_eq_false_iff.2 hid.1, Bool.false_eq_true, if_false,
    labelOf_trimEnd]

theorem ofLine_of_header (h : ofLine? line = some header) :
    IdReference.ofLine line = [.ofHeader header] := by
  rw [IdReference.ofLine, h]

/-- A header with an id refers to it. -/
theorem isDivided_of_isIdent (hw : IsBlank w) (hc : isSpace c = true) (hv : IsBlank v)
    (hid : IsIdent id) (ht : ∀ d ∈ t.head?, isIdentChar d = false) :
    IsDivided (w ++ (subgraphWord ++ c :: (v ++ (id ++ t))))
      [.plain (w ++ (subgraphWord ++ c :: v)) id] t where
  text := by simp [Slot.toText, Slot.plain]
  references := by
    rw [ofLine_of_header (ofLine?_append hw hc hv hid ht)]
    simp [Slot.references, Slot.plain, IdReference.ofHeader]
  written := List.forall_mem_singleton.2 (Slot.isWritten_plain _ _)

/-- A header without an id refers to its quoted title. -/
theorem isDivided_of_quote (hw : IsBlank w) (hc : isSpace c = true) (hv : IsBlank v)
    (hs : ∀ d ∈ s.head?, isSpace d = false) (hquote : (trimEnd s).head? = some '"')
    (htrim : trimEnd s ++ t = s) : IsDivided (w ++ (subgraphWord ++ c :: (v ++ s)))
      [⟨w ++ (subgraphWord ++ c :: v), trimEnd s, unquote (trimEnd s)⟩] t where
  text := by simp [Slot.toText, htrim]
  references := by
    have hread := ofLine?_behind hw hc hv hs
    rw [ofBody?, if_pos hquote] at hread
    rw [ofLine_of_header hread]
    simp [Slot.references, IdReference.ofHeader]
  written := List.forall_mem_singleton.2 (.inr ⟨hquote, rfl⟩)

end SubgraphHeader

/-- The ways in which a line may have references. -/
theorem IdReference.line_cases (line : Text) :
    (∃ header, SubgraphHeader.ofLine? line = some header) ∨
    (∃ keyword many refs, (keyword, many) ∈ words ∧ ofKeyword? keyword many line = some refs) ∨
    (∃ l, LinkLine.ofLine? line = some l) ∨ (∃ n, NodeLine.ofLine? line = some n) ∨
    ofLine line = [] := by
  simp only [← Option.isSome_iff_exists]
  by_contra hnone
  simp only [not_or, not_exists, Bool.not_eq_true, Option.isSome_eq_false_iff,
    Option.isNone_iff_eq_none] at hnone
  obtain ⟨hheader, hwords, hlink, hnode, hrefs⟩ := hnone
  have hnot : ∀ keyword many, (keyword, many) ∈ words → ofKeyword? keyword many line = none :=
    fun keyword many hmem => Option.eq_none_iff_forall_ne_some.2 fun refs h =>
      hwords keyword many refs ⟨hmem, h⟩
  refine hrefs ?_
  rw [ofLine, hheader, hnot "style".toList false (by decide), hnot "class".toList true (by decide),
    hnot "click".toList false (by decide), hlink, hnode]
  rfl

end DiagramEditor.Flowchart
