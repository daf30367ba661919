import DiagramEditor.Proofs.Flowchart.Written
import DiagramEditor.Proofs.Text.Flat

/-!
# The pieces of a line

A link and a node line are read exactly if their pieces are (`LinkLine.ofLine?_eq_some_iff`,
`NodeLine.ofLine?_eq_some_iff`), and a line that is read as a link or a node line says nothing else
(`Statement.ofLine_of_link`, `Statement.ofLine_of_node`). So one piece can be exchanged for another
one as long as the pieces in front of it are still read with the new one behind them.

For a connector this is no question (`Connector.IsWritten`): no arrow begins like another one, so
only a bar behind the arrow could change what is read. A token is read with what follows it in view
(`NodeToken.IsToken`), because a shape is tried on the whole rest of the line.
-/

namespace DiagramEditor.Flowchart

open Text Identifier

variable {line s t rest : Text} {c : Char}

/-! ## Tokens -/

namespace NodeToken

variable {token : NodeToken} {suffix : Option Text}

/-- How a class name is written behind a token. -/
def classText : Option Text → Text
  | none => []
  | some name => classMark ++ name

theorem eq_classText_append (h : scanClass s = (suffix, rest)) : s = classText suffix ++ rest := by
  rw [scanClass] at h
  cases hs : stripFront? classMark s with
  | none =>
    rw [hs] at h
    cases h
    rfl
  | some after =>
    simp only [hs] at h
    split at h
    · cases h
      rfl
    · cases h
      rw [stripFront?_eq_some.1 hs, classText, List.append_assoc, List.takeWhile_append_dropWhile]

theorem head?_dropWhile {p : Char → Bool} (h : s.dropWhile p = c :: rest) : p c = false := by
  have hhead := List.head?_dropWhile_not p s
  rw [h] at hhead
  simpa using hhead

theorem exists_append_of_scanDefinition? {d : Option NodeDefinition}
    (h : scanDefinition? s = some (d, rest)) : ∃ text, s = text ++ rest := by
  cases d with
  | some d =>
    obtain ⟨body, rfl, -, -⟩ | ⟨shape, raw, -, hshape, -⟩ := scanDefinition?_eq_some h
    · exact ⟨'@' :: '{' :: (body ++ ['}']), by simp⟩
    · exact ⟨_, (scanShape?_eq_some hshape).1⟩
  | none =>
    rw [scanDefinition?] at h
    split at h
    · obtain ⟨p, -, hp⟩ := Option.map_eq_some_iff.1 h
      cases hp
    · split at h <;> cases h
      exact ⟨[], rfl⟩

/-- The pieces of a token in front of `rest`: its id, its definition, written as `definition`, and
its class name. -/
structure IsToken (token : NodeToken) (definition rest : Text) : Prop where
  ident : IsIdent token.id
  text : token.text = token.id ++ (definition ++ classText token.classSuffix)
  head : ∀ c ∈ (definition ++ (classText token.classSuffix ++ rest)).head?, isIdentChar c = false
  definition : scanDefinition? (definition ++ (classText token.classSuffix ++ rest)) =
    some (token.definition, classText token.classSuffix ++ rest)
  classSuffix : scanClass (classText token.classSuffix ++ rest) = (token.classSuffix, rest)

theorem IsToken.scan? {definition : Text} (h : IsToken token definition rest) :
    scan? (token.text ++ rest) = some (token, rest) := by
  have hscan := scan?_append h.ident h.head h.definition h.classSuffix
  have htext : token.id ++ (definition ++ (classText token.classSuffix ++ rest)) =
      token.text ++ rest := by
    rw [h.text]
    simp
  rw [htext, before_self_append] at hscan
  exact hscan

theorem scan?_eq_some_iff_isToken : scan? s = some (token, rest) ↔
    s = token.text ++ rest ∧ ∃ definition, IsToken token definition rest := by
  constructor
  · intro h
    have hident := isIdent_of_scan? h
    obtain ⟨after, -, hdef, hclass, hid, htext⟩ := scan?_eq_some_iff.1 h
    obtain ⟨definition, hdrop⟩ := exists_append_of_scanDefinition? hdef
    have hafter := eq_classText_append hclass
    rw [hafter] at hdrop hdef hclass
    rw [hdrop] at hdef
    have hs : s = token.id ++ (definition ++ classText token.classSuffix) ++ rest := by
      rw [← List.takeWhile_append_dropWhile (p := isIdentChar) (l := s), hdrop, hid]
      simp
    rw [hs, before_self_append] at htext
    refine ⟨htext ▸ hs, definition, hident, htext, fun c hc => ?_, hdef, hclass⟩
    rw [← hdrop] at hc
    obtain ⟨r, hr⟩ := List.head?_eq_some_iff.1 hc
    exact head?_dropWhile hr
  · rintro ⟨rfl, definition, h⟩
    exact h.scan?

theorem scan?_self (h : scan? s = some (token, rest)) :
    scan? (token.text ++ rest) = some (token, rest) :=
  (scan?_eq_some_iff_isToken.1 h).1 ▸ h

/-- A token begins with its id, so with no blank. -/
theorem trimStart_text (h : scan? (token.text ++ rest) = some (token, rest)) (s : Text) :
    trimStart (token.text ++ s) = token.text ++ s := by
  obtain ⟨-, definition, hident, htext, -⟩ := scan?_eq_some_iff_isToken.1 h
  have := hident.trimStart_append isBlank_nil (definition ++ classText token.classSuffix ++ s)
  rw [htext]
  simpa using this

theorem exists_text_eq_cons (h : scan? (token.text ++ rest) = some (token, rest)) :
    ∃ c r, token.text = c :: r ∧ isIdentChar c = true := by
  obtain ⟨-, definition, hident, htext, -⟩ := scan?_eq_some_iff_isToken.1 h
  obtain ⟨c, r, hid, hc⟩ := hident.exists_cons
  exact ⟨c, r ++ (definition ++ classText token.classSuffix), by rw [htext, hid]; rfl, hc⟩

theorem indent_append_text (h : scan? (token.text ++ rest) = some (token, rest)) {w : Text}
    (hw : IsBlank w) (s : Text) : indent (w ++ (token.text ++ s)) = w := by
  obtain ⟨c, r, htext, hc⟩ := exists_text_eq_cons h
  rw [indent_of_isBlank_append hw, indent_eq_nil, List.append_nil]
  rw [htext]
  rintro _ ⟨⟩
  exact isSpace_of_isIdentChar hc

end NodeToken

/-! ## Connectors -/

namespace Connector

variable {connector : Connector}

/-- The characters that a connector begins with. -/
def heads : Text :=
  ['-', '<', '=', 'o', 'x']

/-- The characters that a connector ends with. -/
def lasts : Text :=
  ['>', '-', 'o', 'x', '|']

/-- The connector is written as `text`, whatever follows but a bar. -/
structure IsWritten (connector : Connector) (text : Text) : Prop where
  head : ∃ c r, text = c :: r ∧ c ∈ heads
  last : ∃ r c, text = r ++ [c] ∧ c ∈ lasts
  length : 3 ≤ text.length
  reads : ∀ rest, (trimStart rest).head? ≠ some '|' →
    scan? (text ++ rest) = some (connector, rest)

theorem cutOutsideFrom?_of_rest {c : Char} {needle a b : Text} {q : Bool} (hc : c ≠ '"')
    (h : cutOutsideFrom? (c :: needle) q (a ++ (c :: needle ++ b)) = some (a, b)) (t : Text) :
    cutOutsideFrom? (c :: needle) q (a ++ (c :: needle ++ t)) = some (a, t) := by
  induction a generalizing q with
  | nil =>
    rw [List.nil_append, List.cons_append, cutOutsideFrom?, if_neg hc] at h ⊢
    cases q with
    | true =>
      obtain ⟨p, -, hp⟩ := Option.map_eq_some_iff.1 h
      cases hp
    | false =>
      have hself : stripFront? (c :: needle) (c :: (needle ++ t)) = some t :=
        stripFront?_self_append (c :: needle) t
      simp only [Bool.false_eq_true, if_false, hself]
  | cons d a ih =>
    have hcons : ∀ {q}, ((cutOutsideFrom? (c :: needle) q (a ++ (c :: needle ++ b))).map
        fun p => (d :: p.1, p.2)) = some (d :: a, b) →
        ((cutOutsideFrom? (c :: needle) q (a ++ (c :: needle ++ t))).map
          fun p => (d :: p.1, p.2)) = some (d :: a, t) := by
      intro q h
      obtain ⟨⟨a', b'⟩, h, heq⟩ := Option.map_eq_some_iff.1 h
      cases heq
      rw [ih h]
      rfl
    rw [List.cons_append, cutOutsideFrom?] at h ⊢
    split at h
    · next hd =>
      rw [if_pos hd]
      exact hcons h
    · next hd =>
      rw [if_neg hd]
      split at h
      · cases h
      · next hno =>
        have hstrip : (if q then none else stripFront? (c :: needle)
            (d :: (a ++ (c :: needle ++ t)))) = none := by
          cases q with
          | true => rfl
          | false =>
            -- The needle is no longer than what the two texts share.
            have hold : stripFront? (c :: needle) ((d :: a ++ c :: needle) ++ b) = none := by
              simpa using hno
            have hnew := stripFront?_eq_none_append (stripFront?_eq_none_of_append hold)
              (by simp only [List.length_append, List.length_cons]; omega) t
            simpa using hnew
        rw [hstrip]
        exact hcons h

theorem scan?_arrow (arrow : Arrow) (rest : Text) :
    Arrow.scan? (arrow.token ++ rest) = some (arrow, rest) := by
  cases arrow <;> rfl

theorem scanAround?_arrow (arrow : Arrow) (rest : Text) :
    scanAround? (arrow.token ++ rest) = none := by
  cases arrow <;> rfl

theorem arrow_ends (arrow : Arrow) : (∃ c r, arrow.token = c :: r ∧ c ∈ heads) ∧
    (∃ r c, arrow.token = r ++ [c] ∧ c ∈ lasts) ∧ 3 ≤ arrow.token.length := by
  cases arrow <;> first
    | exact ⟨⟨_, _, rfl, by decide⟩, ⟨[_, _], _, rfl, by decide⟩, by decide⟩
    | exact ⟨⟨_, _, rfl, by decide⟩, ⟨[_, _, _], _, rfl, by decide⟩, by decide⟩

theorem arrow_scan?_eq_some {arrow : Arrow} (h : Arrow.scan? s = some (arrow, rest)) :
    s = arrow.token ++ rest := by
  obtain ⟨arrow', -, h⟩ := List.exists_of_findSome?_eq_some h
  obtain ⟨rest', hrest, heq⟩ := Option.map_eq_some_iff.1 h
  cases heq
  exact stripFront?_eq_some.1 hrest

theorem exists_isWritten_of_scanAround? (h : scanAround? s = some (connector, rest)) :
    ∃ text, s = text ++ rest ∧ IsWritten connector text := by
  obtain ⟨after, hafter, h⟩ := Option.bind_eq_some_iff.1 h
  obtain ⟨_, hguard, h⟩ := Option.bind_eq_some_iff.1 h
  obtain ⟨⟨raw, rest'⟩, hcut, h⟩ := Option.bind_eq_some_iff.1 h
  obtain ⟨_, hraw, h⟩ := Option.bind_eq_some_iff.1 h
  cases h
  have hs := stripFront?_eq_some.1 hafter
  have hsplit := cutOutsideFrom?_eq_some hcut
  rw [List.append_assoc] at hsplit
  refine ⟨dashes ++ (raw ++ Arrow.normal.token), by rw [hs, hsplit]; simp, ?_⟩
  refine ⟨⟨'-', _, rfl, by decide⟩, ⟨dashes ++ (raw ++ ['-', '-']), '>', ?_, by decide⟩, ?_, ?_⟩
  · simp [Arrow.token]
  · rw [List.length_append, List.length_append, show Arrow.normal.token.length = 3 from rfl]
    omega
  · intro t _
    have hstart : startsWithSpace (raw ++ (Arrow.normal.token ++ t)) =
        startsWithSpace (raw ++ (Arrow.normal.token ++ rest)) ∧
        (raw ++ (Arrow.normal.token ++ t)).head? = (raw ++ (Arrow.normal.token ++ rest)).head? := by
      cases raw <;> exact ⟨rfl, rfl⟩
    have hcut' : cutOutside? Arrow.normal.token (raw ++ (Arrow.normal.token ++ t)) =
        some (raw, t) := by
      rw [hsplit] at hcut
      exact cutOutsideFrom?_of_rest (by decide) hcut t
    have haround : scanAround? (dashes ++ (raw ++ (Arrow.normal.token ++ t))) =
        some (⟨.normal, some (unquote raw)⟩, t) := by
      rw [hsplit] at hguard
      rw [scanAround?, stripFront?_self_append, Option.bind_eq_bind, Option.bind_some, hstart.1,
        hstart.2, hguard]
      simp only [Option.bind_eq_bind, Option.bind_some, hcut', hraw]
      rfl
    rw [List.append_assoc, List.append_assoc, Connector.scan?, haround]
    rfl

theorem exists_isWritten_of_scanBehind? (h : scanBehind? s = some (connector, rest)) :
    ∃ text, s = text ++ rest ∧ IsWritten connector text := by
  obtain ⟨⟨arrow, after⟩, harrow, hread⟩ := Option.bind_eq_some_iff.1 h
  obtain rfl := arrow_scan?_eq_some harrow
  obtain ⟨hhead, hlast, hlength⟩ := arrow_ends arrow
  dsimp only at hread
  split at hread
  · next piped hpiped =>
    obtain ⟨⟨raw, rest'⟩, hcut, hread⟩ := Option.bind_eq_some_iff.1 hread
    cases hread
    obtain ⟨rfl, hraw⟩ := cutChar?_eq_some hcut
    obtain ⟨c, r, hc, hmem⟩ := hhead
    have hafter := indent_append_trimStart after
    rw [hpiped] at hafter
    refine ⟨arrow.token ++ (indent after ++ '|' :: (raw ++ ['|'])), ?_, ?_⟩
    · conv_lhs => rw [← hafter]
      simp
    · refine ⟨⟨c, r ++ (indent after ++ '|' :: (raw ++ ['|'])), by rw [hc]; rfl, hmem⟩,
        ⟨arrow.token ++ (indent after ++ '|' :: raw), '|', by simp, by decide⟩, ?_, fun t _ => ?_⟩
      · rw [List.length_append]
        omega
      · have hbar : trimStart (indent after ++ '|' :: (raw ++ '|' :: t)) =
            '|' :: (raw ++ '|' :: t) := by
          rw [trimStart_of_isBlank_append (isBlank_indent after), trimStart_eq_self]
          rintro _ ⟨⟩
          decide
        have htext : arrow.token ++ (indent after ++ '|' :: (raw ++ ['|'])) ++ t =
            arrow.token ++ (indent after ++ '|' :: (raw ++ '|' :: t)) := by simp
        rw [htext, Connector.scan?, scanAround?_arrow, Option.none_or, scanBehind?, scan?_arrow]
        simp only [Option.bind_eq_bind, Option.bind_some, hbar, cutChar?_append_cons hraw]
        rfl
  · cases hread
    refine ⟨arrow.token, rfl, hhead, hlast, hlength, fun t ht => ?_⟩
    rw [Connector.scan?, scanAround?_arrow, Option.none_or, scanBehind?, scan?_arrow]
    simp only [Option.bind_eq_bind, Option.bind_some]
    split
    · next hpiped =>
      rw [hpiped] at ht
      exact absurd rfl ht
    · rfl

theorem exists_isWritten (h : scan? s = some (connector, rest)) :
    ∃ text, s = text ++ rest ∧ IsWritten connector text := by
  rcases Option.or_eq_some_iff.1 h with h | ⟨-, h⟩
  exacts [exists_isWritten_of_scanAround? h, exists_isWritten_of_scanBehind? h]

end Connector

/-! ## Lines -/

/-- The pieces of a link are read, each with the pieces behind it in view. -/
structure LinkLine.IsRead (l : LinkLine) : Prop where
  lead : IsBlank l.lead
  source : NodeToken.scan? (l.source.text ++ (l.between ++ (l.target.text ++ l.tail))) =
    some (l.source, l.between ++ (l.target.text ++ l.tail))
  keyword : l.source.isKeyword = false
  between : ∃ w text v, l.between = w ++ (text ++ v) ∧ IsBlank w ∧ IsBlank v ∧
    l.connector.IsWritten text
  target : NodeToken.scan? (l.target.text ++ l.tail) = some (l.target, l.tail)
  tail : isStatementEnd l.tail = true

theorem LinkLine.toLine_eq (l : LinkLine) :
    l.toLine = l.lead ++ (l.source.text ++ (l.between ++ (l.target.text ++ l.tail))) := by
  simp [LinkLine.toLine]

/-- A line is read as a link exactly if it is made of pieces that are read. -/
theorem LinkLine.ofLine?_eq_some_iff {l : LinkLine} :
    LinkLine.ofLine? line = some l ↔ l.IsRead ∧ line = l.toLine := by
  constructor
  · intro h
    obtain ⟨⟨source, afterSource⟩, hsource, h⟩ := Option.bind_eq_some_iff.1 h
    obtain ⟨_, hkeyword, h⟩ := Option.bind_eq_some_iff.1 h
    obtain ⟨⟨connector, afterConnector⟩, hconnector, h⟩ := Option.bind_eq_some_iff.1 h
    obtain ⟨⟨target, tail⟩, htarget, h⟩ := Option.bind_eq_some_iff.1 h
    obtain ⟨_, htail, h⟩ := Option.bind_eq_some_iff.1 h
    cases h
    obtain ⟨hline, -⟩ := NodeToken.scan?_eq_some_iff_isToken.1 hsource
    obtain ⟨hrest, -⟩ := NodeToken.scan?_eq_some_iff_isToken.1 htarget
    obtain ⟨text, htext, hwritten⟩ := Connector.exists_isWritten hconnector
    have hafter : afterSource =
        indent afterSource ++ (text ++ indent afterConnector) ++ trimStart afterConnector := by
      conv_lhs => rw [← indent_append_trimStart afterSource, htext,
        ← indent_append_trimStart afterConnector]
      simp
    have hbetween : before afterSource (trimStart afterConnector) =
        indent afterSource ++ (text ++ indent afterConnector) := by
      conv_lhs => rw [hafter]
      exact before_self_append ..
    have hall : afterSource =
        before afterSource (trimStart afterConnector) ++ (target.text ++ tail) := by
      rw [hbetween, ← hrest]
      exact hafter
    refine ⟨⟨isBlank_indent line, ?_, by simpa using hkeyword, ⟨_, text, _, hbetween,
      isBlank_indent afterSource, isBlank_indent afterConnector, hwritten⟩, ?_, ?_⟩, ?_⟩
    · dsimp only
      rw [← hall]
      exact NodeToken.scan?_self hsource
    · exact NodeToken.scan?_self htarget
    · simpa using htail
    · rw [LinkLine.toLine_eq]
      dsimp only
      rw [← hall, ← hline, indent_append_trimStart]
  · rintro ⟨⟨hlead, hsource, hkeyword, ⟨w, text, v, hbetween, hw, hv, hwritten⟩, htarget, htail⟩,
      rfl⟩
    have hline : trimStart l.toLine =
        l.source.text ++ (l.between ++ (l.target.text ++ l.tail)) := by
      rw [LinkLine.toLine_eq, trimStart_of_isBlank_append hlead]
      exact NodeToken.trimStart_text hsource _
    have hindent : indent l.toLine = l.lead := by
      rw [LinkLine.toLine_eq]
      exact NodeToken.indent_append_text hsource hlead _
    have hafter : trimStart (l.between ++ (l.target.text ++ l.tail)) =
        text ++ (v ++ (l.target.text ++ l.tail)) := by
      obtain ⟨c, r, rfl, hc⟩ := hwritten.head
      rw [hbetween, List.append_assoc, trimStart_of_isBlank_append hw, trimStart_eq_self]
      · simp
      · rintro _ ⟨⟩
        revert hc
        exact fun hc => eq_false_of_any (p := isSpace) (s := Connector.heads) (by decide) hc
    have hat : trimStart (v ++ (l.target.text ++ l.tail)) = l.target.text ++ l.tail := by
      rw [trimStart_of_isBlank_append hv]
      exact NodeToken.trimStart_text htarget _
    have hread := hwritten.reads (v ++ (l.target.text ++ l.tail)) (by
      obtain ⟨c, r, htext, hc⟩ := NodeToken.exists_text_eq_cons htarget
      rw [hat, htext]
      rintro ⟨⟩
      exact absurd hc (by decide))
    simp only [LinkLine.ofLine?, hline, hsource, hkeyword, hafter, hread, hat, htarget, htail,
      hindent, before_self_append, Option.bind_eq_bind, Option.bind_some, Bool.not_false,
      guard_true]
    rfl

/-- The pieces of a node line are read. -/
structure NodeLine.IsRead (n : NodeLine) : Prop where
  lead : IsBlank n.lead
  token : NodeToken.scan? (n.token.text ++ n.tail) = some (n.token, n.tail)
  tail : isStatementEnd n.tail = true
  keyword : n.token.isKeyword = false

/-- A line is read as a node line exactly if it is made of pieces that are read. -/
theorem NodeLine.ofLine?_eq_some_iff {n : NodeLine} :
    NodeLine.ofLine? line = some n ↔ n.IsRead ∧ line = n.lead ++ (n.token.text ++ n.tail) := by
  constructor
  · intro h
    obtain ⟨⟨token, tail⟩, htoken, h⟩ := Option.bind_eq_some_iff.1 h
    obtain ⟨_, htail, h⟩ := Option.bind_eq_some_iff.1 h
    obtain ⟨_, hkeyword, h⟩ := Option.bind_eq_some_iff.1 h
    cases h
    obtain ⟨hline, -⟩ := NodeToken.scan?_eq_some_iff_isToken.1 htoken
    refine ⟨⟨isBlank_indent line, NodeToken.scan?_self htoken, by simpa using htail,
      by simpa using hkeyword⟩, ?_⟩
    dsimp only
    rw [← hline, indent_append_trimStart]
  · rintro ⟨⟨hlead, htoken, htail, hkeyword⟩, rfl⟩
    have hline : trimStart (n.lead ++ (n.token.text ++ n.tail)) = n.token.text ++ n.tail := by
      rw [trimStart_of_isBlank_append hlead]
      exact NodeToken.trimStart_text htoken _
    have hindent := NodeToken.indent_append_text htoken hlead n.tail
    simp only [NodeLine.ofLine?, hline, htoken, htail, hkeyword, hindent, Option.bind_eq_bind,
      Option.bind_some, Bool.not_false, guard_true]
    rfl

namespace Statement

variable {token : NodeToken}

/-- A word that begins other lines is a keyword where no definition follows it. -/
theorem isKeyword_of_front {word : Text} (hscan : NodeToken.scan? (word ++ t) = some (token, rest))
    (hword : word ∈ statementKeywords)
    (ht : ∀ c ∈ t.head?, isIdentChar c = false ∧ c ∉ NodeToken.openers) :
    token.isKeyword = true := by
  have hscan' := NodeToken.scan?_append (isIdent_of_mem_statementKeywords hword)
    (fun c hc => (ht c hc).1) (NodeToken.scanDefinition?_of_noOpener fun c hc => (ht c hc).2)
    (Prod.ext rfl rfl)
  rw [hscan] at hscan'
  cases hscan'
  rw [NodeToken.isKeyword, List.contains_iff_mem.2 hword]
  rfl

theorem not_opener_of_isSpace (hc : isSpace c = true) :
    isIdentChar c = false ∧ c ∉ NodeToken.openers := by
  refine ⟨isIdentChar_of_isSpace hc, fun hmem => ?_⟩
  rw [NodeToken.isSpace_of_mem_openers hmem] at hc
  cases hc

theorem isKeyword_of_trim {word : Text}
    (hscan : NodeToken.scan? (trimStart line) = some (token, rest))
    (hword : word ∈ statementKeywords) (htrim : trim line = word ++ t)
    (ht : ∀ c ∈ t.head?, isIdentChar c = false ∧ c ∉ NodeToken.openers) :
    token.isKeyword = true := by
  obtain ⟨w, hw, hline⟩ := exists_trimEnd_append (trimStart line)
  rw [← hline, ← trim, htrim, List.append_assoc] at hscan
  refine isKeyword_of_front hscan hword fun c hc => ?_
  cases t with
  | nil => exact not_opener_of_isSpace (hw c (List.mem_of_mem_head? hc))
  | cons d t => exact ht c hc

/-- A token that is no keyword does not begin the end of a block. -/
theorem isBlockEnd_of_scan? (hscan : NodeToken.scan? (trimStart line) = some (token, rest))
    (hkeyword : token.isKeyword = false) : isBlockEnd (trim line) = false := by
  have hno : ∀ t, (∀ c ∈ t.head?, isIdentChar c = false ∧ c ∉ NodeToken.openers) →
      trim line ≠ endWord ++ t := by
    intro t ht htrim
    rw [isKeyword_of_trim hscan (by decide) htrim ht] at hkeyword
    cases hkeyword
  have hbare := hno [] (by simp)
  have hsemicolon := hno [';'] (by rintro _ ⟨⟩; decide)
  rw [List.append_nil] at hbare
  simp [isBlockEnd, hbare, hsemicolon]

/-- A line with a token in front that is no keyword is a link, a node line or not understood. -/
theorem ofLine_of_scan? (hscan : NodeToken.scan? (trimStart line) = some (token, rest))
    (hkeyword : token.isKeyword = false) :
    Statement.ofLine line = match LinkLine.ofLine? line with
      | some l => .link l
      | none => match NodeLine.ofLine? line with
        | some n => .node n
        | none => .other := by
  obtain ⟨hline, definition, hident, htext, -⟩ := NodeToken.scan?_eq_some_iff_isToken.1 hscan
  rw [htext, List.append_assoc] at hline
  refine ofLine_of_no_word (not_silent_of_ident hident hline) (isBlockEnd_of_scan? hscan hkeyword)
    fun word hword h => ?_
  obtain ⟨c, after, hc, hstart⟩ := h
  rw [hstart] at hscan
  rw [isKeyword_of_front hscan hword (by simpa using not_opener_of_isSpace hc)] at hkeyword
  cases hkeyword

/-- A line that is read as a link says this and nothing else. -/
theorem ofLine_of_link {l : LinkLine} (h : LinkLine.ofLine? line = some l) :
    Statement.ofLine line = .link l := by
  obtain ⟨⟨_, _⟩, hsource, hread⟩ := Option.bind_eq_some_iff.1 h
  obtain ⟨_, hkeyword, -⟩ := Option.bind_eq_some_iff.1 hread
  have hkeyword := by simpa using hkeyword
  rw [ofLine_of_scan? hsource hkeyword, h]

/-- A line that is read as a node line says this and nothing else. -/
theorem ofLine_of_node {n : NodeLine} (h : NodeLine.ofLine? line = some n) :
    Statement.ofLine line = .node n := by
  obtain ⟨⟨token, tail⟩, htoken, hread⟩ := Option.bind_eq_some_iff.1 h
  obtain ⟨_, htail, hread⟩ := Option.bind_eq_some_iff.1 hread
  obtain ⟨_, hkeyword, -⟩ := Option.bind_eq_some_iff.1 hread
  have htail := by simpa using htail
  have hkeyword := by simpa using hkeyword
  have hlink : LinkLine.ofLine? line = none := by
    rw [LinkLine.ofLine?, htoken]
    simp [hkeyword, connector_scan?_of_end htail]
  rw [ofLine_of_scan? htoken hkeyword, hlink, h]

/-- An id that does not begin other lines is a mention of its node where it stands alone. -/
theorem ofLine_ident_of_not_keyword {w id : Text} (hw : IsBlank w) (hid : NodeToken.IsIdent id)
    (hkeyword : id ∉ statementKeywords) :
    Statement.ofLine (w ++ id) = .node ⟨w, ⟨id, none, none, id⟩, []⟩ := by
  refine ofLine_of_node (NodeLine.ofLine?_eq_some_iff.2 ⟨⟨hw, ?_, rfl, ?_⟩, by simp⟩)
  · rw [List.append_nil]
    exact NodeToken.scan?_ident hid
  · simp [NodeToken.isKeyword, hkeyword]

/-- An id that begins other lines mentions nothing where it stands alone. -/
theorem mem_tokens_ident_iff {w id x : Text} (hw : IsBlank w) (hid : NodeToken.IsIdent id) :
    x ∈ (Statement.ofLine (w ++ id)).tokens.map (·.id) ↔ x = id ∧ id ∉ statementKeywords := by
  by_cases hkeyword : id ∈ statementKeywords
  · refine iff_of_false ?_ fun h => h.2 hkeyword
    rcases ofLine_ident hw hid with h | h | h
    · have hread := readsFrom_ofLine (w ++ id)
      rw [h] at hread
      have hno := (NodeLine.ofLine?_eq_some_iff.1 hread).1.keyword
      simp [NodeToken.isKeyword, hkeyword] at hno
    · simp [h, Statement.tokens]
    · simp [h, Statement.tokens]
  · simp [ofLine_ident_of_not_keyword hw hid hkeyword, Statement.tokens, hkeyword]

end Statement

end DiagramEditor.Flowchart
