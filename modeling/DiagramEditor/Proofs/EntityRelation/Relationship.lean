import DiagramEditor.Proofs.EntityRelation.Line
import DiagramEditor.Proofs.Source.Declaration

/-!
# Relationships read back

A relationship is read off three fields in front of the first colon and a label behind it
(`Relationship.ofLine?_eq_some_iff`), and these are what its written form has. So it is read back with
all its parts but the label, which is what `unquote` makes of the written one
(`Relationship.ofLine?_render`). Only a label with blanks is written between quotes, and a label
without any that has quotes of its own around it loses them (`Relationship.ofLine?_render_iff`).
-/

namespace DiagramEditor.EntityRelation

open Text Identifier

variable {line name s w : Text} {c : Char}

/-! ## Blocks -/

theorem endsWith_singleton_iff : endsWith [c] s = true ↔ s.getLast? = some c := by
  rw [endsWith, stripEnd?, Option.isSome_map, Option.isSome_iff_exists]
  simp only [stripFront?_eq_some, List.reverse_singleton, List.singleton_append]
  rw [← List.head?_reverse, List.head?_eq_some_iff]

theorem isBlockOpen_iff : isBlockOpen s = true ↔
    s.getLast? = some '\x7b' ∧ ¬∃ rest, s = ['%', '%'] ++ rest := by
  have hstarts : startsWith ['%', '%'] s = true ↔ ∃ rest, s = ['%', '%'] ++ rest := by
    rw [startsWith, Option.isSome_iff_exists]
    simp only [stripFront?_eq_some]
  rw [isBlockOpen, Bool.and_eq_true, endsWith_singleton_iff, Bool.not_eq_true', ← hstarts,
    Bool.not_eq_true]

/-! ## Signs -/

namespace Cardinality

theorem leftToken_eq (c : Cardinality) : ∃ a b, c.leftToken = [a, b] ∧ ofLeftToken? [a, b] = some c := by
  cases c <;> exact ⟨_, _, rfl, by decide⟩

theorem rightToken_eq (c : Cardinality) :
    ∃ a b, c.rightToken = [a, b] ∧ ofRightToken? [a, b] = some c := by
  cases c <;> exact ⟨_, _, rfl, by decide⟩

end Cardinality

theorem Identification.token_eq (i : Identification) :
    ∃ a b, i.token = [a, b] ∧ ofToken? [a, b] = some i := by
  cases i <;> exact ⟨_, _, rfl, by decide⟩

namespace Relationship

variable {r : Relationship}

/-! ## Names -/

theorem ne_nil_of_isEntityName (h : isEntityName name = true) : name ≠ [] := by
  rintro rfl
  cases h

theorem isEntityChar_of_mem (h : isEntityName name = true) (hc : c ∈ name) :
    isEntityChar c = true :=
  List.all_eq_true.1 (Bool.and_eq_true_iff.1 h).1 c hc

theorem isSpace_of_mem (h : isEntityName name = true) : ∀ c ∈ name, isSpace c = false :=
  fun _ hc => isSpace_of_isEntityChar (isEntityChar_of_mem h hc)

theorem not_mem_of_isEntityName (h : isEntityName name = true)
    (hc : isEntityChar c = false) : c ∉ name := by
  intro hmem
  rw [isEntityChar_of_mem h hmem] at hc
  cases hc

/-! ## Lines -/

theorem quote_not_mem_sign (r : Relationship) : '"' ∉ r.sign ∧ ':' ∉ r.sign := by
  rw [sign]
  cases r.cardinality1 <;> cases r.identification <;> cases r.cardinality2 <;> decide

/-- A relationship is read off three fields in front of the first colon. -/
theorem ofLine?_eq_some_iff : ofLine? line = some r ↔ ∃ left label,
    trim line = left ++ ':' :: label ∧ ':' ∉ left ∧ words left = [r.entity1, r.sign, r.entity2] ∧
      isEntityName r.entity1 = true ∧ isEntityName r.entity2 = true ∧ r.label = unquote label := by
  constructor
  · intro hread
    obtain ⟨⟨left, label⟩, hcut, hread⟩ := Option.bind_eq_some_iff.1 hread
    dsimp only at hread
    split at hread
    case h_2 => cases hread
    next entity1 a b c d e f entity2 hwords =>
    obtain ⟨_, hguard, hread⟩ := Option.bind_eq_some_iff.1 hread
    obtain ⟨card, hcard, hread⟩ := Option.bind_eq_some_iff.1 hread
    obtain ⟨ident, hident, hread⟩ := Option.bind_eq_some_iff.1 hread
    obtain ⟨card2, hcard2, hread⟩ := Option.bind_eq_some_iff.1 hread
    cases hread
    simp only [Option.guard_eq_some', Bool.and_eq_true] at hguard
    obtain ⟨hline, hcolon⟩ := cutChar?_eq_some hcut
    have hsign : card.leftToken ++ ident.token ++ card2.rightToken = [a, b, c, d, e, f] := by
      rw [show card.leftToken = [a, b] by simpa using List.find?_some hcard,
        show ident.token = [c, d] by simpa using List.find?_some hident,
        show card2.rightToken = [e, f] by simpa using List.find?_some hcard2]
      rfl
    exact ⟨left, label, hline, hcolon, by rw [hwords, sign, hsign], hguard.1, hguard.2, rfl⟩
  · rintro ⟨left, label, hline, hcolon, hwords, h1, h2, hlabel⟩
    obtain ⟨entity1, card, ident, card2, entity2, rlabel⟩ := r
    obtain ⟨a, b, hleft, hcard⟩ := card.leftToken_eq
    obtain ⟨c, d, htoken, hident⟩ := ident.token_eq
    obtain ⟨e, f, hright, hcard2⟩ := card2.rightToken_eq
    simp only [sign, hleft, htoken, hright, List.cons_append, List.nil_append] at hwords
    dsimp only at h1 h2 hlabel
    rw [ofLine?, hline, cutChar?_append_cons hcolon]
    simp [hwords, h1, h2, hcard, hident, hcard2, hlabel]

/-- The line begins with the name of the left entity, as a word of its own. -/
theorem exists_entity1_append (hread : ofLine? line = some r) : ∃ rest,
    trim line = r.entity1 ++ rest ∧ ∀ c ∈ rest.head?, isSpace c = true := by
  obtain ⟨left, label, hline, -, hwords, -⟩ := ofLine?_eq_some_iff.1 hread
  have hne : left ≠ [] := by
    rintro rfl
    cases hwords
  have hhead : ∀ c ∈ left.head?, isSpace c = false := fun c hc =>
    (isTrimmed_trim line).head c (by rw [hline, List.head?_append_of_ne_nil _ hne]; exact hc)
  obtain ⟨w, rest, rfl, -, -, hrest, hcut⟩ := exists_words_eq_cons hhead hne
  obtain ⟨rfl, hsign⟩ := List.cons.inj (hcut.symm.trans hwords)
  refine ⟨rest ++ ':' :: label, by rw [hline, List.append_assoc], fun c hc => hrest c ?_⟩
  -- The sign follows, so there is a blank in front of the colon.
  cases rest with
  | nil => cases hsign
  | cons d rest => exact hc

theorem firstWord_of_ofLine? (hread : ofLine? line = some r) : firstWord (trim line) = r.entity1 := by
  obtain ⟨rest, hline, hrest⟩ := exists_entity1_append hread
  obtain ⟨-, -, -, -, -, h1, -⟩ := ofLine?_eq_some_iff.1 hread
  rw [hline, firstWord_of_front (ne_nil_of_isEntityName h1) (isSpace_of_mem h1) hrest]

/-- A relationship is neither silent nor a brace, and it opens a block only by a brace at its end. -/
theorem not_isSilent (hread : ofLine? line = some r) : isSilent (trim line) = false ∧
    isBlockClose (trim line) = false ∧
      isBlockOpen (trim line) = decide ((trim line).getLast? = some '\x7b') := by
  obtain ⟨rest, hline, -⟩ := exists_entity1_append hread
  obtain ⟨-, -, -, -, -, h1, -⟩ := ofLine?_eq_some_iff.1 hread
  have hword := of_isWord_append isBlank_nil (Bool.and_eq_true_iff.1 h1).2 rest
  rw [List.nil_append, ← hline, trim_trim] at hword
  have hcomment := (Bool.or_eq_false_iff.1 hword.1).2
  refine ⟨hword.1, hword.2, ?_⟩
  rw [isBlockOpen, show startsWith ['%', '%'] (trim line) = false from hcomment, Bool.not_false,
    Bool.and_true, Bool.eq_iff_iff, endsWith_singleton_iff, decide_eq_true_eq]

/-- A relationship is a line of content that begins with the left entity. -/
theorem beginsWith_of_ofLine? (hread : ofLine? line = some r) :
    Source.BeginsWith r.entity1 line where
  not_fence hfence := by
    obtain ⟨left, label, hline, -⟩ := ofLine?_eq_some_iff.1 hread
    have hcolon : ':' ∈ Source.frontMatterFence := by
      rw [← hfence, hline]
      exact List.mem_append_right _ List.mem_cons_self
    exact absurd hcolon (by decide)
  not_silent := (not_isSilent hread).1
  firstWord := firstWord_of_ofLine? hread

/-- Wherever no block is open, a relationship is read as one. -/
theorem effect_of_ofLine? (hread : ofLine? line = some r) :
    Effect.ofLine none line = .relationship r := by
  rw [Effect.ofLine.eq_def, (not_isSilent hread).1]
  dsimp only
  rw [Statement.ofLine, hread]
  rfl

/-! ## The written form -/

/-- How the label is written. -/
def writtenLabel (r : Relationship) : Text :=
  if r.label.isEmpty || r.label.any isSpace then quote r.label else r.label

/-- What is written in front of the colon. -/
def writtenFields (r : Relationship) : Text :=
  r.entity1 ++ ' ' :: (r.sign ++ ' ' :: (r.entity2 ++ [' ']))

theorem render_eq (w : Text) (r : Relationship) :
    r.render w = w ++ (r.writtenFields ++ ':' :: ' ' :: r.writtenLabel) := by
  simp [render, writtenFields, writtenLabel]

theorem isTrimmed_writtenLabel (r : Relationship) : IsTrimmed r.writtenLabel := by
  rw [writtenLabel]
  split
  · exact isTrimmed_quote r.label
  · next h =>
    rw [Bool.or_eq_true, not_or, Bool.not_eq_true, Bool.not_eq_true] at h
    exact ⟨fun c hc => eq_false_of_any h.2 (List.mem_of_mem_head? hc),
      fun c hc => eq_false_of_any h.2 (List.mem_of_mem_getLast? hc)⟩

theorem writtenLabel_ne_nil (r : Relationship) : r.writtenLabel ≠ [] := by
  rw [writtenLabel]
  split
  · exact List.cons_ne_nil _ _
  · next h =>
    intro hnil
    simp [hnil] at h

theorem words_writtenFields (h1 : isEntityName r.entity1 = true) (h2 : isEntityName r.entity2 = true) :
    words r.writtenFields = [r.entity1, r.sign, r.entity2] := by
  have hsign : r.sign ≠ [] ∧ r.sign.any isSpace = false := by
    rw [sign]
    cases r.cardinality1 <;> cases r.identification <;> cases r.cardinality2 <;> decide
  rw [writtenFields, words_append_cons _ (by decide), words_append_cons _ (by decide),
    words_append_cons _ (by decide), words_eq_singleton (ne_nil_of_isEntityName h1) (isSpace_of_mem h1),
    words_eq_singleton hsign.1 fun _ => eq_false_of_any hsign.2,
    words_eq_singleton (ne_nil_of_isEntityName h2) (isSpace_of_mem h2)]
  rfl

theorem getLast?_written (r : Relationship) :
    (r.writtenFields ++ ':' :: ' ' :: r.writtenLabel).getLast? = r.writtenLabel.getLast? := by
  rw [show r.writtenFields ++ ':' :: ' ' :: r.writtenLabel =
      r.writtenFields ++ [':', ' '] ++ r.writtenLabel by simp,
    List.getLast?_append_of_ne_nil _ r.writtenLabel_ne_nil]

theorem trim_render (hw : IsBlank w) (h1 : isEntityName r.entity1 = true) :
    trim (r.render w) = r.writtenFields ++ ':' :: ' ' :: r.writtenLabel := by
  rw [render_eq, trim_of_isBlank_append hw, trim_eq_self]
  constructor
  · obtain ⟨c, name, hcons, hc, -⟩ := exists_cons_of_isWord (Bool.and_eq_true_iff.1 h1).2
    rw [writtenFields, hcons]
    rintro _ ⟨⟩
    exact hc
  · rw [getLast?_written]
    exact r.isTrimmed_writtenLabel.last

/-- A relationship is read back with all its parts, and with the label that is written. -/
theorem ofLine?_render (hw : IsBlank w) (h1 : isEntityName r.entity1 = true)
    (h2 : isEntityName r.entity2 = true) :
    ofLine? (r.render w) = some { r with label := unquote r.writtenLabel } := by
  refine ofLine?_eq_some_iff.2 ⟨r.writtenFields, ' ' :: r.writtenLabel, trim_render hw h1, ?_,
    words_writtenFields h1 h2, h1, h2, ?_⟩
  · have hentity : ∀ name, isEntityName name = true → ':' ∉ name :=
      fun _ hname => not_mem_of_isEntityName hname (by decide)
    simp [writtenFields, hentity _ h1, hentity _ h2, (quote_not_mem_sign r).2]
  · have htrim : trim (' ' :: r.writtenLabel) = trim r.writtenLabel :=
      trim_of_isBlank_append isBlank_singleton_space _
    rw [unquote, unquote, htrim]

/-- A label with quotes of its own around it has a blank, so that it is written between quotes. -/
def KeepsLabel (r : Relationship) : Prop :=
  IsQuoted r.label → ∃ c ∈ r.label, isSpace c = true

instance (r : Relationship) : Decidable r.KeepsLabel :=
  inferInstanceAs (Decidable (IsQuoted r.label → ∃ c ∈ r.label, isSpace c = true))

theorem unquote_writtenLabel_iff (h : ¬quoteEntity <:+: r.label) :
    unquote r.writtenLabel = r.label ↔ r.KeepsLabel := by
  have htrimmed := r.isTrimmed_writtenLabel
  rw [writtenLabel] at htrimmed ⊢
  split
  · next hquoted =>
    -- Between quotes every label is safe.
    refine iff_of_true (unquote_quote h) fun hown => ?_
    obtain ⟨inner, hinner⟩ := hown
    rw [hinner] at hquoted ⊢
    simpa using hquoted
  · next hplain =>
    rw [if_neg hplain] at htrimmed
    rw [unquote_eq_self_iff htrimmed h, KeepsLabel, imp_iff_not]
    rw [Bool.or_eq_true, not_or] at hplain
    simpa using hplain.2

/-- A relationship that was read comes back from its written form exactly if it keeps its label. -/
theorem ofLine?_render_iff (hread : ofLine? line = some r) (hw : IsBlank w) :
    ofLine? (r.render w) = some r ↔ r.KeepsLabel := by
  obtain ⟨-, raw, -, -, -, h1, h2, hlabel⟩ := ofLine?_eq_some_iff.1 hread
  have hentity : ¬quoteEntity <:+: r.label := hlabel ▸ not_infix_unquote raw
  rw [ofLine?_render hw h1 h2, ← unquote_writtenLabel_iff hentity]
  constructor
  · intro h
    exact congrArg label (Option.some.inj h)
  · intro h
    rw [h]

end Relationship

end DiagramEditor.EntityRelation
