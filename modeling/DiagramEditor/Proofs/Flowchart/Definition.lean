import DiagramEditor.Proofs.Flowchart.Redefine

/-!
# Definitions on lines of their own

A definition is written behind an id and read back (`NodeDefinition.ReadsBack`) if it was read
anywhere before (`NodeDefinition.readsBack_of_scan?`), or if it is a classic one around a label that
its quotes do not change. So the line of a node with it, behind whatever blanks and with whatever class
name, is read as what it was written from (`NodeLine.ofLine?_render`).

What was read before needs no condition, as the line ends behind the definition: a shape that was not
read with more text behind it is not read without that text either.
-/

namespace DiagramEditor.Flowchart

open Text
open NodeToken (IsIdent IsClassName classText classMark)

variable {s w line rest : Text} {id label : Text} {suffix : Option Text} {d : NodeDefinition}
  {token : NodeToken}

/-! ## Class names -/

namespace NodeToken

theorem noDelimiter_of_isClassName {name : Text} (h : IsClassName name) :
    NoDelimiter (classMark ++ name) := by
  have hnot : ∀ c ∈ openers ++ closers, isClassChar c = false :=
    fun _ => eq_false_of_any (by decide)
  intro c hc hmem
  rcases List.mem_append.1 hc with hc | hc
  · have hcolon : c = ':' := by simpa [classMark] using hc
    rw [hcolon] at hmem
    exact absurd hmem (by decide)
  · have hclass := h.2 c hc
    rw [hnot c hmem] at hclass
    cases hclass

theorem scanClass_classMark {name : Text} (h : IsClassName name) :
    scanClass (classMark ++ name) = (some name, []) := by
  have htake : name.takeWhile isClassChar = name := List.takeWhile_eq_self_iff.2 h.2
  have hdrop : name.dropWhile isClassChar = [] := List.dropWhile_eq_nil_iff.2 h.2
  rw [scanClass, stripFront?_self_append]
  simp [htake, hdrop, h.1]

/-- A class name is no part of a definition, and it is read back. -/
theorem scanClass_classText (h : ∀ name ∈ suffix, IsClassName name) :
    NoDelimiter (classText suffix) ∧ scanClass (classText suffix) = (suffix, []) := by
  cases suffix with
  | none => exact ⟨by simp [NoDelimiter, classText], rfl⟩
  | some name =>
    have hname := h name rfl
    exact ⟨noDelimiter_of_isClassName hname, scanClass_classMark hname⟩

end NodeToken

/-! ## Definitions -/

namespace NodeDefinition

/-- The definition is written behind an id, begins with an opener there, and is read again. -/
structure ReadsBack (d : NodeDefinition) : Prop where
  opener : ∃ c cs, c ∈ NodeToken.openers ∧ d.render [] = c :: cs
  render : ∀ id, d.render id = id ++ d.render []
  scan : NodeToken.scanDefinition? (d.render []) = some (some d, [])

/-- A definition that a token was read with is read back. -/
theorem readsBack_of_scan? (h : NodeToken.scan? s = some (token, rest))
    (hd : token.definition = some d) : d.ReadsBack := by
  obtain ⟨after, -, hdef, -⟩ := NodeToken.scan?_eq_some_iff.1 h
  rw [hd] at hdef
  obtain ⟨hopener, hrender, hscan⟩ := NodeToken.scanDefinition?_render hdef
  exact ⟨hopener, hrender, hscan⟩

theorem IsFaithful.readsBack (h : d.IsFaithful) : d.ReadsBack := by
  obtain ⟨c, cs, hcons, hc⟩ := h.opener
  refine ⟨⟨c, cs, hc, hcons⟩, h.render, ?_⟩
  have hscan := h.scan []
  rwa [List.append_nil] at hscan

/-- A classic definition is read back where the quotes keep its label, that is where the label does
not hold the entity that stands for a quote. -/
theorem unquote_quote_eq_self_iff : unquote (quote label) = label ↔ ¬quoteEntity <:+: label := by
  refine ⟨fun h hinfix => ?_, unquote_quote⟩
  rw [← h] at hinfix
  exact not_infix_unquote (quote label) hinfix

end NodeDefinition

/-! ## Lines -/

open NodeDefinition (ReadsBack)

/-- The token that is written with the definition and a class name. -/
def NodeToken.written (id : Text) (d : NodeDefinition) (suffix : Option Text) : NodeToken :=
  ⟨id, some d, suffix, d.render id ++ classText suffix⟩

theorem NodeToken.scan?_written (hd : d.ReadsBack) (hid : IsIdent id)
    (hsuffix : ∀ name ∈ suffix, IsClassName name) :
    NodeToken.scan? (d.render id ++ classText suffix) =
      some (NodeToken.written id d suffix, []) := by
  obtain ⟨c, cs, hc, hcons⟩ := hd.opener
  obtain ⟨hfree, hclass⟩ := NodeToken.scanClass_classText hsuffix
  have hdef : NodeToken.scanDefinition? (d.render [] ++ classText suffix) =
      some (some d, classText suffix) := by
    rw [NodeToken.scanDefinition?_append hfree, hd.scan]
    rfl
  have hhead : ∀ e ∈ (d.render [] ++ classText suffix).head?, Identifier.isIdentChar e = false := by
    rw [hcons]
    rintro e ⟨⟩
    exact NodeToken.isIdentChar_of_mem_openers hc
  have hscan := NodeToken.scan?_append hid hhead hdef hclass
  have hbefore : ∀ t : Text, before t [] = t := fun t => by simp [before]
  rw [← List.append_assoc, ← hd.render, hbefore] at hscan
  exact hscan

/-- A node written with its definition and a class name behind blanks is read as this node. -/
theorem NodeLine.ofLine?_render (hd : d.ReadsBack) (hw : IsBlank w) (hid : IsIdent id)
    (hsuffix : ∀ name ∈ suffix, IsClassName name) :
    NodeLine.ofLine? (w ++ (d.render id ++ classText suffix)) =
      some ⟨w, NodeToken.written id d suffix, []⟩ := by
  have hscan := NodeToken.scan?_written hd hid hsuffix
  refine NodeLine.ofLine?_eq_some_iff.2 ⟨⟨hw, ?_, rfl, rfl⟩, ?_⟩
  · rw [List.append_nil]
    exact hscan
  · rw [List.append_nil]
    rfl

/-- The line is read as a node with this definition, or as a link one end of which has it. -/
def NodeDefinition.IsReadFrom (line : Text) (d : NodeDefinition) : Prop :=
  (∃ n, NodeLine.ofLine? line = some n ∧ n.token.definition = some d) ∨
    ∃ l, LinkLine.ofLine? line = some l ∧ (l.source.definition = some d ∨ l.target.definition = some d)

theorem NodeDefinition.IsReadFrom.readsBack (h : d.IsReadFrom line) : d.ReadsBack := by
  obtain ⟨n, hn, hd⟩ | ⟨l, hl, hd⟩ := h
  · exact readsBack_of_scan? (NodeLine.ofLine?_eq_some_iff.1 hn).1.token hd
  · have hread := (LinkLine.ofLine?_eq_some_iff.1 hl).1
    rcases hd with hd | hd
    exacts [readsBack_of_scan? hread.source hd, readsBack_of_scan? hread.target hd]

/-- A definition is read back on a line of its own, behind whatever blanks and for whatever node: a
classic one exactly if its label does not hold the entity that stands for a quote, and any one that
has been read from a line before. -/
theorem NodeLine.ofLine?_definition (hw : IsBlank w) (hid : IsIdent id) :
    (∀ shape label, NodeLine.ofLine? (w ++ (NodeDefinition.classic shape label).render id) =
        some ⟨w, ⟨id, some (.classic shape label), none,
          (NodeDefinition.classic shape label).render id⟩, []⟩ ↔ ¬quoteEntity <:+: label) ∧
      ∀ (line : Text) (d : NodeDefinition), d.IsReadFrom line →
        NodeLine.ofLine? (w ++ d.render id) = some ⟨w, ⟨id, some d, none, d.render id⟩, []⟩ := by
  have hread : ∀ {d : NodeDefinition}, d.ReadsBack →
      NodeLine.ofLine? (w ++ d.render id) = some ⟨w, ⟨id, some d, none, d.render id⟩, []⟩ := by
    intro d hd
    have hnone : ∀ name ∈ (none : Option Text), IsClassName name := nofun
    have h := NodeLine.ofLine?_render hd hw hid hnone
    rwa [NodeToken.written, classText, List.append_nil] at h
  refine ⟨fun shape label => ⟨fun h => ?_, fun h => ?_⟩, fun line d hd => hread hd.readsBack⟩
  · -- What is read has the label that the quotes leave.
    have hshape := NodeToken.scanDefinition?_shaped (NodeToken.scanShape?_quote shape label [])
    rw [List.append_nil] at hshape
    have hrender : (NodeDefinition.classic shape label).render [] =
        NodeToken.shaped shape (quote label) := by
      simp [NodeDefinition.render, NodeDefinition.classic, NodeToken.shaped]
    have hback := NodeDefinition.IsReadFrom.readsBack (.inl ⟨_, h, rfl⟩)
    have hscan := hback.scan
    rw [hrender, hshape] at hscan
    obtain ⟨hdef, -⟩ := Prod.mk.inj (Option.some.inj hscan)
    have hlabel := congrArg NodeDefinition.label (Option.some.inj hdef)
    exact NodeDefinition.unquote_quote_eq_self_iff.1 (Option.some.inj hlabel)
  · exact hread (NodeDefinition.isFaithful_classic (unquote_quote h) shape).readsBack

/-- One definition is an advanced one that stands on a link line, with a comma and a brace in quotes. -/
theorem NodeLine.ofLine?_definition_on_link :
    let w : Text := "  ".toList
    let id : Text := "x_1".toList
    let line : Text := "A@\x7b shape: cyl, label: \"a, \x7db\" \x7d --> B>c d]:::big".toList
    let d : NodeDefinition := .advanced
      [("shape".toList, "cyl".toList), ("label".toList, "\"a, \x7db\"".toList)]
    let label : Text := "[(\"x\") --> ".toList
    IsBlank w ∧ IsIdent id ∧ d.IsReadFrom line ∧ ¬quoteEntity <:+: label ∧
      NodeLine.ofLine? (w ++ d.render id) = some ⟨w, ⟨id, some d, none, d.render id⟩, []⟩ ∧
      NodeLine.ofLine? (w ++ (NodeDefinition.classic .trapezoid label).render id) =
        some ⟨w, ⟨id, some (.classic .trapezoid label), none,
          (NodeDefinition.classic .trapezoid label).render id⟩, []⟩ := by
  intro w id line d label
  have hw : IsBlank w := List.all_eq_true.1 (by decide +kernel)
  have hid : IsIdent id := ⟨by decide +kernel, List.all_eq_true.1 (by decide +kernel)⟩
  have hd : d.IsReadFrom line := by
    refine .inr ?_
    have hline : ((LinkLine.ofLine? line).map (·.source.definition)) = some (some d) := by
      decide +kernel
    obtain ⟨l, hl, hsource⟩ := Option.map_eq_some_iff.1 hline
    exact ⟨l, hl, .inl hsource⟩
  have hlabel : ¬quoteEntity <:+: label := by decide +kernel
  obtain ⟨hclassic, hread⟩ := NodeLine.ofLine?_definition hw hid
  exact ⟨hw, hid, hd, hlabel, hread line d hd, (hclassic .trapezoid label).2 hlabel⟩

end DiagramEditor.Flowchart
