import DiagramEditor.Proofs.Flowchart.Property
import DiagramEditor.Proofs.Flowchart.Statement
import DiagramEditor.Proofs.Lists
import DiagramEditor.Proofs.Text.Numeral

/-!
# Directives read back

A `linkStyle` directive is written anew when links get other positions. It reads as what was
written: the same positions and the same properties (`ofLine_linkStyle_render`).
-/

namespace DiagramEditor.Flowchart

open Text
open NodeToken (IsIdent)

variable {keyword line r w word : Text} {c : Char}

/-- What a keyword recognizer returns of a line that goes on behind the keyword. -/
theorem stripKeyword?_eq_some (hc : isSpace c = true) (hline : trimStart line = keyword ++ c :: r)
    (hr : ¬IsBlank r) : stripKeyword? keyword line = some (trim r) := by
  have htrim : trim line = keyword ++ c :: trimEnd r := by
    have hassoc : keyword ++ c :: r = (keyword ++ [c]) ++ r := by simp
    rw [trim, hline, hassoc, trimEnd_append _ hr, List.append_assoc]
    rfl
  have hrest : trim (c :: trimEnd r) = trim r := by
    have hblank : IsBlank [c] := by
      intro d hd
      rwa [List.mem_singleton.1 hd]
    obtain ⟨v, hv, hrv⟩ := exists_trimEnd_append r
    rw [← List.singleton_append, trim_of_isBlank_append hblank, ← trim_append_of_isBlank _ hv, hrv]
  simp only [stripKeyword?, htrim, stripFront?_self_append, Option.bind_eq_bind, Option.bind_some,
    startsWithSpace, hc, guard_true, hrest]
  rfl

/-- A text without blanks, not empty. -/
def IsWord (word : Text) : Prop :=
  word ≠ [] ∧ ∀ d ∈ word, isSpace d = false

theorem isTrimmed_of_forall (h : ∀ d ∈ word, isSpace d = false) : IsTrimmed word :=
  ⟨fun d hd => h d (List.mem_of_mem_head? hd), fun d hd => h d (List.mem_of_mem_getLast? hd)⟩

/-- The first word of a text and what follows it. -/
theorem headAndRest_trim_append (hword : IsWord word) (hr : ∀ d ∈ r.head?, isSpace d = true) :
    headAndRest (trim (word ++ r)) = (word, trim r) := by
  have hall : ∀ d ∈ word, (!isSpace d) = true := fun d hd => by rw [hword.2 d hd]; rfl
  by_cases hblank : IsBlank r
  · rw [trim_append_of_isBlank _ hblank, trim_eq_self (isTrimmed_of_forall hword.2), headAndRest,
      List.takeWhile_eq_self_iff.2 hall, List.dropWhile_eq_nil_iff.2 hall, trim, trim,
      trimStart_eq_nil_iff.2 hblank, trimStart_eq_nil_iff.2 isBlank_nil]
  · cases r with
    | nil => exact absurd isBlank_nil hblank
    | cons d r =>
    have hd := hr d rfl
    obtain ⟨v, hv, hsplit⟩ := exists_trimEnd_append (d :: r)
    have htrim : trim (word ++ d :: r) = word ++ trimEnd (d :: r) := by
      obtain ⟨c, cs, rfl⟩ := List.exists_cons_of_ne_nil hword.1
      rw [trim, trimStart_eq_self (by simpa using hword.2 c List.mem_cons_self),
        trimEnd_append _ hblank]
    have hhead : ∃ cs, trimEnd (d :: r) = d :: cs := by
      cases hend : trimEnd (d :: r) with
      | nil => exact absurd (hsplit ▸ by rw [hend]; exact hv) hblank
      | cons c cs =>
        rw [hend, List.cons_append] at hsplit
        exact ⟨cs, by rw [(List.cons.inj hsplit).1]⟩
    obtain ⟨cs, hcs⟩ := hhead
    rw [htrim, hcs, headAndRest_append_cons hword.2 hd, ← hcs]
    conv_rhs => rw [← hsplit, trim_append_of_isBlank _ hv]

/-- The line goes on behind the keyword with a word, and with `after` behind it. -/
def HasWord (keyword word after line : Text) : Prop :=
  ∃ w c v, line = w ++ (keyword ++ c :: (v ++ (word ++ after))) ∧ IsBlank w ∧ isSpace c = true ∧
    IsBlank v ∧ IsWord word ∧ ∀ d ∈ after.head?, isSpace d = true

/-- What a keyword recognizer finds: a word behind the keyword, and what follows it. -/
theorem map_headAndRest_eq_some_iff (hkeyword : IsIdent keyword) {rest : Text} (hword : word ≠ []) :
    (stripKeyword? keyword line).map headAndRest = some (word, rest) ↔
      ∃ after, HasWord keyword word after line ∧ rest = trim after := by
  constructor
  · intro h
    obtain ⟨found, hfound, heq⟩ := Option.map_eq_some_iff.1 h
    obtain ⟨c, r, hc, hline⟩ := wordThenBlank_of_stripKeyword? hfound
    have hr : ¬IsBlank r := by
      intro hblank
      have htrim : trim line = keyword := by
        rw [trim, hline, trimEnd_append_of_isBlank]
        · exact trimEnd_eq_self hkeyword.isTrimmed.last
        · exact fun d hd => (List.mem_cons.1 hd).elim (fun h => h ▸ hc) (hblank d)
      simp only [stripKeyword?, htrim, Option.bind_eq_bind] at hfound
      rw [show stripFront? keyword keyword = some [] by
        simpa using stripFront?_self_append keyword []] at hfound
      cases hfound
    rw [stripKeyword?_eq_some hc hline hr] at hfound
    cases hfound
    obtain ⟨v, u, hv, hu, hsplit⟩ := exists_append_trim_append r
    obtain ⟨hhead, hrest⟩ := Prod.mk.inj heq
    have hparts : trim r = word ++ (trim r).dropWhile (!isSpace ·) := by
      rw [← hhead, List.takeWhile_append_dropWhile]
    refine ⟨(trim r).dropWhile (!isSpace ·) ++ u, ⟨indent line, c, v, ?_, isBlank_indent line, hc,
      hv, ⟨hword, fun d hd => ?_⟩, fun d hd => ?_⟩, ?_⟩
    · conv_lhs => rw [← indent_append_trimStart line, hline, ← hsplit, hparts]
      simp
    · have hmem := List.mem_takeWhile_imp (hhead ▸ hd)
      simpa using hmem
    · cases hdrop : (trim r).dropWhile (!isSpace ·) with
      | nil =>
        rw [hdrop, List.nil_append] at hd
        exact hu d (List.mem_of_mem_head? hd)
      | cons e es =>
        rw [hdrop, List.cons_append, List.head?_cons, Option.mem_some_iff] at hd
        have := List.head?_dropWhile_not (!isSpace ·) (trim r)
        rw [hdrop] at this
        simpa [hd] using this
    · rw [← hrest, trim_append_of_isBlank _ hu]
  · rintro ⟨after, ⟨w, c, v, rfl, hw, hc, hv, hword, hafter⟩, rfl⟩
    have hline := hkeyword.trimStart_append hw (c :: (v ++ (word ++ after)))
    have hblank : ¬IsBlank (v ++ (word ++ after)) := by
      obtain ⟨d, ds, rfl⟩ := List.exists_cons_of_ne_nil hword.1
      intro hblank
      have hspace := hblank d (by simp)
      rw [hword.2 d List.mem_cons_self] at hspace
      cases hspace
    rw [stripKeyword?_eq_some hc hline hblank, Option.map_some, trim_of_isBlank_append hv,
      headAndRest_trim_append hword hafter]

theorem isIdent_eq_true_iff : Identifier.isIdent word = true ↔ IsIdent word := by
  simp [Identifier.isIdent, IsIdent]

theorem IsWord.of_isIdent (h : IsIdent word) : IsWord word :=
  ⟨h.1, fun d hd => Identifier.isSpace_of_isIdentChar (h.2 d hd)⟩

/-- What a `style` directive says. -/
theorem NodeStyle.ofLine?_eq_some_iff {d : NodeStyle} : NodeStyle.ofLine? line = some d ↔
    ∃ after, HasWord NodeStyle.keyword d.target after line ∧ IsIdent d.target ∧
      d.properties = Properties.ofText (trim after) := by
  have hkeyword : IsIdent NodeStyle.keyword := isIdent_of_mem_statementKeywords (by decide)
  constructor
  · intro h
    obtain ⟨rest, hrest, h⟩ := Option.bind_eq_some_iff.1 h
    obtain ⟨_, hident, h⟩ := Option.bind_eq_some_iff.1 h
    cases h
    have hident := isIdent_eq_true_iff.1 ((Option.guard_eq_some' _).1 hident)
    obtain ⟨after, hword, hafter⟩ := (map_headAndRest_eq_some_iff hkeyword hident.1).1
      (show _ = some ((headAndRest rest).1, (headAndRest rest).2) by rw [hrest]; rfl)
    exact ⟨after, hword, hident, by rw [← hafter]; rfl⟩
  · rintro ⟨after, hword, hident, hproperties⟩
    obtain ⟨rest, hrest, heq⟩ := Option.map_eq_some_iff.1
      ((map_headAndRest_eq_some_iff hkeyword hident.1).2 ⟨after, hword, rfl⟩)
    simp only [NodeStyle.ofLine?, hrest, heq, isIdent_eq_true_iff.2 hident, guard_true,
      Option.bind_eq_bind, Option.bind_some, Option.pure_def, ← hproperties]

/-- What a `class` directive says. -/
theorem ClassUse.ofLine?_eq_some_iff {d : ClassUse} : ClassUse.ofLine? line = some d ↔
    ∃ after, HasWord ClassUse.keyword (join [','] d.ids) after line ∧ d.ids ≠ [] ∧
      (∀ id ∈ d.ids, IsIdent id) ∧ IsWord d.className ∧ d.className = trim after := by
  have hkeyword : IsIdent ClassUse.keyword := isIdent_of_mem_statementKeywords (by decide)
  constructor
  · intro h
    obtain ⟨rest, hrest, h⟩ := Option.bind_eq_some_iff.1 h
    obtain ⟨word, name, heq⟩ : ∃ word name, headAndRest rest = (word, name) := ⟨_, _, rfl⟩
    rw [heq] at h
    obtain ⟨_, hname, h⟩ := Option.bind_eq_some_iff.1 h
    obtain ⟨_, hids, h⟩ := Option.bind_eq_some_iff.1 h
    cases h
    have hids := (Option.guard_eq_some' _).1 hids
    have hname := (Option.guard_eq_some' _).1 hname
    have hspace : ∀ d ∈ word, isSpace d = false := fun d hd => by
      rw [← (Prod.mk.inj heq).1] at hd
      simpa using List.mem_takeWhile_imp hd
    -- There are no blanks around the ids.
    have hpieces : (splitOn ',' word).map trim = splitOn ',' word := by
      refine (List.map_congr_left fun piece hpiece => ?_).trans (List.map_id _)
      exact trim_eq_self (isTrimmed_of_forall fun d hd =>
        hspace d (join_splitOn ',' word ▸ mem_join_of_mem hpiece hd))
    have hident : ∀ id ∈ splitOn ',' word, IsIdent id := by
      rw [hpieces] at hids
      exact fun id hid => isIdent_eq_true_iff.1 (List.all_eq_true.1 hids id hid)
    have hne : word ≠ [] := by
      rintro rfl
      exact (hident [] (by decide)).1 rfl
    obtain ⟨after, hword, hafter⟩ := (map_headAndRest_eq_some_iff hkeyword hne).1
      (show _ = some (word, name) by rw [hrest, Option.map_some, heq])
    dsimp only
    rw [hpieces]
    refine ⟨after, ?_, splitOn_ne_nil ',' word, hident, ?_, hafter⟩
    · rwa [join_splitOn]
    · simpa [IsWord] using hname
  · rintro ⟨after, hword, hne, hident, hname, hafter⟩
    have hcomma : ∀ id ∈ d.ids, ',' ∉ id := fun id hid hmem =>
      absurd ((hident id hid).2 _ hmem) (by decide)
    have hsplit := splitOn_join hne hcomma
    have hpieces : d.ids.map trim = d.ids := by
      refine (List.map_congr_left fun id hid => ?_).trans (List.map_id _)
      exact trim_eq_self (hident id hid).isTrimmed
    have hall : d.ids.all Identifier.isIdent = true :=
      List.all_eq_true.2 fun id hid => isIdent_eq_true_iff.2 (hident id hid)
    have hguard : (!d.className.isEmpty && !d.className.any isSpace) = true := by
      simpa [IsWord] using hname
    have hjoin : IsWord (join [','] d.ids) := by
      obtain ⟨_, _, _, -, -, -, -, hjoin, -⟩ := hword
      exact hjoin
    obtain ⟨rest, hrest, heq⟩ := Option.map_eq_some_iff.1
      ((map_headAndRest_eq_some_iff hkeyword hjoin.1).2 ⟨after, hword, hafter⟩)
    simp only [ClassUse.ofLine?, hrest, heq, hsplit, hpieces, hall, hguard, guard_true,
      Option.bind_eq_bind, Option.bind_some, Option.pure_def]

/-- A directive as it is written has its word behind the keyword. -/
theorem hasWord_written (hw : IsBlank w) (hword : IsWord word) :
    HasWord keyword word (' ' :: r) (w ++ keyword ++ ' ' :: word ++ ' ' :: r) :=
  ⟨w, ' ', [], by simp, hw, by decide, isBlank_nil, hword, by rintro _ ⟨⟩; decide⟩

theorem trim_space_cons (hr : IsTrimmed r) : trim (' ' :: r) = r := by
  rw [← List.singleton_append, trim_of_isBlank_append isBlank_singleton_space, trim_eq_self hr]

/-- A written `style` directive is about its target, with the properties that are read from those it
was written with. -/
theorem ofLine_nodeStyle_written {target raw : Text} (hw : IsBlank w) (htarget : IsIdent target) :
    Statement.ofLine (NodeStyle.render w ⟨target, Properties.ofText raw⟩) =
      .nodeStyle ⟨target, Properties.ofText (Properties.ofText raw).toText⟩ := by
  have htrimmed := Properties.isTrimmed_toText (Properties.isProperty_ofText raw)
  refine ofLine_nodeStyle (NodeStyle.ofLine?_eq_some_iff.2 ⟨_,
    hasWord_written hw (.of_isIdent htarget), htarget, ?_⟩)
  rw [trim_space_cons htrimmed]

/-- A written `style` directive says what it was written for. -/
theorem ofLine_nodeStyle_render {target raw : Text} (hw : IsBlank w) (htarget : IsIdent target)
    (hsemicolon : ∀ p ∈ Properties.ofText raw, p.2.getLast? ≠ some ';') :
    Statement.ofLine (NodeStyle.render w ⟨target, Properties.ofText raw⟩) =
      .nodeStyle ⟨target, Properties.ofText raw⟩ := by
  rw [ofLine_nodeStyle_written hw htarget, Properties.ofText_toText hsemicolon]

/-- A list of ids with commas has no blanks. -/
theorem isWord_join {ids : List Text} (hne : ids ≠ []) (hids : ∀ id ∈ ids, IsIdent id) :
    IsWord (join [','] ids) := by
  constructor
  · obtain ⟨id, ids, rfl⟩ := List.exists_cons_of_ne_nil hne
    obtain ⟨c, cs, hc, -⟩ := (hids id List.mem_cons_self).exists_cons
    exact List.ne_nil_of_mem (mem_join_of_mem List.mem_cons_self (hc ▸ List.mem_cons_self))
  · intro d hd
    rcases List.mem_append.1 (join_subset _ _ hd) with hd | hd
    · rw [List.mem_singleton.1 hd]
      decide
    · obtain ⟨id, hid, hd⟩ := List.mem_flatten.1 hd
      exact Identifier.isSpace_of_isIdentChar ((hids id hid).2 d hd)

/-- A written `class` directive says what it was written for. -/
theorem ofLine_classUse_render {ids : List Text} {name : Text} (hw : IsBlank w) (hne : ids ≠ [])
    (hids : ∀ id ∈ ids, IsIdent id) (hname : IsWord name) :
    Statement.ofLine (ClassUse.render w ⟨ids, name⟩) = .classUse ⟨ids, name⟩ := by
  refine ofLine_classUse (ClassUse.ofLine?_eq_some_iff.2 ⟨_,
    hasWord_written hw (isWord_join hne hids), hne, hids, hname, ?_⟩)
  exact (trim_space_cons (isTrimmed_of_forall hname.2)).symm

theorem not_isSpace_of_mem_join {positions : List Nat} (h : c ∈ join [','] (positions.map ofNat)) :
    isSpace c = false := by
  induction positions with
  | nil => simp at h
  | cons n rest ih =>
    by_cases hnil : rest = []
    · subst hnil
      rw [List.map_singleton, join_singleton] at h
      exact isSpace_of_isDigit (isDigit_of_mem_ofNat h)
    · rw [List.map_cons, join_cons _ _ (by simpa using hnil)] at h
      rcases List.mem_append.1 h with h | h
      · rcases List.mem_append.1 h with h | h
        · exact isSpace_of_isDigit (isDigit_of_mem_ofNat h)
        · rw [List.mem_singleton.1 h]
          decide
      · exact ih h

/-- A list of positions is read back from its written form. -/
theorem target?_join {positions : List Nat} (hne : positions ≠ [])
    (hbound : ∀ n ∈ positions, n < indexBound) :
    LinkStyle.target? (join [','] (positions.map ofNat)) = some (.indices positions) := by
  have hsplit : splitOn ',' (join [','] (positions.map ofNat)) = positions.map ofNat := by
    refine splitOn_join (by simpa using hne) ?_
    intro field hfield hc
    obtain ⟨n, -, rfl⟩ := List.mem_map.1 hfield
    exact absurd (isDigit_of_mem_ofNat hc) (by decide)
  have hmap : (positions.map ofNat).mapM (fun raw => readIndex? (trim raw)) = some positions := by
    clear hsplit hne
    induction positions with
    | nil => rfl
    | cons n rest ih =>
      rw [List.map_cons, List.mapM_cons, trim_eq_self (isTrimmed_ofNat n),
        readIndex?_ofNat (hbound n List.mem_cons_self),
        ih fun m hm => hbound m (List.mem_cons_of_mem n hm)]
      rfl
  have hdefault : join [','] (positions.map ofNat) ≠ LinkStyle.defaultWord := by
    intro heq
    rw [heq] at hsplit
    have hmem : LinkStyle.defaultWord ∈ positions.map ofNat := by
      rw [← hsplit]
      decide
    obtain ⟨n, -, hn⟩ := List.mem_map.1 hmem
    have := isDigit_of_mem_ofNat (n := n) (c := 'd') (by rw [hn]; decide)
    exact absurd this (by decide)
  rw [LinkStyle.target?, if_neg hdefault, hsplit, hmap]
  rfl

/-- A directive that is read names some positions, or all other links. -/
theorem positions_of_ofLine? {d : LinkStyle} {positions : List Nat}
    (h : LinkStyle.ofLine? line = some d) (htarget : d.target = .indices positions) :
    positions ≠ [] ∧ ∀ n ∈ positions, n < indexBound := by
  simp only [LinkStyle.ofLine?, Option.bind_eq_bind, Option.bind_eq_some_iff, Option.pure_def,
    Option.some.injEq] at h
  obtain ⟨rest, -, target, hword, rfl⟩ := h
  obtain rfl : target = .indices positions := htarget
  rw [LinkStyle.target?] at hword
  split at hword
  · cases hword
  · obtain ⟨_, hmap, heq⟩ := Option.map_eq_some_iff.1 hword
    cases heq
    rw [mapM_eq_some] at hmap
    constructor
    · rintro rfl
      exact splitWhere_ne_nil _ _ (List.map_eq_nil_iff.1 hmap)
    · intro n hn
      obtain ⟨field, -, hfield⟩ := List.mem_map.1 (hmap ▸ List.mem_map_of_mem hn)
      exact lt_of_readIndex? hfield

theorem properties_of_ofLine? {d : LinkStyle} (h : LinkStyle.ofLine? line = some d) :
    ∃ raw, d.properties = Properties.ofText raw := by
  simp only [LinkStyle.ofLine?, Option.bind_eq_bind, Option.bind_eq_some_iff, Option.pure_def,
    Option.some.injEq] at h
  obtain ⟨rest, -, target, -, rfl⟩ := h
  exact ⟨_, rfl⟩

/-- A written `linkStyle` directive says what it was written for. -/
theorem ofLine_linkStyle_render {positions : List Nat} {raw : Text} (hw : IsBlank w)
    (hne : positions ≠ []) (hbound : ∀ n ∈ positions, n < indexBound)
    (hsemicolon : ∀ p ∈ Properties.ofText raw, p.2.getLast? ≠ some ';') :
    Statement.ofLine (LinkStyle.render w positions (Properties.ofText raw)) =
      .linkStyle ⟨.indices positions, Properties.ofText raw⟩ := by
  have hprops := Properties.isProperty_ofText raw
  have htrimmed := Properties.isTrimmed_toText hprops
  have hword : join [','] (positions.map ofNat) ≠ [] := by
    intro heq
    have := target?_join hne hbound
    rw [heq, show LinkStyle.target? [] = none by decide] at this
    contradiction
  have hstart : trimStart (LinkStyle.render w positions (Properties.ofText raw)) =
      LinkStyle.keyword ++ ' ' :: (join [','] (positions.map ofNat) ++
        ' ' :: (Properties.ofText raw).toText) := by
    have hkeyword : IsIdent LinkStyle.keyword := isIdent_of_mem_statementKeywords (by decide)
    rw [← hkeyword.trimStart_append hw, LinkStyle.render]
    simp
  have hblank : ¬IsBlank (join [','] (positions.map ofNat) ++
      ' ' :: (Properties.ofText raw).toText) := by
    obtain ⟨d, ds, hd⟩ := List.exists_cons_of_ne_nil hword
    intro hblank
    have hmem : d ∈ join [','] (positions.map ofNat) := hd ▸ List.mem_cons_self
    have := not_isSpace_of_mem_join hmem
    rw [hblank d (List.mem_append_left _ hmem)] at this
    contradiction
  have hspace : ∀ d ∈ (' ' :: (Properties.ofText raw).toText).head?, isSpace d = true := by
    rintro _ ⟨⟩
    decide
  refine ofLine_linkStyle ?_
  rw [LinkStyle.ofLine?, stripKeyword?_eq_some (by decide) hstart hblank]
  simp only [Option.bind_eq_bind, Option.bind_some,
    headAndRest_trim_append ⟨hword, fun d hd => not_isSpace_of_mem_join hd⟩ hspace,
    trim_space_cons htrimmed, target?_join hne hbound, Properties.ofText_toText hsemicolon]
  rfl

end DiagramEditor.Flowchart
