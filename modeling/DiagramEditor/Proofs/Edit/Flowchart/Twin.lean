import DiagramEditor.Proofs.Edit.Flowchart.Copy
import DiagramEditor.Proofs.Edit.Flowchart.Relabel
import DiagramEditor.Proofs.Edit.Flowchart.Restyle
import DiagramEditor.Proofs.Flowchart.Innermost
import DiagramEditor.Proofs.Flowchart.Twin
import DiagramEditor.Proofs.Identifier.Fresh
import DiagramEditor.Proofs.Source.Depth

/-!
# The copy of a node

The texts that are written below lines do not get into each other's way: the lowest is written first,
so every line is still where it was (`insertBelow_eq`). Below the line that carries the text of the node
stands a line that defines the copy, and below every directive about the node the same directive about
the copy (`copiesBelow`). So the node has a twin (`isTwinned_copies`), under the first free id
that is made of its own and a number (`applyOps_duplicateNode`).
-/

namespace DiagramEditor.Edit.Flowchart

open DiagramEditor.Flowchart Source Text
open NodeToken (IsIdent IsClassName isClassName_of_scan?)

variable {s s' : Source} {front body : List Text} {line text : Text} {n : NodeRecord} {i anchor : Nat}
  {id copy : Text} {inserts more : List (Nat × Text)} {st : Statement}

/-! ## Texts below lines -/

/-- The texts that are written below the line `i`. -/
def textsFor (i : Nat) (inserts : List (Nat × Text)) : List Text :=
  (inserts.filter (·.1 = i)).map Prod.snd

theorem textsFor_append (i : Nat) (inserts more : List (Nat × Text)) :
    textsFor i (inserts ++ more) = textsFor i inserts ++ textsFor i more := by
  rw [textsFor, List.filter_append, List.map_append]
  rfl

theorem textsFor_cons (i : Nat) (p : Nat × Text) (inserts : List (Nat × Text)) :
    textsFor i (p :: inserts) = (if p.1 = i then [p.2] else []) ++ textsFor i inserts := by
  rw [textsFor, List.filter_cons]
  simp only [decide_eq_true_eq]
  split <;> rfl

theorem textsFor_eq_nil (h : ∀ p ∈ inserts, p.1 ≠ i) : textsFor i inserts = [] := by
  rw [textsFor, List.filter_eq_nil_iff.2 fun p hp => by simpa using h p hp]
  rfl

/-- Below lines that no text is for nothing is written. -/
theorem withBelow_textsFor_of_lt {k : Nat} (h : ∀ p ∈ inserts, p.1 < k) (lines : List Text) :
    withBelow (fun q => (textsFor q.1 inserts).reverse) (numbered k lines) = lines := by
  rw [withBelow_of_nil, map_snd_numbered]
  intro q hq
  have hle := (mem_numbered.1 hq).1
  rw [textsFor_eq_nil fun p hp => Nat.ne_of_lt (Nat.lt_of_lt_of_le (h p hp) hle), List.reverse_nil]

theorem insertLines_below (above rest : List Text) (line text : Text) (newline : Bool) :
    insertLines (above.length + 1) [text] ⟨above ++ line :: rest, newline⟩ =
      .ok ⟨above ++ line :: text :: rest, newline⟩ := by
  have hpos : above.length + 1 = (above ++ [line]).length := by simp
  have happ : above ++ line :: rest = (above ++ [line]) ++ rest := by simp
  rw [insertLines, Source.insertLines, if_pos (by simp [Source.length]), hpos, happ, List.take_left,
    List.drop_left]
  simp [Except.mapError]

/-- The lowest line is written first, so the lines above are still where they were. Of two texts for
one line the later one gets in between. -/
theorem foldlM_insertLines (hsorted : inserts.Pairwise fun a b => b.1 ≤ a.1)
    (hlines : ∀ p ∈ inserts, p.1 < s.length) :
    inserts.foldlM (fun s p => insertLines (p.1 + 1) [p.2] s) s =
      .ok ⟨withBelow (fun p => (textsFor p.1 inserts).reverse) (numbered 0 s.lines),
        s.trailingNewline⟩ := by
  induction inserts generalizing s with
  | nil =>
    rw [withBelow_textsFor_of_lt (by simp)]
    rfl
  | cons p inserts ih =>
    obtain ⟨i, text⟩ := p
    obtain ⟨hle, htail⟩ := List.pairwise_cons.1 hsorted
    obtain ⟨hi, -⟩ := List.forall_mem_cons.1 hlines
    obtain ⟨above, line, rest, hs, rfl⟩ : ∃ above line rest, s.lines = above ++ line :: rest ∧
        above.length = i := by
      refine ⟨s.lines.take i, s.lines[i], s.lines.drop (i + 1), ?_, ?_⟩
      · rw [← List.drop_eq_getElem_cons hi, List.take_append_drop]
      · exact List.length_take_of_le (Nat.le_of_lt hi)
    obtain ⟨lines, newline⟩ := s
    obtain rfl : lines = above ++ line :: rest := hs
    rw [List.foldlM_cons, insertLines_below]
    refine (ih htail fun q hq => ?_).trans ?_
    · have := hle q hq
      simp only [Source.length, List.length_append, List.length_cons]
      omega
    have habove : withBelow (fun q => (textsFor q.1 inserts).reverse) (numbered 0 above) =
        withBelow (fun q => (textsFor q.1 ((above.length, text) :: inserts)).reverse)
          (numbered 0 above) := by
      refine withBelow_congr fun q hq => ?_
      have hlt := (List.getElem?_eq_some_iff.1 (mem_numbered.1 hq).2).1
      rw [textsFor_cons, if_neg (by omega)]
      rfl
    -- Below the line itself nothing is written any more.
    have hnext : ∀ q ∈ inserts, q.1 < above.length + 1 := fun q hq => Nat.lt_succ_of_le (hle q hq)
    have hall : ∀ q ∈ (above.length, text) :: inserts, q.1 < above.length + 1 :=
      List.forall_mem_cons.2 ⟨Nat.lt_succ_self _, hnext⟩
    have hself : (textsFor above.length ((above.length, text) :: inserts)).reverse =
        (textsFor above.length inserts).reverse ++ [text] := by
      rw [textsFor_cons, if_pos rfl, List.singleton_append, List.reverse_cons]
    rw [numbered_append, numbered_append, Nat.zero_add, withBelow_append, withBelow_append, habove,
      numbered_cons, withBelow_cons, withBelow_textsFor_of_lt hnext, numbered_cons, withBelow_cons,
      withBelow_textsFor_of_lt hall, hself]
    simp

/-- Where no line gets two texts, each gets its own. -/
theorem insertBelow_eq (hlines : ∀ p ∈ inserts, p.1 < s.length)
    (hone : ∀ i < s.length, (textsFor i inserts).length ≤ 1) :
    insertBelow inserts s =
      .ok ⟨withBelow (fun p => textsFor p.1 inserts) (numbered 0 s.lines), s.trailingNewline⟩ := by
  have hperm := List.mergeSort_perm inserts fun a b => decide (b.1 ≤ a.1)
  rw [insertBelow, foldlM_insertLines (pairwise_inserts inserts) fun p hp =>
    hlines p (hperm.mem_iff.1 hp)]
  have hsame : ∀ p ∈ numbered 0 s.lines,
      (textsFor p.1 (inserts.mergeSort fun a b => decide (b.1 ≤ a.1))).reverse =
        textsFor p.1 inserts := by
    intro p hp
    have htexts := (hperm.filter (·.1 = p.1)).map Prod.snd
    have hlength := hone p.1 (List.getElem?_eq_some_iff.1 (mem_numbered.1 hp).2).1
    rw [← textsFor, ← textsFor] at htexts
    rcases hcase : textsFor p.1 inserts with _ | ⟨text, _ | ⟨other, texts⟩⟩ <;>
      rw [hcase] at htexts hlength
    · rw [htexts.eq_nil]
      rfl
    · rw [List.perm_singleton.1 htexts]
      rfl
    · simp only [List.length_cons] at hlength
      omega
  rw [withBelow_congr hsame]

/-! ## Directives for the copy -/

/-- What is written for the copy below a directive about the node. -/
def twinTexts (w id copy : Text) : Statement → List Text
  | .nodeStyle d => if d.target = id then [NodeStyle.render w { d with target := copy }] else []
  | .classUse d => if d.ids.contains id then [ClassUse.render w { d with ids := [copy] }] else []
  | _ => []

theorem length_twinTexts_le (w id copy : Text) (st : Statement) :
    (twinTexts w id copy st).length ≤ 1 := by
  cases st with
  | nodeStyle d =>
    rw [twinTexts]
    split
    exacts [Nat.le_refl 1, Nat.zero_le 1]
  | classUse d =>
    rw [twinTexts]
    split
    exacts [Nat.le_refl 1, Nat.zero_le 1]
  | _ => exact Nat.zero_le 1

/-- What is written says of the copy what the directive says of the node. -/
theorem ofLine_twinTexts {w : Text} (hw : IsBlank w) (hcopy : IsIdent copy) (line : Text) :
    (twinTexts w id copy (Statement.ofLine line)).map Statement.ofLine =
      (Statement.ofLine line).twins id copy := by
  have hreads := Statement.readsFrom_ofLine line
  cases hst : Statement.ofLine line with
  | nodeStyle d =>
    rw [hst] at hreads
    obtain ⟨after, -, -, hproperties⟩ := NodeStyle.ofLine?_eq_some_iff.1 hreads
    rw [twinTexts, Statement.twins, NodeStyle.twins]
    split
    · rw [List.map_singleton, List.map_singleton, hproperties, ofLine_nodeStyle_written hw hcopy]
    · rfl
  | classUse d =>
    rw [hst] at hreads
    obtain ⟨after, -, -, -, hname, -⟩ := ClassUse.ofLine?_eq_some_iff.1 hreads
    rw [twinTexts, Statement.twins, ClassUse.twins]
    split
    · rw [List.map_singleton, List.map_singleton, ofLine_classUse_render hw (List.cons_ne_nil _ _)
        (List.forall_mem_singleton.2 hcopy) hname]
    · rfl
  | _ => rfl

theorem blockStep_of_mem_twinTexts {w : Text} (hw : IsBlank w) (h : text ∈ twinTexts w id copy st) :
    blockStep blockRules text = .stay := by
  cases st with
  | nodeStyle d =>
    rw [twinTexts] at h
    split at h
    · rw [List.mem_singleton.1 h]
      exact (wordThenBlank_nodeStyle hw _).blockStep_eq (by decide)
    · cases h
  | classUse d =>
    rw [twinTexts] at h
    split at h
    · rw [List.mem_singleton.1 h]
      exact (wordThenBlank_classUse hw _).blockStep_eq (by decide)
    · cases h
  | _ => cases h

/-- The directives of one kind on a line. -/
theorem filter_found {α : Type} {get : Statement → Option α} (hst : (i, st) ∈ statements s)
    (q : Nat × α → Bool) : ((found get (statements s)).filter q).filter (·.1 = i) =
      ((get st).toList.map fun a => (i, a)).filter q := by
  rw [List.filter_comm, ← found_filter (· = i), filter_statements hst, found, List.filterMap_cons]
  cases get st <;> rfl

/-- The texts for the copies of some directives, each written with the indentation of its line. -/
theorem exists_mapM_lineAt {α : Type} (f : Text → α → Text) {ds : List (Nat × α)}
    (hds : ∀ p ∈ ds, p.1 < s.length) :
    ∃ out, (ds.mapM fun p => do
        let line ← lineAt p.1 s
        return (p.1, f line p.2)) = .ok out ∧ (∀ q ∈ out, ∃ p ∈ ds, p.1 = q.1) ∧
      ∀ i line, s.lines[i]? = some line →
        textsFor i out = (ds.filter (·.1 = i)).map fun p => f line p.2 := by
  induction ds with
  | nil => exact ⟨[], rfl, fun _ hq => absurd hq List.not_mem_nil, fun _ _ _ => rfl⟩
  | cons p ds ih =>
    obtain ⟨hp, hds⟩ := List.forall_mem_cons.1 hds
    obtain ⟨out, hout, hkeys, htexts⟩ := ih hds
    have hline : s.lines[p.1]? = some s.lines[p.1] := List.getElem?_eq_getElem hp
    have hread : lineAt p.1 s = .ok s.lines[p.1] := by
      rw [lineAt, Source.line?, hline]
    refine ⟨(p.1, f s.lines[p.1] p.2) :: out, ?_, ?_, fun i line hi => ?_⟩
    · rw [List.mapM_cons, hread, hout]
      rfl
    · refine List.forall_mem_cons.2 ⟨⟨p, List.mem_cons_self, rfl⟩, fun q hq => ?_⟩
      obtain ⟨d, hd, heq⟩ := hkeys q hq
      exact ⟨d, List.mem_cons_of_mem p hd, heq⟩
    · rw [textsFor_cons, htexts i line hi, List.filter_cons]
      by_cases heq : p.1 = i
      · subst heq
        rw [hline] at hi
        cases hi
        simp
      · simp [heq]

/-! ## The line of the copy -/

/-- The class behind the first mention of the node on the line. -/
theorem classSuffixOn_eq (hn : n ∈ (View.ofSource s).nodes) (hst : (i, st) ∈ statements s)
    (hline : s.lines[i]? = some line) : classSuffixOn i line n =
      (st.tokens.find? (·.id = n.id)).bind (·.classSuffix) := by
  obtain ⟨line', hline', rfl⟩ := exists_line_of_mem_statements hst
  obtain rfl : line' = line := Option.some.inj (hline'.symm.trans hline)
  -- The mentions of the node on the line are the tokens for it, in the order in which they stand there.
  have hmentions : n.mentions.filter (·.line = i) =
      (((Statement.ofLine line').mentions i).filter (·.2.id = n.id)).map Prod.fst := by
    have hfilter := View.mentions_filter (· = i) (statements s)
    rw [filter_statements hst, View.mentions, List.flatMap_singleton] at hfilter
    rw [View.mentions_eq hn, View.mentionsOf, List.filter_map, List.filter_filter, hfilter,
      List.filter_filter]
    congr 2
    funext p
    exact Bool.and_comm ..
  have hscan : ∀ p ∈ ((Statement.ofLine line').mentions i).filter (·.2.id = n.id),
      (NodeToken.scan? (line'.drop p.1.start)).map Prod.fst = some p.2 := by
    intro p hp
    obtain ⟨a, rest, hsplit, -, hstart, hscan⟩ :=
      Statement.exists_scan?_of_mem_mentions (m := p.1) (t := p.2) (List.mem_filter.1 hp).1
    rw [hstart, hsplit, List.drop_left, hscan]
    rfl
  rw [classSuffixOn, hmentions, ← Statement.map_snd_mentions i, List.find?_map, ← List.head?_filter]
  simp only [Function.comp_def]
  generalize ((Statement.ofLine line').mentions i).filter (·.2.id = n.id) = ms at hscan
  cases ms with
  | nil => rfl
  | cons p ms =>
    rw [List.map_cons, List.findSome?_cons, hscan p List.mem_cons_self]
    rfl

/-- The definition that a copy of the node is written with. -/
def copiedDefinition (n : NodeRecord) : NodeDefinition :=
  n.definition.getD (.classic .rect n.label)

/-- It is read back: it was read before, or its label is an id. -/
theorem readsBack_copiedDefinition (hn : n ∈ (View.ofSource s).nodes) :
    (copiedDefinition n).ReadsBack := by
  obtain ⟨hident, hscanned⟩ := areScanned_nodes s n hn
  rw [copiedDefinition]
  cases hd : n.definition with
  | some d =>
    obtain ⟨u, token, rest, hscan, hdef⟩ := hscanned d hd
    exact NodeDefinition.readsBack_of_scan? hscan hdef
  | none =>
    exact (NodeDefinition.isFaithful_classic (unquote_quote (not_infix_label hn)) .rect).readsBack

/-- What a copy of the node stands for on a line of its own: the definition, and the class behind the
first mention in the statement. -/
def copiedToken (n : NodeRecord) (copy : Text) (st : Statement) : NodeToken :=
  .written copy (copiedDefinition n) ((st.tokens.find? (·.id = n.id)).bind (·.classSuffix))

theorem ofLine_copy (hn : n ∈ (View.ofSource s).nodes) (hst : (i, st) ∈ statements s)
    (hline : s.lines[i]? = some line) (hcopy : IsIdent copy) :
    Statement.ofLine (indent line ++ withClass ((copiedDefinition n).render copy)
      (classSuffixOn i line n)) = .node ⟨indent line, copiedToken n copy st, []⟩ := by
  have hsuffix : ∀ name ∈ (st.tokens.find? (·.id = n.id)).bind (·.classSuffix),
      IsClassName name := by
    intro name hname
    obtain ⟨t, ht, htname⟩ := Option.bind_eq_some_iff.1 hname
    obtain ⟨_, -, rfl⟩ := exists_line_of_mem_statements hst
    obtain ⟨u, rest, hscan⟩ := exists_scan?_of_mem_tokens (List.mem_of_find?_eq_some ht)
    exact isClassName_of_scan? hscan htname
  rw [withClass_eq, classSuffixOn_eq hn hst hline]
  exact Statement.ofLine_of_node (NodeLine.ofLine?_render (readsBack_copiedDefinition hn)
    (isBlank_indent line) hcopy hsuffix)

/-! ## All lines -/

/-- What is written below a line of the body: the text of the copy below the line `anchor`, and below a
directive about the node the same directive about the copy. -/
def copiesBelow (anchor : Nat) (text id copy : Text) (p : Nat × Text) : List Text :=
  (if anchor = p.1 then [text] else []) ++ twinTexts (indent p.2) id copy (Statement.ofLine p.2)

theorem length_copiesBelow_le (hanchor : (anchor, st) ∈ statements s) (hst : ¬st.IsDirective)
    {p : Nat × Text} (hp : p ∈ s.body .flowchart) (text id copy : Text) :
    (copiesBelow anchor text id copy p).length ≤ 1 := by
  rw [copiesBelow]
  by_cases h : anchor = p.1
  · have heq : st = Statement.ofLine p.2 :=
      eq_of_mem_statements hanchor (mem_statements.2 ⟨p.2, h ▸ hp, rfl⟩)
    rw [if_pos h, ← heq]
    cases st <;> first | exact absurd trivial hst | exact Nat.le_refl _
  · rw [if_neg h, List.nil_append]
    exact length_twinTexts_le ..

/-- The lines that the copies are written below, in the order in which they are put together. -/
theorem textsFor_inserts {styles classes : List (Nat × Text)}
    (hstyles : ∀ i line, s.lines[i]? = some line → textsFor i styles =
      (((View.ofSource s).styles.filter (·.2.target = id)).filter (·.1 = i)).map fun p =>
        NodeStyle.render (indent line) { p.2 with target := copy })
    (hclasses : ∀ i line, s.lines[i]? = some line → textsFor i classes =
      (((View.ofSource s).classes.filter (·.2.ids.contains id)).filter (·.1 = i)).map fun p =>
        ClassUse.render (indent line) { p.2 with ids := [copy] })
    {p : Nat × Text} (hp : p ∈ s.body .flowchart) :
    textsFor p.1 ((anchor, text) :: styles ++ classes) = copiesBelow anchor text id copy p := by
  have hline : s.lines[p.1]? = some p.2 := by
    rw [body_eq_numbered] at hp
    obtain ⟨hle, hp⟩ := mem_numbered.1 hp
    rwa [List.getElem?_drop, Nat.add_sub_cancel' hle] at hp
  have hst : (p.1, Statement.ofLine p.2) ∈ statements s := mem_statements.2 ⟨p.2, hp, rfl⟩
  rw [List.cons_append, textsFor_cons, textsFor_append, hstyles p.1 p.2 hline, hclasses p.1 p.2 hline,
    View.styles_ofSource, View.classes_ofSource, filter_found hst, filter_found hst, copiesBelow]
  congr 1
  cases Statement.ofLine p.2 with
  | nodeStyle d => by_cases h : d.target = id <;> simp [twinTexts, Statement.nodeStyle?, Statement.classUse?, h]
  | classUse d => by_cases h : id ∈ d.ids <;> simp [twinTexts, Statement.nodeStyle?, Statement.classUse?, h]
  | _ => rfl

/-- A statement stands on a line of the body. -/
theorem inBody_of_mem_statements (h : (i, st) ∈ statements s) :
    s.bodyIndex .flowchart ≤ i ∧ i < s.length := by
  obtain ⟨text, hmem, -⟩ := mem_statements.1 h
  exact exists_mem_body_iff.1 ⟨text, hmem⟩

theorem inBody_of_mem_found {α : Type} {get : Statement → Option α} {p : Nat × α}
    (hp : p ∈ found get (statements s)) : s.bodyIndex .flowchart ≤ p.1 ∧ p.1 < s.length := by
  obtain ⟨st, hst, -⟩ := mem_found.1 (show (p.1, p.2) ∈ _ from hp)
  exact inBody_of_mem_statements hst

/-- Texts for lines of the body, no two for the same, are written below these lines. -/
theorem insertBelow_body {below : Nat × Text → List Text}
    (hlines : ∀ p ∈ inserts, s.bodyIndex .flowchart ≤ p.1 ∧ p.1 < s.length)
    (hbelow : ∀ p ∈ s.body .flowchart, textsFor p.1 inserts = below p)
    (hone : ∀ p ∈ s.body .flowchart, (below p).length ≤ 1) :
    insertBelow inserts s = .ok ⟨s.lines.take (s.bodyIndex .flowchart) ++
      withBelow below (s.body .flowchart), s.trailingNewline⟩ := by
  -- The numbers count all lines of the source, and none of the texts is for a line above the body.
  have habove : ∀ i < s.bodyIndex .flowchart, textsFor i inserts = [] := fun i hi =>
    textsFor_eq_nil fun p hp => Nat.ne_of_gt (Nat.lt_of_lt_of_le hi (hlines p hp).1)
  have hnumbered : numbered 0 s.lines =
      numbered 0 (s.lines.take (s.bodyIndex .flowchart)) ++ s.body .flowchart := by
    conv_lhs => rw [← List.take_append_drop (s.bodyIndex .flowchart) s.lines]
    rw [numbered_append, List.length_take_of_le (bodyIndex_le .flowchart s), Nat.zero_add,
      body_eq_numbered]
  rw [insertBelow_eq (fun p hp => (hlines p hp).2) fun i hi => ?_, hnumbered, withBelow_append,
    withBelow_congr hbelow, withBelow_of_nil fun p hp => ?_, map_snd_numbered]
  · have hlt := (List.getElem?_eq_some_iff.1 (mem_numbered.1 hp).2).1
    rw [List.length_take_of_le (bodyIndex_le .flowchart s)] at hlt
    exact habove p.1 hlt
  · rcases Nat.lt_or_ge i (s.bodyIndex .flowchart) with hlt | hge
    · rw [habove i hlt]
      exact Nat.zero_le 1
    · obtain ⟨text, htext⟩ := exists_mem_body_iff.2 ⟨hge, hi⟩
      rw [hbelow _ htext]
      exact hone _ htext

/-- Every line of the body gets the copies that are to stand below it. -/
theorem duplicateNode_eq (hn : n ∈ (View.ofSource s).nodes) (hat : n.anchorLine? = some anchor)
    (hanchor : (anchor, st) ∈ statements s) (hst : ¬st.IsDirective)
    (hline : s.lines[anchor]? = some line) (hcopy : copy = Fresh.suffixed n.id (View.ofSource s).ids)
    (htext : text = indent line ++ withClass ((copiedDefinition n).render copy)
      (classSuffixOn anchor line n)) :
    duplicateNode n.id s = .ok ⟨⟨s.lines.take (s.bodyIndex .flowchart) ++
      withBelow (copiesBelow anchor text n.id copy) (s.body .flowchart), s.trailingNewline⟩,
      some (.node copy)⟩ := by
  have hstyled : ∀ p ∈ (View.ofSource s).styles.filter (·.2.target = n.id),
      s.bodyIndex .flowchart ≤ p.1 ∧ p.1 < s.length := fun p hp =>
    inBody_of_mem_found (View.styles_ofSource s ▸ (List.mem_filter.1 hp).1)
  have hclassed : ∀ p ∈ (View.ofSource s).classes.filter (·.2.ids.contains n.id),
      s.bodyIndex .flowchart ≤ p.1 ∧ p.1 < s.length := fun p hp =>
    inBody_of_mem_found (View.classes_ofSource s ▸ (List.mem_filter.1 hp).1)
  obtain ⟨styles, hstyles, hstyleLines, hstyleTexts⟩ := exists_mapM_lineAt
    (fun line d => NodeStyle.render (indent line) { d with target := copy })
    fun p hp => (hstyled p hp).2
  obtain ⟨classes, hclasses, hclassLines, hclassTexts⟩ := exists_mapM_lineAt
    (fun line d => ClassUse.render (indent line) { d with ids := [copy] })
    fun p hp => (hclassed p hp).2
  have hstyles : copiedStyles n.id copy (View.ofSource s) s = .ok styles := hstyles
  have hclasses : copiedClasses n.id copy (View.ofSource s) s = .ok classes := hclasses
  have hlines : ∀ p ∈ (anchor, text) :: styles ++ classes,
      s.bodyIndex .flowchart ≤ p.1 ∧ p.1 < s.length := by
    refine List.forall_mem_append.2 ⟨List.forall_mem_cons.2 ⟨?_, fun p hp => ?_⟩, fun p hp => ?_⟩
    · exact inBody_of_mem_statements hanchor
    · obtain ⟨q, hq, heq⟩ := hstyleLines p hp
      exact heq ▸ hstyled q hq
    · obtain ⟨q, hq, heq⟩ := hclassLines p hp
      exact heq ▸ hclassed q hq
  have hinsert := insertBelow_body hlines
    (fun p hp => textsFor_inserts hstyleTexts hclassTexts hp)
    fun p hp => length_copiesBelow_le hanchor hst hp text n.id copy
  have hread : lineAt anchor s = .ok line := by
    rw [lineAt, Source.line?, hline]
  have hrequire : requireNode (View.ofSource s) n.id = .ok n := by
    rw [requireNode, View.node?_eq_some_iff.2 ⟨hn, rfl⟩]
  subst hcopy htext
  rw [duplicateNode]
  simp only [hrequire, hat, hread, bind, Except.bind, hstyles, hclasses]
  exact congrArg (Except.map _) hinsert

/-! ## The twin -/

section Copied

variable {above below : List (Nat × Statement)} {t : NodeLine} {token : NodeToken}
  (ht : Statement.ofLine text = .node t)
  (hlines : s'.lines = s.lines.take (s.bodyIndex .flowchart) ++
    withBelow (copiesBelow anchor text id copy) (s.body .flowchart))

include ht hlines

omit ht in
theorem sublist_copies : s.lines.Sublist s'.lines := by
  have hbody := sublist_withBelow (copiesBelow anchor text id copy) (s.body .flowchart)
  rw [hlines]
  conv_lhs => rw [← List.take_append_drop (s.bodyIndex .flowchart) s.lines]
  rw [body_eq_numbered, map_snd_numbered, ← body_eq_numbered] at hbody
  exact hbody.append_left _

/-- The lines of the copies leave the blocks as they are. -/
theorem checkBalance_copies (hbalance : s.checkBalance blockRules = .ok ()) :
    s'.checkBalance blockRules = .ok () := by
  have hread := Statement.readsFrom_ofLine text
  rw [ht] at hread
  have hstay : ∀ p ∈ s.body .flowchart, ∀ line ∈ copiesBelow anchor text id copy p,
      blockStep blockRules line = .stay := by
    intro p _ line hline
    rcases List.mem_append.1 hline with hline | hline
    · split at hline
      · rw [List.mem_singleton.1 hline]
        exact (beginsWithNode_of_node hread).blockStep_eq
      · cases hline
    · exact blockStep_of_mem_twinTexts (isBlank_indent p.2) hline
  have hold : s.lines.take (s.bodyIndex .flowchart) ++ (s.body .flowchart).map Prod.snd = s.lines := by
    rw [body_eq_numbered, map_snd_numbered, List.take_append_drop]
  rw [checkBalance_eq_ok_iff, hlines, depthAfter?_append]
  simp only [depthAfter?_withBelow hstay]
  rwa [← depthAfter?_append, hold, ← checkBalance_eq_ok_iff]

/-- The statements are those of before, and the node and the directives about it have their twins. -/
theorem isTwinned_copies {declaration : Text} (h : IsDeclared .flowchart front declaration body s)
    (hcopy : IsIdent copy) (hid : t.token.id = copy) (hfresh : copy ∉ (View.ofSource s).ids)
    (hsts : statements s = above ++ (anchor, st) :: below) (htoken : token ∈ st.tokens) :
    IsTwinned id t (above.map Prod.snd ++ [st]) (below.map Prod.snd) s s' := by
  have hindex : s.bodyIndex .flowchart = front.length + 1 := by
    rw [bodyIndex, h.declarationOf?]
    rfl
  have htake : s.lines.take (front.length + 1) = front ++ [declaration] := by
    rw [h.lines, ← List.singleton_append, ← List.append_assoc]
    exact List.take_left' (by simp)
  have hdecl : IsDeclared .flowchart front declaration
      (withBelow (copiesBelow anchor text id copy) (s.body .flowchart)) s' := by
    refine h.with_body ?_
    rw [hlines, hindex, htake, List.append_assoc]
    rfl
  have hread : (statements s').map Prod.snd = (statements s).flatMap fun q =>
      q.2 :: ((if anchor = q.1 then [.node t] else []) ++ q.2.twins id copy) := by
    rw [map_snd_statements hdecl, map_withBelow, statements, List.flatMap_map]
    refine List.flatMap_congr fun p _ => ?_
    rw [copiesBelow, List.map_append, ofLine_twinTexts (isBlank_indent p.2) hcopy]
    split
    · rw [List.map_singleton, ht]
    · rfl
  have hsorted := View.pairwise_statements s
  rw [hsts] at hsorted
  obtain ⟨-, hbelow, habove⟩ := List.pairwise_append.1 hsorted
  have htwin : st.twins id copy = [] :=
    Statement.twins_of_not_isDirective (Statement.stay_of_mem_tokens htoken).2
  -- Away from the line that carries the node, there are directives only.
  have htwins : ∀ sts : List (Nat × Statement), (∀ q ∈ sts, anchor ≠ q.1) →
      (sts.flatMap fun q => q.2 :: ((if anchor = q.1 then [Statement.node t] else []) ++
        q.2.twins id copy)) = twinned id copy (sts.map Prod.snd) := by
    intro sts hne
    rw [twinned, List.flatMap_map]
    refine List.flatMap_congr fun q hq => ?_
    rw [if_neg (hne q hq)]
    rfl
  refine ⟨hid ▸ hfresh, by simp [hsts], ?_⟩
  rw [hread, hsts, List.flatMap_append, List.flatMap_cons, if_pos rfl, hid,
    htwins above fun q hq => Nat.ne_of_gt (habove q hq _ List.mem_cons_self),
    htwins below fun q hq => Nat.ne_of_lt ((List.pairwise_cons.1 hbelow).1 q hq), twinned_append,
    htwin, show twinned id copy [st] = [st] by rw [twinned, List.flatMap_singleton, htwin]]
  simp

end Copied

/-- The id of the innermost subgraph that is open above the line: mentions on the line are in it. -/
def containerAt (i : Nat) (s : Source) : Option Text :=
  ((Reader.start s).readAll ((statements s).filter (·.1 < i))).container?

theorem containerAt_eq {above below : List (Nat × Statement)}
    (hsts : statements s = above ++ (i, st) :: below) :
    containerAt i s = (openAfter [] (above.map Prod.snd)).head? := by
  have hsorted := View.pairwise_statements s
  rw [hsts] at hsorted
  obtain ⟨-, hbelow, habove⟩ := List.pairwise_append.1 hsorted
  have hself : above.filter (·.1 < i) = above := List.filter_eq_self.2 fun p hp =>
    decide_eq_true (habove p hp _ List.mem_cons_self)
  have hnil : below.filter (·.1 < i) = [] := List.filter_eq_nil_iff.2 fun p hp => by
    simpa using Nat.le_of_lt ((List.pairwise_cons.1 hbelow).1 p hp)
  rw [containerAt, hsts, List.filter_append, List.filter_cons_of_neg (by simp), hself, hnil,
    List.append_nil]
  exact ((Reader.hasOpen_start s).readAll above).container?

/-- The source `s'` is `s` with a copy of the node `n` under the id `copy`, and of the directives about
it. -/
structure IsDuplicated (n : NodeRecord) (copy : Text) (s s' : Source) : Prop where
  /-- Below the line that carries the text of the node stands a line that says what the copy is: it has
  the definition of the node, or else is a rectangle with its label, and the class behind the first
  mention on that line. Below each directive about the node stands the one about the copy, and there
  are no other new lines. -/
  lines : ∃ anchor st token text w, n.anchorLine? = some anchor ∧ (anchor, st) ∈ statements s ∧
    st.tokens.find? (·.id = n.id) = some token ∧
    Statement.ofLine text = .node
      ⟨w, .written copy (n.definition.getD (.classic .rect n.label)) token.classSuffix, []⟩ ∧
    s'.lines = s.lines.take (s.bodyIndex .flowchart) ++
      withBelow (copiesBelow anchor text n.id copy) (s.body .flowchart)
  kept : s.lines.Sublist s'.lines
  trailingNewline : s'.trailingNewline = s.trailingNewline
  nodes : ((View.ofSource s').nodes.map (·.id)).Perm (copy :: (View.ofSource s).nodes.map (·.id))
  others : ∀ x, x ≠ copy →
    ((View.ofSource s').node? x).map (fun n => (n.definition, n.subgraph)) =
      ((View.ofSource s).node? x).map fun n => (n.definition, n.subgraph)
  twin : ∃ n' anchor, (View.ofSource s').node? copy = some n' ∧ n.anchorLine? = some anchor ∧
    n'.definition = some (n.definition.getD (.classic .rect n.label)) ∧
    n'.subgraph = containerAt anchor s
  links : (View.ofSource s').links.map (fun r => (r.index, r.link)) =
    (View.ofSource s).links.map fun r => (r.index, r.link)
  subgraphs : (View.ofSource s').subgraphIds = (View.ofSource s).subgraphIds
  members : ∀ name x, x ≠ copy →
    ((View.ofSource s').IsMember name x ↔ (View.ofSource s).IsMember name x)
  styles : (View.ofSource s').styles.map Prod.snd =
    ((View.ofSource s).styles.map Prod.snd).flatMap fun d => d :: d.twins n.id copy
  /-- The copy of a style directive is read with the same properties, if no value ends in a
  semicolon. -/
  sameProperties : ∀ p ∈ (View.ofSource s).styles, p.2.target = n.id →
    (∀ q ∈ p.2.properties, q.2.getLast? ≠ some ';') →
      p.2.twins n.id copy = [⟨copy, p.2.properties⟩]
  classes : (View.ofSource s').classes.map Prod.snd =
    ((View.ofSource s).classes.map Prod.snd).flatMap fun d => d :: d.twins n.id copy
  linkStyles : (View.ofSource s').linkStyles.map Prod.snd = (View.ofSource s).linkStyles.map Prod.snd
  classDefs : (View.ofSource s').classDefs.map Prod.snd = (View.ofSource s).classDefs.map Prod.snd

/-- Properties that are read from a line are read back as they are written, semicolons at the end
apart. -/
theorem twins_of_mem_styles {p : Nat × NodeStyle} (hp : p ∈ (View.ofSource s).styles)
    (htarget : p.2.target = id) (hsemicolon : ∀ q ∈ p.2.properties, q.2.getLast? ≠ some ';') :
    p.2.twins id copy = [⟨copy, p.2.properties⟩] := by
  obtain ⟨text, hread⟩ := exists_read_of_mem_found (View.styles_ofSource s ▸ hp)
  obtain ⟨after, -, -, hproperties⟩ := NodeStyle.ofLine?_eq_some_iff.1 (nodeStyle?_ofLine hread)
  rw [NodeStyle.twins, if_pos htarget]
  rw [hproperties] at hsemicolon ⊢
  rw [Properties.ofText_toText hsemicolon]

/-- A node is mentioned on the line that carries its text. -/
theorem exists_anchorLine? (hn : n ∈ (View.ofSource s).nodes) : ∃ anchor st token,
    n.anchorLine? = some anchor ∧ (anchor, st) ∈ statements s ∧
      st.tokens.find? (·.id = n.id) = some token := by
  have hsome : n.anchorLine?.isSome := by
    obtain ⟨m, hm⟩ := exists_mem_chosenMentions hn
    have hne : n.mentions ≠ [] := List.ne_nil_of_mem ((chosenMentions_sublist n).subset hm)
    obtain ⟨first, rest, hmentions⟩ := List.exists_cons_of_ne_nil hne
    simp [NodeRecord.anchorLine?, hmentions]
  obtain ⟨anchor, hanchor⟩ := Option.isSome_iff_exists.1 hsome
  obtain ⟨st, hst, hid⟩ := (View.exists_mention_iff hn).1 (exists_mention_of_anchorLine? hn hanchor)
  obtain ⟨t, ht, hid⟩ := List.mem_map.1 hid
  have hfind : (st.tokens.find? (·.id = n.id)).isSome := List.find?_isSome.2 ⟨t, ht, by simpa using hid⟩
  obtain ⟨token, htoken⟩ := Option.isSome_iff_exists.1 hfind
  exact ⟨anchor, st, token, hanchor, hst, htoken⟩

end DiagramEditor.Edit.Flowchart
