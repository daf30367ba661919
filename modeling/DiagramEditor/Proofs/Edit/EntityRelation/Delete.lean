import DiagramEditor.Proofs.Edit.EntityRelation.Local
import DiagramEditor.Proofs.EntityRelation.Omission

/-!
# What the deletion of an entity leaves

A deletion looks for the lines that declare the entity and passes over those that it takes to be
inside of a block. Where it is right about them (`FindsDeclarations`), the lines that go are those
about the entity (`mem_deletedLines_iff`), so the view of the source that is left is the old one
without the entity (`Document.applyBatch_isWithout`).

It is wrong where an entity is declared on a line of its own and further down as a block: a
declaration between the two seems to be inside of the block and stays
(`Document.not_applyBatch_isWithout`).
-/

namespace DiagramEditor

open Text Source EntityRelation

namespace Edit.EntityRelation

variable {s : Source} {name text line : Text} {inside : Option Text} {i j : Nat}
  {header : EntityHeader} {form : EntityForm} {edited : Edited}

/-! ## The lines that are deleted -/

/-- The lines that go with an entity. -/
def deletedLines (name : Text) (s : Source) : List Nat :=
  linesDeclaring name (View.ofSource s) s ++ ((View.ofSource s).relationships.filter fun r =>
    r.relationship.entity1 = name || r.relationship.entity2 = name).map (·.line)

theorem deleteEntity_eq_ok (h : deleteEntity name s = .ok edited) :
    edited.source = s.deleteLineSet (deletedLines name s) := by
  obtain ⟨e, -, h⟩ := bind_eq_ok.1 h
  cases h
  rfl

theorem mem_linesDeclaring_iff : i ∈ linesDeclaring name (View.ofSource s) s ↔
    ∃ j line header, (j, line) ∈ s.body .er ∧ isInsideBlock (View.ofSource s) j = false ∧
      EntityHeader.ofLine? line = some header ∧ header.name = name ∧
        i ∈ declarationLines s j header.form := by
  rw [linesDeclaring, List.mem_flatMap]
  constructor
  · rintro ⟨⟨j, line⟩, hmem, hi⟩
    dsimp only at hi
    split at hi
    · cases hi
    · next hinside =>
      split at hi
      · next header hread =>
        split at hi
        · next hname => exact ⟨j, line, header, hmem, by simpa using hinside, hread, hname, hi⟩
        · cases hi
      · cases hi
  · rintro ⟨j, line, header, hmem, hinside, hread, hname, hi⟩
    refine ⟨(j, line), hmem, ?_⟩
    simp only [hinside, hread, hname, Bool.false_eq_true, if_false, if_true]
    exact hi

/-- A line belongs to its own declaration. -/
theorem self_mem_declarationLines (s : Source) (i : Nat) (form : EntityForm) :
    i ∈ declarationLines s i form := by
  rw [declarationLines.eq_def]
  split
  · split
    · next span hspan =>
      refine List.mem_map.2 ⟨0, List.mem_range.2 (by rw [BlockSpan.length]; omega), ?_⟩
      rw [start_of_blockAt? hspan, Nat.add_zero]
    · exact List.mem_singleton_self i
  · exact List.mem_singleton_self i

theorem declarationLines_of_ne (h : form ≠ .blockOpen) : declarationLines s i form = [i] := by
  rw [declarationLines.eq_def]
  split
  · contradiction
  · rfl

theorem mem_declarationLines_of_blockAt? {stop : Nat} (hj : j < stop)
    (h : s.blockAt? blockRules j = some ⟨j, stop⟩) :
    i ∈ declarationLines s j .blockOpen ↔ j ≤ i ∧ i ≤ stop := by
  rw [declarationLines, h, List.mem_map]
  simp only [List.mem_range, BlockSpan.length]
  constructor
  · rintro ⟨k, hk, rfl⟩
    omega
  · rintro ⟨hji, hi⟩
    exact ⟨i - j, by omega, by omega⟩

/-! ## Blocks -/

/-- The deletion is right about the lines that read as headers of the entity: it takes those to be
inside of a block that are. And no line inside of a block of the entity opens another block. -/
structure FindsDeclarations (name : Text) (s : Source) : Prop where
  header : ∀ q ∈ places s, q.2.2 ≠ some name →
    (EntityHeader.ofLine? q.2.1).map (·.name) = some name →
      isInsideBlock (View.ofSource s) q.1 = q.2.2.isSome
  inner : ∀ q ∈ places s, q.2.2 = some name → isBlockOpen (trim q.2.1) = false

/-- Where all blocks are closed, the block that a header opens goes up to a line that closes it. -/
theorem exists_closer_of_header (hbalanced : s.checkBalance blockRules = .ok ())
    (hplace : (j, line, none) ∈ places s) (hread : EntityHeader.ofLine? line = some header)
    (hform : header.form = .blockOpen) :
    ∃ inner closer after, s.lines.drop (j + 1) = inner ++ closer :: after ∧
      (∀ text ∈ inner, isBlockClose (trim text) = false) ∧ isBlockClose (trim closer) = true ∧
      (∀ m, m ≤ inner.length → insideAt s (j + 1 + m) = some header.name) ∧
      insideAt s (j + 1 + inner.length + 1) = none := by
  obtain ⟨hstart, hline, -⟩ := mem_places_iff.1 hplace
  have hlt := (List.getElem?_eq_some_iff.1 hline).1
  have hopen : insideAt s (j + 1) = some header.name := by
    rw [insideAt_succ hplace, Effect.ofLine_none_eq_header_iff.2 hread, Effect.next, if_pos hform]
  -- The block is open behind the header and closed at the end of the source.
  have hend := insideAt_length hbalanced
  rw [insideAt_eq (Nat.le_succ_of_le hstart) hlt, hopen, List.take_length] at hend
  obtain ⟨inner, closer, after, hsplit, hnot, hcloser⟩ := exists_close_of_insideAfter hend
  have hinside : ∀ m, m ≤ inner.length → insideAt s (j + 1 + m) = some header.name := by
    intro m hm
    rw [insideAt_eq (Nat.le_succ_of_le hstart) (Nat.le_add_right _ _), hopen, List.drop_take,
      Nat.add_sub_cancel_left, hsplit, List.take_append_of_le_length hm]
    exact (Stretch.of_forall_not_isBlockClose
      (fun text htext => hnot text (List.mem_of_mem_take htext)) header.name).insideAfter
  refine ⟨inner, closer, after, hsplit, hnot, hcloser, hinside, ?_⟩
  have hcloserAt : s.lines[j + 1 + inner.length]? = some closer := by
    rw [← List.getElem?_drop, hsplit]
    simp
  rw [insideAt_succ (mem_places_iff.2 ⟨by omega, hcloserAt, hinside _ (Nat.le_refl _)⟩),
    Effect.ofLine_of_isBlockClose hcloser]
  rfl

/-- The block of an entity ends where its view closes it, if nothing else is opened in it. -/
theorem exists_blockAt? (hbalanced : s.checkBalance blockRules = .ok ())
    (hinner : ∀ q ∈ places s, q.2.2 = some name → isBlockOpen (trim q.2.1) = false)
    (hplace : (j, line, none) ∈ places s) (hread : EntityHeader.ofLine? line = some header)
    (hname : header.name = name) (hform : header.form = .blockOpen) :
    ∃ stop, j < stop ∧ s.blockAt? blockRules j = some ⟨j, stop⟩ ∧
      (∀ k, j < k → k ≤ stop → insideAt s k = some name) ∧ insideAt s (stop + 1) = none := by
  obtain ⟨inner, closer, after, hsplit, hnot, hcloser, hinside, hend⟩ :=
    exists_closer_of_header hbalanced hplace hread hform
  rw [hname] at hinside
  obtain ⟨hstart, hline, -⟩ := mem_places_iff.1 hplace
  have hstay : ∀ text ∈ inner, blockStep blockRules text = .stay := by
    intro text htext
    obtain ⟨m, hm, rfl⟩ := List.getElem_of_mem htext
    refine blockStep_eq_stay (hinner (j + 1 + m, inner[m], some name) ?_ rfl) (hnot _ htext)
    refine mem_places_iff.2 ⟨by omega, ?_, hinside m hm.le⟩
    rw [← List.getElem?_drop, hsplit, List.getElem?_append_left hm, List.getElem?_eq_getElem hm]
  have hdrop : s.lines.drop j = line :: (inner ++ closer :: after) := by
    obtain ⟨hlt, hget⟩ := List.getElem?_eq_some_iff.1 hline
    rw [List.drop_eq_getElem_cons hlt, hsplit, hget]
  refine ⟨j + 1 + inner.length, by omega, ?_, fun k hk hk' => ?_, hend⟩
  · exact blockAt?_eq hdrop (EntityHeader.isBlockOpen_of_form hread hform) hstay
      (blockStep_of_isBlockClose hcloser)
  · have := hinside (k - (j + 1)) (by omega)
    rwa [Nat.add_sub_cancel' hk] at this

/-- What is deleted as a declaration is about the entity. -/
theorem isAbout_of_mem_linesDeclaring (hbalanced : s.checkBalance blockRules = .ok ())
    (hfinds : FindsDeclarations name s) (hplace : (i, line, inside) ∈ places s)
    (hi : i ∈ linesDeclaring name (View.ofSource s) s) : IsAbout name inside line := by
  obtain ⟨-, hline, rfl⟩ := mem_places_iff.1 hplace
  obtain ⟨j, headerLine, header, hbody, hseen, hread, hname, hi⟩ := mem_linesDeclaring_iff.1 hi
  have hj := mem_places_of_mem_body hbody
  by_cases hblock : insideAt s j = some name
  · -- Inside of the block there is nothing but the line itself to delete.
    have hform : header.form ≠ .blockOpen := by
      intro hform
      have := hfinds.inner _ hj hblock
      rw [EntityHeader.isBlockOpen_of_form hread hform] at this
      cases this
    rw [declarationLines_of_ne hform, List.mem_singleton] at hi
    rw [hi]
    exact .inl hblock
  · have hnone : insideAt s j = none := by
      have := hfinds.header _ hj hblock (by rw [hread]; exact congrArg some hname)
      rw [hseen] at this
      exact Option.not_isSome_iff_eq_none.1 (by simp [← this])
    rw [hnone] at hj
    by_cases hij : i = j
    · subst hij
      obtain rfl := Option.some.inj (hline.symm.trans (mem_places_iff.1 hj).2.1)
      rw [hnone, IsAbout, Effect.ofLine_none_eq_header_iff.2 hread]
      exact .inr (List.mem_singleton.2 hname.symm)
    · have hform : header.form = .blockOpen := by
        by_contra hform
        rw [declarationLines_of_ne hform, List.mem_singleton] at hi
        exact hij hi
      obtain ⟨stop, hlt, hblockAt, hinside, -⟩ :=
        exists_blockAt? hbalanced hfinds.inner hj hread hname hform
      rw [hform, mem_declarationLines_of_blockAt? hlt hblockAt] at hi
      exact .inl (hinside i (by omega) hi.2)

/-- What a header of the entity takes up is deleted. -/
theorem mem_linesDeclaring_of_header (hfinds : FindsDeclarations name s)
    (hplace : (j, line, none) ∈ places s) (hread : EntityHeader.ofLine? line = some header)
    (hname : header.name = name) (hi : i ∈ declarationLines s j header.form) :
    i ∈ linesDeclaring name (View.ofSource s) s := by
  have hseen := hfinds.header _ hplace nofun (by rw [hread]; exact congrArg some hname)
  exact mem_linesDeclaring_iff.2
    ⟨j, line, header, Reader.mem_of_mem_places hplace, hseen, hread, hname, hi⟩

/-- A line in a block of the entity goes with the block. -/
theorem mem_linesDeclaring_of_insideAt (hbalanced : s.checkBalance blockRules = .ok ())
    (hfinds : FindsDeclarations name s) (hstart : bodyStart s ≤ i) (hlength : i ≤ s.lines.length)
    (h : insideAt s i = some name) : i ∈ linesDeclaring name (View.ofSource s) s := by
  obtain ⟨j, headerLine, header, hplace, hread, hname, hform, hlt, hsome⟩ :=
    exists_header_of_insideAt hstart hlength h
  obtain ⟨stop, hstop, hblockAt, -, hend⟩ :=
    exists_blockAt? hbalanced hfinds.inner hplace hread hname hform
  -- Behind the end of the block it would not be open any more.
  have hle : i ≤ stop := by
    by_contra hle
    rw [hsome (stop + 1) (by omega) (by omega)] at hend
    cases hend
  refine mem_linesDeclaring_of_header hfinds hplace hread hname ?_
  rw [hform, mem_declarationLines_of_blockAt? hstop hblockAt]
  omega

/-- A line is deleted for a relationship if it says one that names the entity. -/
theorem mem_relationshipLines_iff (hplace : (i, line, inside) ∈ places s) :
    i ∈ ((View.ofSource s).relationships.filter fun r =>
        r.relationship.entity1 = name || r.relationship.entity2 = name).map (·.line) ↔
      ∃ rel, Effect.ofLine inside line = .relationship rel ∧
        (rel.entity1 = name ∨ rel.entity2 = name) := by
  simp only [List.mem_map, List.mem_filter, Bool.or_eq_true, decide_eq_true_eq]
  constructor
  · rintro ⟨r, ⟨hr, hnames⟩, hi⟩
    obtain ⟨line', inside', hplace', heffect⟩ := View.mem_relationships_iff.1 ⟨r, hr, hi, rfl⟩
    obtain ⟨-, hline, rfl⟩ := mem_places_iff.1 hplace
    obtain ⟨-, hline', rfl⟩ := mem_places_iff.1 hplace'
    obtain rfl := Option.some.inj (hline.symm.trans hline')
    exact ⟨r.relationship, heffect, hnames⟩
  · rintro ⟨rel, heffect, hnames⟩
    obtain ⟨r, hr, hi, rfl⟩ := View.mem_relationships_iff.2 ⟨line, inside, hplace, heffect⟩
    exact ⟨r, ⟨hr, hnames⟩, hi⟩

/-- The lines that go are those about the entity. -/
theorem mem_deletedLines_iff (hbalanced : s.checkBalance blockRules = .ok ())
    (hfinds : FindsDeclarations name s) (hplace : (i, line, inside) ∈ places s) :
    i ∈ deletedLines name s ↔ IsAbout name inside line := by
  obtain ⟨hstart, hline, hinside⟩ := mem_places_iff.1 hplace
  have hlength := (List.getElem?_eq_some_iff.1 hline).1.le
  rw [deletedLines, List.mem_append, mem_relationshipLines_iff hplace]
  constructor
  · rintro (hi | ⟨rel, heffect, hnames⟩)
    · exact isAbout_of_mem_linesDeclaring hbalanced hfinds hplace hi
    · refine .inr ?_
      rw [heffect, Effect.names, List.mem_cons, List.mem_singleton]
      exact hnames.imp Eq.symm Eq.symm
  · intro habout
    by_cases hblock : inside = some name
    · exact .inl (mem_linesDeclaring_of_insideAt hbalanced hfinds hstart hlength
        (hinside.trans hblock))
    · have hnames := habout.resolve_left hblock
      cases heffect : Effect.ofLine inside line with
      | skip => rw [heffect] at hnames; cases hnames
      | close owner =>
        rw [heffect, Effect.names, List.mem_singleton] at hnames
        exact absurd (hnames ▸ Effect.eq_some_of_close heffect) hblock
      | addAttribute owner a =>
        rw [heffect, Effect.names, List.mem_singleton] at hnames
        exact absurd (hnames ▸ Effect.eq_some_of_addAttribute heffect) hblock
      | relationship rel =>
        rw [heffect, Effect.names, List.mem_cons, List.mem_singleton] at hnames
        exact .inr ⟨rel, rfl, hnames.imp Eq.symm Eq.symm⟩
      | header header =>
        rw [heffect, Effect.names, List.mem_singleton] at hnames
        rw [Effect.eq_none_of_header heffect] at hplace
        exact .inl (mem_linesDeclaring_of_header hfinds hplace (Effect.ofLine?_of_header heffect)
          hnames.symm (self_mem_declarationLines s i header.form))

/-! ## Deletions -/

/-- The body of what is left. -/
theorem bodyTexts_deleteLineSet {indices : List Nat} (hindices : ∀ i ∈ indices, bodyStart s ≤ i)
    (hstart : bodyStart (s.deleteLineSet indices) = bodyStart s) :
    bodyTexts (s.deleteLineSet indices) =
      ((s.body .er).filter fun p => !indices.contains p.1).map Prod.snd := by
  have hlength : (s.lines.take (bodyStart s)).length = bodyStart s :=
    List.length_take_of_le (bodyStart_le s)
  -- Nothing goes up to the declaration.
  have hkeep : ∀ p ∈ numbered 0 (s.lines.take (bodyStart s)), (!indices.contains p.1) = true := by
    intro p hp
    rw [Bool.not_eq_true', ← Bool.not_eq_true, List.contains_iff_mem]
    intro hmem
    have hle := hindices _ hmem
    have hlt := (List.getElem?_eq_some_iff.1 (mem_numbered.1 hp).2).1
    omega
  have hlines : (s.deleteLineSet indices).lines = s.lines.take (bodyStart s) ++
      ((s.body .er).filter fun p => !indices.contains p.1).map Prod.snd := by
    rw [body_eq, bodyTexts_eq, lines_deleteLineSet]
    conv_lhs => rw [← List.take_append_drop (bodyStart s) s.lines]
    rw [numbered_append, hlength, Nat.zero_add, List.filter_append, List.map_append,
      List.filter_eq_self.2 hkeep, map_snd_numbered]
  rw [bodyTexts_eq, hstart, hlines]
  exact List.drop_left' hlength

theorem le_of_mem_deletedLines (hi : i ∈ deletedLines name s) : bodyStart s ≤ i := by
  rcases List.mem_append.1 hi with hi | hi
  · obtain ⟨j, line, header, hbody, -, -, -, hi⟩ := mem_linesDeclaring_iff.1 hi
    exact (mem_places_iff.1 (mem_places_of_mem_body hbody)).1.trans (le_of_mem_declarationLines hi)
  · obtain ⟨r, hr, rfl⟩ := List.mem_map.1 hi
    obtain ⟨line, inside, hplace, -⟩ :=
      View.mem_relationships_iff.1 ⟨r, (List.mem_filter.1 hr).1, rfl, rfl⟩
    exact (mem_places_iff.1 hplace).1

theorem deleteEntity_isWithout (hbalanced : s.checkBalance blockRules = .ok ())
    (hfinds : FindsDeclarations name s) (hok : deleteEntity name s = .ok edited)
    (hstart : bodyStart edited.source = bodyStart s) :
    View.IsWithout name (View.ofSource s) (View.ofSource edited.source) := by
  rw [deleteEntity_eq_ok hok] at hstart ⊢
  refine View.isWithout_of_kept ?_
  rw [bodyTexts_deleteLineSet (fun i => le_of_mem_deletedLines) hstart]
  refine map_filter_eq_kept (fun i => !(deletedLines name s).contains i) (r := Reader.start s)
    fun q hq => ?_
  rw [← mem_deletedLines_iff hbalanced hfinds hq]
  simp

end Edit.EntityRelation

namespace Document

open Edit Edit.EntityRelation

/-- A batch of one deletion of an entity, in a balanced source. What the view says about other
relationships and about other entities that are declared stays. -/
theorem applyBatch_isWithout {d d' : Document} {name : Text} {baseRev : Nat} {ids : IdAllocator}
    {r : BatchResult} (hkind : d.kind = .er) (hbalanced : isBalanced .er d.source = true)
    (hfinds : FindsDeclarations name d.source)
    (hok : (d.applyBatch baseRev [.er (.deleteEntity name)] ids).1 = .ok (r, d'))
    (hnone : d.source.declarationOf? .er = none → d'.source.declarationOf? .er = none) :
    View.IsWithout name (View.ofSource d.source) (View.ofSource d'.source) := by
  obtain ⟨edited, hedit, hsource, -⟩ := applyBatch_singleton_eq_ok hok
  rw [hkind] at hedit
  rw [hsource] at hnone ⊢
  exact deleteEntity_isWithout (isBalanced_iff.1 hbalanced) hfinds hedit
    (bodyStart_apply (.deleteEntity name) ids hedit hnone)

/-- An entity that is declared twice, as a block and on a line, and takes part in a relationship.
Inside of the block of another entity its name says nothing. -/
theorem applyBatch_isWithout_repeated :
    let d : Document := ⟨.er, .ofText
      ("erDiagram\nA \x7b\nint x\n\x7d\nB[b] \x7b\nA\nint y\n\x7d\nA\n" ++
        "A ||--|| B : r\nB ||--|| C : t").toList, 0⟩
    let d' : Document := ⟨.er, .ofText
      "erDiagram\nB[b] \x7b\nA\nint y\n\x7d\nB ||--|| C : t".toList, 1⟩
    d.kind = .er ∧ isBalanced .er d.source = true ∧ FindsDeclarations ['A'] d.source ∧
      (d.applyBatch 0 [.er (.deleteEntity ['A'])] {}).1 = .ok (⟨1, 1, none⟩, d') ∧
      (d.source.declarationOf? .er = none → d'.source.declarationOf? .er = none) ∧
      View.IsWithout ['A'] (View.ofSource d.source) (View.ofSource d'.source) := by
  intro d d'
  have hkind : d.kind = .er := rfl
  have hbalanced : isBalanced .er d.source = true := by decide +kernel
  have hfinds : FindsDeclarations ['A'] d.source := ⟨by decide +kernel, by decide +kernel⟩
  have hok : (d.applyBatch 0 [.er (.deleteEntity ['A'])] {}).1 = .ok (⟨1, 1, none⟩, d') := by
    decide +kernel
  have hnone : d.source.declarationOf? .er = none → d'.source.declarationOf? .er = none := by
    decide +kernel
  exact ⟨hkind, hbalanced, hfinds, hok, hnone,
    applyBatch_isWithout hkind hbalanced hfinds hok hnone⟩

/-- The second entity is declared between a declaration of the first one on a line of its own and the
block of the first one. It is deleted with success, and nothing changes. -/
theorem not_applyBatch_isWithout :
    let d : Document := ⟨.er, .ofText "erDiagram\nA\nB\nA \x7b\nint x\n\x7d".toList, 0⟩
    d.source.kind? = some d.kind ∧ isBalanced .er d.source = true ∧
      (View.ofSource d.source).names = [['A'], ['B']] ∧
      (d.applyBatch 0 [.er (.deleteEntity ['B'])] {}).1 = .ok (⟨1, 1, none⟩, d.bumpRev) ∧
      ¬View.IsWithout ['B'] (View.ofSource d.source) (View.ofSource d.bumpRev.source) := by
  intro d
  refine ⟨by decide +kernel, by decide +kernel, by decide +kernel, by decide +kernel, fun h => ?_⟩
  have hentity : (View.ofSource d.bumpRev.source).entity? ['B'] ≠ none := by decide +kernel
  exact hentity h.entity

end Document

end DiagramEditor
