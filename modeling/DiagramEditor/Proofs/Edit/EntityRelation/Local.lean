import DiagramEditor.Proofs.Edit.Batch
import DiagramEditor.Proofs.EntityRelation.Line
import DiagramEditor.Proofs.EntityRelation.Place

/-!
# Edits of attributes are local

An edit of the attributes of an entity changes one line of its block or writes the entity anew, over
the lines from its first declaration to the end of its last block. Where these lines are about the
entity alone (`WritesWithin`), the view says the same as before about everything else
(`Document.applyBatch_agreesExcept`).

They need not be: an entity that is declared on a line with all attributes and once more as a block
takes what stands between the two with it (`Document.not_applyBatch_agreesExcept`).
-/

namespace DiagramEditor

open Text Source EntityRelation

/-- The entity whose attributes the edit changes. -/
def EntityOp.attributesOf? : EntityOp → Option Text
  | addAttribute entity _ => some entity
  | updateAttribute entity _ _ => some entity
  | deleteAttribute entity _ => some entity
  | _ => none

/-- The attribute that the edit writes in place of others. -/
def EntityOp.replacement? : EntityOp → Option Attribute
  | updateAttribute _ _ new => some new
  | _ => none

namespace Edit.EntityRelation

variable {s s' : Source} {v : View} {e : EntityRecord} {name attr text w : Text} {new : Attribute}
  {attributes : List Attribute} {texts : List Text} {i : Nat} {span : BlockSpan} {edited : Edited}

/-! ## Lines of blocks -/

/-- The header of a block that is written is one of the entity. -/
theorem ofLine?_headerText (hw : IsBlank w) (hname : Relationship.isEntityName e.name = true)
    (hread : e.content.IsReadable) : ∃ title, EntityHeader.ofLine? (w ++ headerText e ++ [' ', '\x7b']) =
      some ⟨e.name, w.length, title, .blockOpen⟩ := by
  have hform : EntityHeader.form? ['\x7b'] = some .blockOpen := rfl
  have hlast : ∀ s : Text, ∀ c ∈ (s ++ [' ', '\x7b']).getLast?, isSpace c = false := by
    intro s c hc
    rw [List.getLast?_append_of_ne_nil s (List.cons_ne_nil _ _)] at hc
    cases hc
    decide
  rw [headerText]
  split
  · next title htitle =>
    have hcut : cutChar? ']' (quote title ++ ']' :: [' ', '\x7b']) =
        some (quote title, [' ', '\x7b']) := by
      refine cutChar?_append_cons (fun hmem => ?_) _
      rcases List.mem_append.1 (quote_subset title hmem) with hmem | hmem
      · exact absurd hmem (by decide)
      · exact hread.title title htitle hmem
    have hscan : EntityHeader.scanTitle? (trimStart ('[' :: (quote title ++ ']' :: [' ', '\x7b']))) =
        some (some (unquote (quote title)), ['\x7b']) := by
      rw [trimStart_eq_self (by simp; decide), EntityHeader.scanTitle?, hcut]
      rfl
    have := EntityHeader.ofLine?_append hw hname (List.cons_ne_nil _ _) (by simp; decide)
      (by simpa using hlast ('[' :: quote title ++ [']'])) hscan hform
    exact ⟨_, by simpa using this⟩
  · exact ⟨none, by simpa using EntityHeader.ofLine?_opener hw hname⟩

theorem trim_attributeLine (hw : IsBlank w) (a : Attribute) :
    trim (w ++ "    ".toList ++ a.render) = trim a.render :=
  trim_of_isBlank_append (hw.append isBlank_indentStep) _

/-- The header of a block and the attributes behind it leave the block open, if none of these closes
it. -/
theorem stretch_headerText_append (hw : IsBlank w)
    (hname : Relationship.isEntityName e.name = true) (hread : e.content.IsReadable)
    (hattributes : ∀ a ∈ attributes, isBlockClose (trim a.render) = false) :
    Stretch e.name none (some e.name) ([w ++ headerText e ++ [' ', '\x7b']] ++
      attributes.map fun a => w ++ "    ".toList ++ a.render) := by
  have hheader : Stretch e.name none (some e.name) [w ++ headerText e ++ [' ', '\x7b']] := by
    obtain ⟨title, hheader⟩ := ofLine?_headerText hw hname hread
    have heffect := Effect.ofLine_none_eq_header_iff.2 hheader
    exact .singleton (by rw [heffect]; exact ⟨rfl, List.forall_mem_singleton.2 rfl⟩)
      (by rw [heffect]; rfl)
  refine hheader.append (.of_forall_not_isBlockClose (fun text htext => ?_) e.name)
  obtain ⟨a, ha, rfl⟩ := List.mem_map.1 htext
  rw [trim_attributeLine hw]
  exact hattributes a ha

/-- A block that is written is about its entity, whatever its last attribute is. -/
theorem stretch_renderBlock (hw : IsBlank w) (hname : Relationship.isEntityName e.name = true)
    (hread : e.content.IsReadable)
    (hattributes : ∀ a ∈ attributes.dropLast, isBlockClose (trim a.render) = false) :
    Stretch e.name none none (renderBlock w (headerText e) attributes) := by
  have hclose : isBlockClose (trim (w ++ ['\x7d'])) = true := by
    rw [trim_of_isBlank_append hw]
    decide
  rw [renderBlock]
  by_cases hlast : ∀ a ∈ attributes, isBlockClose (trim a.render) = false
  · exact (stretch_headerText_append hw hname hread hlast).append (.of_isBlockClose hclose e.name)
  · -- The last attribute closes the block, and the brace behind it is on its own.
    obtain ⟨front, last, rfl⟩ : ∃ front last, attributes = front ++ [last] := by
      refine ⟨_, _, (List.dropLast_append_getLast (l := attributes) ?_).symm⟩
      rintro rfl
      exact hlast nofun
    rw [List.dropLast_concat] at hattributes
    have hbrace : isBlockClose (trim last.render) = true := by
      by_contra hbrace
      exact hlast (List.forall_mem_append.2 ⟨hattributes, by simpa using hbrace⟩)
    rw [List.map_append, ← List.append_assoc]
    refine ((stretch_headerText_append hw hname hread hattributes).append
      (.of_isBlockClose ?_ e.name)).append (.of_isBlockClose_none hclose e.name)
    rw [trim_attributeLine hw]
    exact hbrace

/-! ## Places of entities -/

/-- An attribute of an entity that has none on a header stands in a block of the entity. -/
theorem exists_place_of_attribute (he : (View.ofSource s).entity? name = some e)
    (hinline : e.inline = false) {a : Attribute} (ha : (i, a) ∈ e.attributes) :
    ∃ text, (i, text, some name) ∈ places s ∧ Attribute.ofLine? text = some a := by
  obtain ⟨hmem, hname⟩ := View.entity?_eq_some he
  obtain ⟨text, inside, hplace, heffect | ⟨h, -⟩⟩ :=
    (View.isTraced_ofSource s e hmem).attributes (i, a) ha
  · rw [hname] at heffect
    rw [Effect.eq_some_of_addAttribute heffect] at hplace heffect
    exact ⟨text, hplace, Effect.ofLine?_of_addAttribute heffect⟩
  · rw [h] at hinline
    cases hinline

/-- Where all blocks are closed, none is open in front of the span of an entity or behind it. -/
theorem insideAt_span (hbalanced : s.checkBalance blockRules = .ok ())
    (he : e ∈ (View.ofSource s).entities) (hspan : e.span = some span) :
    bodyStart s ≤ span.start ∧ span.stop + 1 ≤ s.lines.length ∧ insideAt s span.start = none ∧
      insideAt s (span.stop + 1) = none := by
  have htraced := View.isTraced_ofSource s e he
  obtain ⟨text, inside, header, hplace, hheader, -, hsingle⟩ := htraced.start span hspan
  obtain rfl := Effect.eq_none_of_header hheader
  obtain ⟨hstart, hline, hinside⟩ := mem_places_iff.1 hplace
  -- A span of one line is a header that opens no block that stays open; another one ends at a brace.
  by_cases hstop : span.start = span.stop
  · refine ⟨hstart, hstop ▸ (List.getElem?_eq_some_iff.1 hline).1, hinside, ?_⟩
    rw [← hstop, insideAt_succ hplace, hheader, Effect.next, if_neg]
    intro hform
    have hopen := hsingle hstop hform
    rw [Reader.openEntity_readAll] at hopen
    cases (insideAfter_bodyTexts hbalanced).symm.trans hopen
  · obtain ⟨text', inside', hplace', hclose⟩ := htraced.stop span hspan hstop
    refine ⟨hstart, (List.getElem?_eq_some_iff.1 (mem_places_iff.1 hplace').2.1).1, hinside, ?_⟩
    rw [insideAt_succ hplace', hclose]
    rfl

/-- What takes the place of the lines of a span is about the entity if the lines and the new ones
are. -/
theorem splices_span (hbalanced : s.checkBalance blockRules = .ok ())
    (he : e ∈ (View.ofSource s).entities) (hs : e.span = some span)
    (hspan : ∀ q ∈ places s, span.contains q.1 = true → (Effect.ofLine q.2.2 q.2.1).Concerns name)
    (htexts : Stretch name none none texts)
    (hlines : s'.lines = s.lines.take span.start ++ texts ++ s.lines.drop (span.stop + 1)) :
    Splices name span.start (span.stop + 1) texts s s' := by
  obtain ⟨hstart, hstop, hbefore, hafter⟩ := insideAt_span hbalanced he hs
  have hle := (View.isTraced_ofSource s e he).le span hs
  refine ⟨hstart, by omega, hlines, fun effect heffect => ?_, ?_⟩
  · obtain ⟨k, text, hk, hk', hplace, rfl⟩ := exists_place_of_mem_effects hstart heffect
    refine hspan _ hplace ?_
    simp only [BlockSpan.contains, Bool.and_eq_true, decide_eq_true_eq]
    omega
  · rw [hbefore, hafter]
    exact htexts

/-- An entity is written anew in place of the lines of its span, or at the end. -/
theorem writeAsBlock_splices (hbalanced : s.checkBalance blockRules = .ok ())
    (hlength : s.length < indexBound) (he : (View.ofSource s).entity? name = some e)
    (hspan : ∀ span ∈ e.span, ∀ q ∈ places s, span.contains q.1 = true →
      (Effect.ofLine q.2.2 q.2.1).Concerns name)
    (hattributes : ∀ a ∈ attributes.dropLast, isBlockClose (trim a.render) = false)
    (hok : writeAsBlock e attributes v s = .ok s') : ∃ i j texts, Splices name i j texts s s' := by
  obtain ⟨hmem, hname⟩ := View.entity?_eq_some he
  have hblock : ∀ {w}, IsBlank w → Stretch name none none (renderBlock w (headerText e) attributes) :=
    fun hw => hname ▸ stretch_renderBlock hw (View.isEntityName_of_mem hmem)
      (View.isReadable_of_entity? he) hattributes
  rw [writeAsBlock] at hok
  split at hok
  · next span hs =>
    obtain ⟨line, hline, hok⟩ := bind_eq_ok.1 hok
    obtain ⟨-, hstop, -, -⟩ := insideAt_span hbalanced hmem hs
    have hle := (View.isTraced_ofSource s e hmem).le span hs
    have hcount : span.start + span.length = span.stop + 1 := by
      rw [BlockSpan.length]
      omega
    rw [deleteLines_of_le (hcount ▸ hstop) hlength, hcount] at hok
    obtain ⟨-, rfl⟩ := insertLines_eq_ok hok
    have htake : (s.lines.take span.start).length = span.start :=
      List.length_take_of_le (by omega)
    refine ⟨_, _, _, splices_span hbalanced hmem hs (hspan span hs) (hblock (isBlank_indent line)) ?_⟩
    rw [List.take_left' htake, List.drop_left' htake]
  · cases hok
    refine ⟨s.lines.length, s.lines.length,
      renderBlock (bodyIndent v.declarationLine s) (headerText e) attributes,
      .between (bodyStart_le s) ?_ ?_⟩
    · rw [insideAt_length hbalanced]
      exact hblock (isBlank_bodyIndent _ _)
    · rw [lines_pushLines, List.take_length, List.drop_length, List.append_nil]

/-! ## Attributes -/

/-- The lines that an edit of attributes writes anew are about the entity, and it writes no closing
brace between them. An entity that is a block is edited line by line, and nothing is asked for. -/
def WritesWithin (op : EntityOp) (name : Text) (s : Source) : Prop :=
  ∀ e ∈ (View.ofSource s).entity? name, blockSpan? e = none →
    (∀ span ∈ e.span, ∀ q ∈ places s, span.contains q.1 = true →
      (Effect.ofLine q.2.2 q.2.1).Concerns name) ∧
    ∀ new ∈ op.replacement?, isBlockClose (trim (tidy new).render) = false

instance (op : EntityOp) (name : Text) (s : Source) : Decidable (WritesWithin op name s) :=
  inferInstanceAs (Decidable (∀ e ∈ (View.ofSource s).entity? name, _ → _))

/-- An attribute that was read does not begin like a closing brace. -/
theorem not_isBlockClose_render {a : Attribute} (h : isWord a.type = true) :
    isBlockClose (trim a.render) = false := by
  obtain ⟨rest, hrest⟩ : ∃ rest, a.render = a.type ++ rest := by
    rw [Attribute.render, List.append_assoc, List.append_assoc]
    exact ⟨_, rfl⟩
  rw [hrest]
  exact (of_isWord_append isBlank_nil h rest).2

theorem not_isBlockClose_of_mem (he : (View.ofSource s).entity? name = some e) :
    ∀ a ∈ e.attributes.map Prod.snd, isBlockClose (trim a.render) = false := fun a ha =>
  not_isBlockClose_render ((View.isReadable_of_entity? he).attributes a ha)

theorem addAttribute_splices (hbalanced : s.checkBalance blockRules = .ok ())
    (hlength : s.length < indexBound) (hop : WritesWithin (.addAttribute name new) name s)
    (hok : addAttribute name new s = .ok edited)
    (hbalanced' : edited.source.checkBalance blockRules = .ok ()) :
    ∃ i j texts, Splices name i j texts s edited.source := by
  obtain ⟨e, he, hok⟩ := addAttribute_eq_ok hok
  obtain ⟨hmem, hname⟩ := View.entity?_eq_some he
  rcases hok with ⟨span, header, hspan, -, hok⟩ | ⟨hspan, hok⟩
  · -- In front of the closing brace, the new line neither opens nor closes.
    obtain ⟨hspan, -, hne⟩ := blockSpan?_eq_some hspan
    obtain ⟨text, inside, hplace, hclose⟩ := (View.isTraced_ofSource s e hmem).stop span hspan hne
    obtain ⟨hstart, -, hinside⟩ := mem_places_iff.1 hplace
    rw [Effect.eq_some_of_close hclose, hname] at hinside
    obtain ⟨-, hsource⟩ := insertLines_eq_ok hok
    have hlines := congrArg Source.lines hsource
    have hrise := rises_eq_of_checkBalance hbalanced hbalanced' (Nat.le_refl _) hlines
    rw [List.drop_take, Nat.sub_self, List.take_zero, rises_singleton] at hrise
    refine ⟨span.stop, span.stop, _, .between hstart ?_ hlines⟩
    rw [hinside]
    exact .of_not_isBlockClose (not_isBlockClose_of_rise (hrise ▸ Int.le_refl 0)) name
  · refine writeAsBlock_splices hbalanced hlength he (hop e he hspan).1 ?_ hok
    rw [List.dropLast_concat]
    exact not_isBlockClose_of_mem he

theorem updateAttribute_splices (hbalanced : s.checkBalance blockRules = .ok ())
    (hlength : s.length < indexBound) (hop : WritesWithin (.updateAttribute name attr new) name s)
    (hok : updateAttribute name attr new s = .ok edited)
    (hbalanced' : edited.source.checkBalance blockRules = .ok ()) :
    ∃ i j texts, Splices name i j texts s edited.source := by
  obtain ⟨e, i, a, he, ha, -, hok⟩ := updateAttribute_eq_ok hok
  rcases hok with ⟨line, hspan, -, hok⟩ | ⟨hspan, hok⟩
  · -- The new line rises as much as the old one, so it is no closing brace.
    obtain ⟨span, hspan⟩ := Option.isSome_iff_exists.1 hspan
    obtain ⟨text, hplace, hread⟩ :=
      exists_place_of_attribute he (blockSpan?_eq_some hspan).2.1 ha
    have hclose := Attribute.not_isBlockClose_of_ofLine? hread
    have hlines := lines_replaceLine hok
    have hrise := rises_eq_of_checkBalance hbalanced hbalanced' (Nat.le_succ i) hlines
    rw [drop_take_succ (mem_places_iff.1 hplace).2.1, rises_singleton, rises_singleton] at hrise
    have hnew := not_isBlockClose_of_rise (hrise ▸ rise_nonneg blockRules hclose)
    exact ⟨_, _, _, .of_mem_places hplace hclose (.of_not_isBlockClose hnew name) hlines⟩
  · refine writeAsBlock_splices hbalanced hlength he (hop e he hspan).1 (fun b hb => ?_) hok
    obtain ⟨p, hp, rfl⟩ := List.mem_map.1 (List.dropLast_subset _ hb)
    split
    · exact (hop e he hspan).2 new rfl
    · exact not_isBlockClose_of_mem he p.2 (List.mem_map_of_mem hp)

theorem deleteAttribute_splices (hbalanced : s.checkBalance blockRules = .ok ())
    (hlength : s.length < indexBound) (hop : WritesWithin (.deleteAttribute name attr) name s)
    (hok : deleteAttribute name attr s = .ok edited) :
    ∃ i j texts, Splices name i j texts s edited.source := by
  obtain ⟨e, i, a, he, ha, -, hok⟩ := deleteAttribute_eq_ok hok
  rcases hok with ⟨hspan, hok⟩ | ⟨hspan, hok⟩
  · obtain ⟨span, hspan⟩ := Option.isSome_iff_exists.1 hspan
    obtain ⟨text, hplace, hread⟩ :=
      exists_place_of_attribute he (blockSpan?_eq_some hspan).2.1 ha
    obtain ⟨-, hline, -⟩ := mem_places_iff.1 hplace
    rw [deleteLines_of_le (List.getElem?_eq_some_iff.1 hline).1 hlength] at hok
    refine ⟨i, i + 1, [], .of_mem_places hplace (Attribute.not_isBlockClose_of_ofLine? hread)
      (.nil name (some name)) ?_⟩
    rw [List.append_nil, ← Except.ok.inj hok]
  · refine writeAsBlock_splices hbalanced hlength he (hop e he hspan).1 (fun b hb => ?_) hok
    exact not_isBlockClose_of_mem he b (List.mem_filter.1 (List.dropLast_subset _ hb)).1

/-- Every edit of the attributes of an entity changes a stretch of lines about that entity. -/
theorem apply_splices {op : EntityOp} {ids : IdAllocator}
    (hbalanced : s.checkBalance blockRules = .ok ()) (hlength : s.length < indexBound)
    (hop : op.attributesOf? = some name) (hwithin : WritesWithin op name s)
    (hok : (apply op s ids).1 = .ok edited)
    (hbalanced' : edited.source.checkBalance blockRules = .ok ()) :
    ∃ i j texts, Splices name i j texts s edited.source := by
  cases op with
  | addAttribute entity new =>
    cases hop
    exact addAttribute_splices hbalanced hlength hwithin hok hbalanced'
  | updateAttribute entity attr new =>
    cases hop
    exact updateAttribute_splices hbalanced hlength hwithin hok hbalanced'
  | deleteAttribute entity attr =>
    cases hop
    exact deleteAttribute_splices hbalanced hlength hwithin hok
  | _ => cases hop

/-- The body starts where it did, unless the edit has made a declaration. -/
theorem bodyStart_apply (op : EntityOp) (ids : IdAllocator) (hok : (apply op s ids).1 = .ok edited)
    (hnone : s.declarationOf? .er = none → edited.source.declarationOf? .er = none) :
    bodyStart edited.source = bodyStart s := by
  rw [bodyStart, bodyStart, declarationOf?_apply op ids hok hnone]

end Edit.EntityRelation

namespace Document

open Edit Edit.EntityRelation

/-- A batch of one edit of the attributes of an entity, in a balanced source whose lines all have an
index. What the view says about relationships and about other entities stays. -/
theorem applyBatch_agreesExcept {d d' : Document} {op : EntityOp} {name : Text} {baseRev : Nat}
    {ids : IdAllocator} {r : BatchResult} (hkind : d.kind = .er)
    (hbalanced : isBalanced .er d.source = true) (hlength : d.source.length < indexBound)
    (hop : op.attributesOf? = some name) (hwithin : WritesWithin op name d.source)
    (hok : (d.applyBatch baseRev [.er op] ids).1 = .ok (r, d'))
    (hnone : d.source.declarationOf? .er = none → d'.source.declarationOf? .er = none) :
    View.AgreesExcept name (View.ofSource d.source) (View.ofSource d'.source) := by
  obtain ⟨edited, hedit, hsource, hkeep⟩ := applyBatch_singleton_eq_ok hok
  rw [hkind] at hedit hkeep
  have hbalanced' := hkeep hbalanced
  rw [hsource] at hbalanced' hnone ⊢
  obtain ⟨i, j, texts, hsplices⟩ := apply_splices (isBalanced_iff.1 hbalanced) hlength hop hwithin
    hedit (isBalanced_iff.1 hbalanced')
  exact hsplices.agreesExcept (bodyStart_apply op ids hedit hnone)

/-- An entity with a title and attributes on one line and a block below it becomes one block. -/
theorem applyBatch_agreesExcept_inline :
    let d : Document := ⟨.er, .ofText
      "erDiagram\nA[t] \x7bint x\x7d\nA \x7b\nint y\n\x7d\nB ||--|| A : r".toList, 0⟩
    let d' : Document := ⟨.er, .ofText
      "erDiagram\nA[\"t\"] \x7b\n    int x\n    int z\n\x7d\nB ||--|| A : r".toList, 1⟩
    let op : EntityOp := .updateAttribute ['A'] ['y'] ⟨"int".toList, ['z'], [], none⟩
    d.kind = .er ∧ isBalanced .er d.source = true ∧ d.source.length < indexBound ∧
      op.attributesOf? = some ['A'] ∧ WritesWithin op ['A'] d.source ∧
      (d.applyBatch 0 [.er op] {}).1 = .ok (⟨1, 1, some (.entity ['A'])⟩, d') ∧
      (d.source.declarationOf? .er = none → d'.source.declarationOf? .er = none) ∧
      View.AgreesExcept ['A'] (View.ofSource d.source) (View.ofSource d'.source) := by
  intro d d' op
  have hkind : d.kind = .er := rfl
  have hbalanced : isBalanced .er d.source = true := by decide +kernel
  have hlength : d.source.length < indexBound := by decide +kernel
  have hop : op.attributesOf? = some ['A'] := rfl
  have hwithin : WritesWithin op ['A'] d.source := by decide +kernel
  have hok : (d.applyBatch 0 [.er op] {}).1 = .ok (⟨1, 1, some (.entity ['A'])⟩, d') := by decide +kernel
  have hnone : d.source.declarationOf? .er = none → d'.source.declarationOf? .er = none := by
    decide +kernel
  exact ⟨hkind, hbalanced, hlength, hop, hwithin, hok, hnone,
    applyBatch_agreesExcept hkind hbalanced hlength hop hwithin hok hnone⟩

/-- The relationship between the line that declares the entity and the block of the entity is gone,
and with it the other entity. -/
theorem not_applyBatch_agreesExcept :
    let d : Document := ⟨.er, .ofText
      "erDiagram\nA \x7bint x\x7d\nB ||--|| C : r\nA \x7b\nint y\n\x7d".toList, 0⟩
    let d' : Document := ⟨.er, .ofText
      "erDiagram\nA \x7b\n    int x\n    int y\n    int z\n\x7d".toList, 1⟩
    let op : EntityOp := .addAttribute ['A'] ⟨"int".toList, ['z'], [], none⟩
    d.source.kind? = some d.kind ∧ isBalanced .er d.source = true ∧
      (d.applyBatch 0 [.er op] {}).1 = .ok (⟨1, 1, some (.entity ['A'])⟩, d') ∧
      (View.ofSource d.source).names = [['A'], ['B'], ['C']] ∧
      (View.ofSource d'.source).names = [['A']] ∧
      (View.ofSource d.source).relationships.length = 1 ∧
      (View.ofSource d'.source).relationships = [] ∧
      ¬View.AgreesExcept ['A'] (View.ofSource d.source) (View.ofSource d'.source) := by
  intro d d' op
  have hnames : (View.ofSource d.source).names = [['A'], ['B'], ['C']] := by decide +kernel
  have hnames' : (View.ofSource d'.source).names = [['A']] := by decide +kernel
  refine ⟨by decide +kernel, by decide +kernel, by decide +kernel, hnames, hnames', by decide +kernel,
    by decide +kernel, fun h => ?_⟩
  have := h.names
  rw [hnames, hnames'] at this
  exact absurd this (by decide)

end Document

end DiagramEditor
