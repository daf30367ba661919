import DiagramEditor.Proofs.Edit.EntityRelation.Local
import DiagramEditor.Proofs.EntityRelation.Record
import DiagramEditor.Proofs.Source.Depth

/-!
# The two forms of an entity

An entity may be declared on one line, with all attributes between braces, or as a block of lines. An
edit of one of its attributes works on the list of attributes in the first form (`exchangeAll`) and on
the line of the attribute in the second one (`exchangeFirst`). It is refused in both forms or accepted
in both, and what it leaves is the same exactly if the entity has no second attribute of this name, or
only such as are what is written in place of the first one (`applyOps_exchangeAttribute`).
-/

namespace DiagramEditor

open Text Source EntityRelation

/-- The edit of one attribute of an entity: another one in its place, or none. -/
def EntityOp.exchangeAttribute (entity attr : Text) : Option Attribute → EntityOp
  | some new => .updateAttribute entity attr new
  | none => .deleteAttribute entity attr

namespace EntityRelation

variable {name attr text line : Text} {title : Option Text} {attributes before after : List Attribute}
  {a : Attribute} {new : Option Attribute} {w : Text}

/-! ## Lists of attributes -/

/-- The attributes with the first one of this name exchanged. -/
def exchangeFirst (attr : Text) (new : Option Attribute) : List Attribute → List Attribute
  | [] => []
  | a :: rest => if a.name = attr then new.toList ++ rest else a :: exchangeFirst attr new rest

/-- The attributes with every one of this name exchanged. -/
def exchangeAll (attr : Text) (new : Option Attribute) (attributes : List Attribute) :
    List Attribute :=
  attributes.flatMap fun a => if a.name = attr then new.toList else [a]

theorem exchangeFirst_append (hbefore : ∀ b ∈ before, b.name ≠ attr) (ha : a.name = attr) :
    exchangeFirst attr new (before ++ a :: after) = before ++ new.toList ++ after := by
  induction before with
  | nil => exact if_pos ha
  | cons b before ih =>
    obtain ⟨hb, hbefore⟩ := List.forall_mem_cons.1 hbefore
    rw [List.cons_append, exchangeFirst, if_neg hb, ih hbefore]
    rfl

theorem exchangeAll_append (hbefore : ∀ b ∈ before, b.name ≠ attr) (ha : a.name = attr) :
    exchangeAll attr new (before ++ a :: after) =
      before ++ new.toList ++ exchangeAll attr new after := by
  have hsame : exchangeAll attr new before = before := by
    rw [exchangeAll, List.flatMap_congr fun b hb => if_neg (hbefore b hb)]
    exact List.flatMap_singleton' before
  rw [exchangeAll, List.flatMap_append, List.flatMap_cons, if_pos ha, ← exchangeAll, hsame,
    List.append_assoc]
  rfl

theorem exchangeAll_none (attr : Text) (attributes : List Attribute) :
    exchangeAll attr none attributes = attributes.filter (·.name ≠ attr) := by
  induction attributes with
  | nil => rfl
  | cons a rest ih =>
    rw [exchangeAll, List.flatMap_cons, ← exchangeAll, ih]
    by_cases ha : a.name = attr <;> simp [ha]

theorem exchangeAll_some (attr : Text) (b : Attribute) (attributes : List Attribute) :
    exchangeAll attr (some b) attributes =
      attributes.map fun a => if a.name = attr then b else a := by
  rw [exchangeAll, List.map_eq_flatMap]
  refine List.flatMap_congr fun a _ => ?_
  split <;> rfl

/-- Exchanging changes nothing exactly if every attribute of this name is the new one. -/
theorem exchangeAll_eq_self_iff :
    exchangeAll attr new attributes = attributes ↔ ∀ a ∈ attributes, a.name = attr → new = some a := by
  cases new with
  | none =>
    rw [exchangeAll_none, List.filter_eq_self]
    simp
  | some b =>
    conv_lhs => rw [exchangeAll_some]; rhs; rw [← List.map_id attributes]
    rw [List.map_inj_left]
    refine forall₂_congr fun a _ => ?_
    by_cases ha : a.name = attr <;> simp [ha]

/-- An attribute with this name is a first one. -/
theorem exists_first (h : attr ∈ attributes.map (·.name)) : ∃ before a after,
    attributes = before ++ a :: after ∧ (∀ b ∈ before, b.name ≠ attr) ∧ a.name = attr := by
  obtain ⟨a, ha⟩ : ∃ a, attributes.find? (·.name = attr) = some a := by
    rw [← Option.isSome_iff_exists, List.find?_isSome]
    simpa using h
  obtain ⟨hname, before, after, rfl, hbefore⟩ := List.find?_eq_some_iff_append.1 ha
  exact ⟨before, a, after, rfl, by simpa using hbefore, by simpa using hname⟩

/-- Exchanging the first one and exchanging all is the same exactly if every further one is what the
first one becomes. -/
theorem exchangeAll_eq_exchangeFirst_iff (h : attr ∈ attributes.map (·.name)) :
    exchangeAll attr new attributes = exchangeFirst attr new attributes ↔
      ∀ a ∈ (attributes.filter (·.name = attr)).tail, new = some a := by
  obtain ⟨before, a, after, rfl, hbefore, ha⟩ := exists_first h
  have htail : ((before ++ a :: after).filter (·.name = attr)).tail = after.filter (·.name = attr) := by
    rw [List.filter_append, List.filter_eq_nil_iff.2 (by simpa using hbefore),
      List.filter_cons_of_pos (by simpa using ha), List.nil_append, List.tail_cons]
  rw [exchangeAll_append hbefore ha, exchangeFirst_append hbefore ha, List.append_cancel_left_eq,
    exchangeAll_eq_self_iff, htail]
  simp

/-! ## Lines -/

/-- An attribute that was read from some lines stands on one of them. -/
theorem exists_line_of_attribute {texts : List Text}
    (h : texts.filterMap Attribute.ofLine? = before ++ a :: after) : ∃ above text below,
      texts = above ++ text :: below ∧ above.filterMap Attribute.ofLine? = before ∧
        Attribute.ofLine? text = some a ∧ below.filterMap Attribute.ofLine? = after := by
  obtain ⟨above, rest, rfl, habove, hrest⟩ := List.filterMap_eq_append_iff.1 h
  obtain ⟨none_, text, below, rfl, hnone, htext, hbelow⟩ := List.filterMap_eq_cons_iff.1 hrest
  refine ⟨above ++ none_, text, below, (List.append_assoc ..).symm, ?_, htext, hbelow⟩
  rw [List.filterMap_append, habove, List.filterMap_eq_nil_iff.2 hnone, List.append_nil]

theorem find?_attributesFrom {above : List Text} (n : Nat) (below : List Text)
    (habove : ∀ b ∈ above.filterMap Attribute.ofLine?, b.name ≠ attr)
    (hread : Attribute.ofLine? text = some a) (ha : a.name = attr) :
    (attributesFrom n (above ++ text :: below)).find? (·.2.name = attr) =
      some (n + above.length, a) := by
  have hnone : (attributesFrom n above).find? (·.2.name = attr) = none := by
    refine List.find?_eq_none.2 fun p hp => ?_
    rw [decide_eq_true_eq]
    exact habove p.2 (map_snd_attributesFrom n above ▸ List.mem_map_of_mem hp)
  rw [attributesFrom_append, List.find?_append, hnone, attributesFrom_cons, hread]
  simp [ha]

/-- The attribute is read back off its written form. -/
def Attribute.ReadsBack (a : Attribute) : Prop :=
  Attribute.ofLine? a.render = some a

instance : DecidablePred Attribute.ReadsBack := fun a =>
  inferInstanceAs (Decidable (Attribute.ofLine? a.render = some a))

theorem Attribute.ReadsBack.ofLine? (h : a.ReadsBack) (hw : IsBlank w) :
    Attribute.ofLine? (w ++ a.render) = some a := by
  rw [ReadsBack, Attribute.ofLine?, ← trim_of_isBlank_append hw] at h
  exact h

theorem Attribute.blockStep_of_ofLine? (h : Attribute.ofLine? line = some a) :
    blockStep blockRules line = .stay := by
  refine blockStep_eq_stay ?_ (Attribute.not_isBlockClose_of_ofLine? h)
  rw [← Bool.not_eq_true]
  exact fun hopen => (Attribute.ofLine?_eq_some h).1 (List.mem_of_getLast? (isBlockOpen_iff.1 hopen).1)

/-- The line of an entity with all attributes between braces opens and closes no block. -/
theorem EntityHeader.blockStep_of_inline {nameStart : Nat}
    (h : EntityHeader.ofLine? line = some ⟨name, nameStart, title, .inline attributes⟩) :
    blockStep blockRules line = .stay := by
  refine blockStep_eq_stay ?_ (not_isSilent h).2
  obtain ⟨tail, rest, hline, -, -, htitle, hform⟩ := EntityHeader.ofLine?_eq_some h
  -- What follows the title ends with a closing brace.
  have hlast : rest.getLast? = some '\x7d' := by
    rw [EntityHeader.form?] at hform
    split at hform
    · cases hform
    · split at hform
      · cases hform
      · obtain ⟨body, hbody, -⟩ := Option.bind_eq_some_iff.1 hform
        obtain ⟨inner, hinner, hend⟩ := Option.bind_eq_some_iff.1 hbody
        have hbrace : inner.getLast? = some '\x7d' :=
          endsWith_singleton_iff.1 (Option.isSome_of_eq_some hend)
        rw [stripFront?_eq_some.1 hinner, List.getLast?_append, hbrace]
        rfl
  have hend : rest <:+ trim line := by
    rw [hline]
    exact ((EntityHeader.suffix_of_scanTitle? htitle).trans (List.dropWhile_suffix _)).trans
      (List.suffix_append name tail)
  obtain ⟨front, hfront⟩ := hend
  rw [← Bool.not_eq_true]
  intro hopen
  have hopen := (isBlockOpen_iff.1 hopen).1
  rw [← hfront, List.getLast?_append, hlast] at hopen
  cases hopen

/-- The lines of a block of attributes that read back. -/
theorem filterMap_ofLine?_render (hw : IsBlank w) (h : ∀ a ∈ attributes, a.ReadsBack) :
    (attributes.map fun a => w ++ a.render).filterMap Attribute.ofLine? = attributes := by
  rw [List.filterMap_map]
  conv_rhs => rw [← List.filterMap_some (l := attributes)]
  exact List.filterMap_congr fun a ha => (h a ha).ofLine? hw

end EntityRelation

namespace Edit.EntityRelation

variable {s s' : Source} {e : EntityRecord} {name attr line opener closer text : Text}
  {title : Option Text} {attributes : List Attribute} {new : Option Attribute}
  {front back inner : List Text} {i : Nat} {a : Attribute} {edited : Edited}

/-! ## Edits of an attribute -/

theorem requireEntity_of_entity? {v : View} (h : v.entity? name = some e) :
    requireEntity v name = .ok e := by
  rw [requireEntity, h]

/-- An attribute that the entity does not have cannot be exchanged. -/
theorem apply_exchangeAttribute_of_not_mem (he : (View.ofSource s).entity? name = some e)
    (h : attr ∉ (e.attributes.map Prod.snd).map (·.name)) (new : Option Attribute)
    (ids : IdAllocator) : apply (.exchangeAttribute name attr new) s ids =
      (.error (.attributeNotFound e.name attr), ids) := by
  have hfind : e.attributes.find? (·.2.name = attr) = none := by
    rw [List.find?_eq_none]
    intro p hp heq
    refine h (List.mem_map.2 ⟨p.2, List.mem_map_of_mem hp, by simpa using heq⟩)
  have hrequire : requireAttribute e attr = .error (.attributeNotFound e.name attr) := by
    rw [requireAttribute, hfind]
  cases new <;>
    simp only [EntityOp.exchangeAttribute, apply, updateAttribute, deleteAttribute,
      requireEntity_of_entity? he, hrequire, bind, Except.bind]

/-- The line of an attribute that takes the place of another one. -/
def attributeLine (old : Text) (new : Attribute) : Text :=
  indent old ++ (tidy new).render

/-- In a block the line of the first attribute of the name is replaced or deleted. -/
theorem apply_exchangeAttribute_of_block (he : (View.ofSource s).entity? name = some e)
    (hspan : (blockSpan? e).isSome) (hfind : e.attributes.find? (·.2.name = attr) = some (i, a))
    (hline : s.lines[i]? = some text) (hlength : s.length < indexBound) (new : Option Attribute)
    (ids : IdAllocator) : ∃ s', apply (.exchangeAttribute name attr new) s ids =
      (.ok ⟨s', some (.entity name)⟩, ids) ∧
      s'.lines = s.lines.take i ++ (new.map (attributeLine text)).toList ++ s.lines.drop (i + 1) := by
  obtain ⟨hi, -⟩ := List.getElem?_eq_some_iff.1 hline
  have hrequire : requireAttribute e attr = .ok (i, a) := by rw [requireAttribute, hfind]
  cases new with
  | none =>
    have hdelete := deleteLines_of_le (show i + 1 ≤ s.length from hi) hlength
    refine ⟨{ s with lines := s.lines.take i ++ s.lines.drop (i + 1) }, ?_, by simp⟩
    simp only [EntityOp.exchangeAttribute, apply, deleteAttribute, requireEntity_of_entity? he, hrequire,
      hspan, hdelete, bind, Except.bind, if_true]
    rfl
  | some new =>
    have hat : lineAt i s = .ok text := by rw [lineAt, Source.line?, hline]
    obtain ⟨s', hs'⟩ : ∃ s', replaceLine i (attributeLine text new) s = .ok s' := by
      rw [replaceLine, Source.replaceLine, if_pos (show i < s.length from hi)]
      exact ⟨_, rfl⟩
    refine ⟨s', ?_, lines_replaceLine hs'⟩
    rw [attributeLine] at hs'
    simp only [EntityOp.exchangeAttribute, apply, updateAttribute, requireEntity_of_entity? he, hrequire,
      hspan, hat, hs', bind, Except.bind, if_true]
    rfl

/-- In any other form all attributes of the name are exchanged. -/
theorem apply_exchangeAttribute_of_not_block (he : (View.ofSource s).entity? name = some e)
    (hspan : blockSpan? e = none) (h : attr ∈ (e.attributes.map Prod.snd).map (·.name))
    (hwrite : writeAsBlock e (exchangeAll attr (new.map tidy) (e.attributes.map Prod.snd))
      (View.ofSource s) s = .ok s') (ids : IdAllocator) :
    apply (.exchangeAttribute name attr new) s ids = (.ok ⟨s', some (.entity name)⟩, ids) := by
  obtain ⟨p, hp⟩ : ∃ p, e.attributes.find? (·.2.name = attr) = some p := by
    rw [← Option.isSome_iff_exists, List.find?_isSome]
    simpa using h
  have hrequire : requireAttribute e attr = .ok p := by rw [requireAttribute, hp]
  cases new with
  | none =>
    rw [Option.map_none, exchangeAll_none] at hwrite
    simp only [EntityOp.exchangeAttribute, apply, deleteAttribute, requireEntity_of_entity? he, hrequire,
      hspan, hwrite, bind, Except.bind, Option.isSome_none, Bool.false_eq_true, if_false]
    rfl
  | some new =>
    rw [Option.map_some, exchangeAll_some, List.map_map] at hwrite
    simp only [Function.comp_def] at hwrite
    simp only [EntityOp.exchangeAttribute, apply, updateAttribute, requireEntity_of_entity? he, hrequire,
      hspan, hwrite, bind, Except.bind, Option.isSome_none, Bool.false_eq_true, if_false]
    rfl

/-- An entity that takes up one line is written as a block in place of it. -/
theorem writeAsBlock_of_single (hspan : e.span = some (.single i)) (hline : s.lines[i]? = some line)
    (hlength : s.length < indexBound) (attributes : List Attribute) (v : View) :
    ∃ s', writeAsBlock e attributes v s = .ok s' ∧ s'.lines = s.lines.take i ++
      renderBlock (indent line) (headerText e) attributes ++ s.lines.drop (i + 1) := by
  obtain ⟨hi, -⟩ := List.getElem?_eq_some_iff.1 hline
  have hat : lineAt i s = .ok line := by rw [lineAt, Source.line?, hline]
  have htake : (s.lines.take i).length = i := List.length_take_of_le (Nat.le_of_lt hi)
  obtain ⟨s', hs'⟩ : ∃ s', insertLines i (renderBlock (indent line) (headerText e) attributes)
      { s with lines := s.lines.take i ++ s.lines.drop (i + 1) } = .ok s' := by
    rw [insertLines, Source.insertLines, if_pos (by simp [Source.length]; omega)]
    exact ⟨_, rfl⟩
  refine ⟨s', ?_, ?_⟩
  · have hdelete := deleteLines_of_le (show i + 1 ≤ s.length from hi) hlength
    simp only [writeAsBlock, hspan, BlockSpan.length, BlockSpan.single, Nat.sub_self, Nat.zero_add, hat,
      hdelete, bind, Except.bind]
    exact hs'
  · rw [(insertLines_eq_ok hs').2, List.take_left' htake, List.drop_left' htake]

/-! ## The two forms -/

theorem blockSpan?_ofBlock (name : Text) (title : Option Text) (inner : List Text) (n : Nat) :
    blockSpan? (.ofBlock name title inner n) = some ⟨n, n + 1 + inner.length⟩ := by
  have hne : n ≠ n + 1 + inner.length := by omega
  simp [blockSpan?, EntityRecord.ofBlock, hne]

/-- The edit of the attribute turns no line of the source into a declaration. -/
def KeepsUndeclared (name attr : Text) (new : Option Attribute) (s : Source) : Prop :=
  s.declarationOf? .er = none → ∀ ids edited,
    (apply (.exchangeAttribute name attr new) s ids).1 = .ok edited →
      edited.source.declarationOf? .er = none

theorem bodyStart_exchangeAttribute (hkeep : KeepsUndeclared name attr new s) {ids : IdAllocator}
    {handle : Option Handle}
    (hop : apply (.exchangeAttribute name attr new) s ids = (.ok ⟨s', handle⟩, ids)) :
    bodyStart s' = bodyStart s :=
  bodyStart_apply _ ids (congrArg Prod.fst hop) fun hnone => hkeep hnone ids _ (congrArg Prod.fst hop)

/-- An entity on one line becomes a block, with every attribute of the name exchanged. -/
theorem exists_isBlock_of_isInline (h : IsInline name title attributes front line back s)
    (hlength : s.length < indexBound) (hread : ∀ a ∈ attributes, a.ReadsBack)
    (hnew : ∀ a ∈ new, (tidy a).ReadsBack) (hkeep : KeepsUndeclared name attr new s)
    (hmem : attr ∈ attributes.map (·.name)) (ids : IdAllocator) :
    ∃ s' title' opener inner closer, apply (.exchangeAttribute name attr new) s ids =
        (.ok ⟨s', some (.entity name)⟩, ids) ∧
      IsBlock name title' (exchangeAll attr (new.map tidy) attributes) front opener inner closer back
        s' ∧
      (s.checkBalance blockRules = .ok () → s'.checkBalance blockRules = .ok ()) := by
  have he := h.entity?
  obtain ⟨hlines, hline, htake, hdrop⟩ := h.lines_eq
  obtain ⟨s', hwrite, hlines'⟩ := writeAsBlock_of_single (e := .onLine name title attributes front.length)
    rfl hline hlength (exchangeAll attr (new.map tidy) attributes) (View.ofSource s)
  rw [htake, hdrop] at hlines'
  have hop := apply_exchangeAttribute_of_not_block he rfl (by simpa using hmem)
    (by rwa [EntityRecord.map_snd_onLine]) ids
  have hreads : ∀ a ∈ exchangeAll attr (new.map tidy) attributes, a.ReadsBack := by
    intro a ha
    obtain ⟨b, hb, ha⟩ := List.mem_flatMap.1 ha
    split at ha
    · obtain ⟨c, hc, rfl⟩ := Option.map_eq_some_iff.1 (Option.mem_toList.1 ha)
      exact hnew c hc
    · exact List.mem_singleton.1 ha ▸ hread b hb
  have hw := isBlank_indent line
  have hname := View.isEntityName_of_mem (View.entity?_eq_some he).1
  obtain ⟨title', hheader⟩ := ofLine?_headerText hw hname (View.isReadable_of_entity? he)
  have hclose : isBlockClose (trim (indent line ++ ['\x7d'])) = true := by
    rw [trim_of_isBlank_append hw]
    decide
  have hw' := hw.append isBlank_indentStep
  have hinner : ∀ text ∈ (exchangeAll attr (new.map tidy) attributes).map fun a =>
      indent line ++ indentStep ++ a.render, ∃ a, Attribute.ofLine? text = some a := by
    intro text htext
    obtain ⟨a, ha, rfl⟩ := List.mem_map.1 htext
    exact ⟨a, (hreads a ha).ofLine? hw'⟩
  refine ⟨s', title', _, _, _, hop, ⟨h.with_middle (bodyStart_exchangeAttribute hkeep hop) hlines',
    ⟨_, hheader⟩, fun text htext => ?_, filterMap_ofLine?_render hw' hreads, hclose⟩,
    fun hbalance => ?_⟩
  · obtain ⟨a, ha⟩ := hinner text htext
    exact Attribute.not_isBlockClose_of_ofLine? ha
  · -- The line leaves the depth as it is, and so does the block.
    obtain ⟨_, hread⟩ := h.header
    have hstay := EntityHeader.blockStep_of_inline hread
    have hblock := depthAfter?_block
      (blockStep_eq_enter_iff.2 (EntityHeader.isBlockOpen_of_form hheader rfl))
      (fun text htext => (hinner text htext).elim fun _ => Attribute.blockStep_of_ofLine?)
      (blockStep_of_isBlockClose hclose)
    rw [checkBalance_eq_ok_iff, hlines, depthAfter?_insert
      (depthAfter?_of_stay (List.forall_mem_singleton.2 hstay))] at hbalance
    rw [checkBalance_eq_ok_iff, hlines', ← hbalance]
    exact depthAfter?_insert hblock front back 0

/-- In a block the first attribute of the name is exchanged. -/
theorem exists_isBlock_of_isBlock (h : IsBlock name title attributes front opener inner closer back s)
    (hlength : s.length < indexBound) (hnew : ∀ a ∈ new, (tidy a).ReadsBack)
    (hkeep : KeepsUndeclared name attr new s) (hmem : attr ∈ attributes.map (·.name))
    (ids : IdAllocator) : ∃ s' inner', apply (.exchangeAttribute name attr new) s ids =
        (.ok ⟨s', some (.entity name)⟩, ids) ∧
      IsBlock name title (exchangeFirst attr (new.map tidy) attributes) front opener inner' closer back
        s' ∧
      (s.checkBalance blockRules = .ok () → s'.checkBalance blockRules = .ok ()) := by
  obtain ⟨before, a, after, hattributes, hbefore, ha⟩ := exists_first hmem
  -- The line of the attribute, and the lines in front of it that hold no attribute of the name.
  obtain ⟨above, text, below, rfl, habove, hread, hbelow⟩ :=
    exists_line_of_attribute (h.attributes.trans hattributes)
  have hfind := find?_attributesFrom (front.length + 1) below
    (fun b hb => hbefore b (habove ▸ hb)) hread ha
  have hsplit : s.lines = front ++ opener :: above ++ [text] ++ (below ++ closer :: back) := by
    rw [h.lines]
    simp
  have hi : (front ++ opener :: above).length = front.length + 1 + above.length := by
    simp
    omega
  have hline : s.lines[front.length + 1 + above.length]? = some text := by
    rw [hsplit, ← hi]
    simp
  obtain ⟨s', hop, hlines'⟩ := apply_exchangeAttribute_of_block h.entity?
    (Option.isSome_of_eq_some (blockSpan?_ofBlock ..)) hfind hline hlength new ids
  have htake : s.lines.take (front.length + 1 + above.length) = front ++ opener :: above := by
    rw [hsplit, ← hi, List.append_assoc, List.take_left]
  have hdrop : s.lines.drop (front.length + 1 + above.length + 1) = below ++ closer :: back := by
    rw [hsplit]
    exact List.drop_left' (by rw [List.length_append, hi, List.length_singleton])
  rw [htake, hdrop] at hlines'
  have hnews : ∀ line ∈ (new.map (attributeLine text)).toList,
      ∃ b, Attribute.ofLine? line = some b := by
    intro line hline
    obtain ⟨b, hb, rfl⟩ := Option.map_eq_some_iff.1 (Option.mem_toList.1 hline)
    exact ⟨tidy b, (hnew b hb).ofLine? (isBlank_indent text)⟩
  refine ⟨s', above ++ (new.map (attributeLine text)).toList ++ below, hop,
    ⟨h.with_middle (bodyStart_exchangeAttribute hkeep hop) (by rw [hlines']; simp), h.header, ?_, ?_,
      h.closer⟩, fun hbalance => ?_⟩
  · intro line hline
    simp only [List.append_assoc, List.mem_append] at hline
    rcases hline with hline | hline | hline
    · exact h.stays line (List.mem_append_left _ hline)
    · exact (hnews line hline).elim fun _ => Attribute.not_isBlockClose_of_ofLine?
    · exact h.stays line (List.mem_append_right _ (List.mem_cons_of_mem text hline))
  · rw [List.filterMap_append, List.filterMap_append, habove, hbelow, hattributes,
      exchangeFirst_append hbefore ha]
    congr 2
    cases new with
    | none => rfl
    | some b =>
      have hb := (hnew b rfl).ofLine? (isBlank_indent text)
      simp [attributeLine, hb]
  · -- The lines of attributes leave the depth as it is.
    have hold := depthAfter?_of_stay (List.forall_mem_singleton.2 (Attribute.blockStep_of_ofLine? hread))
    have hstay := depthAfter?_of_stay fun line hline =>
      (hnews line hline).elim fun _ => Attribute.blockStep_of_ofLine?
    rw [checkBalance_eq_ok_iff, hsplit, depthAfter?_insert hold] at hbalance
    rw [checkBalance_eq_ok_iff, hlines', depthAfter?_insert hstay, hbalance]

/-- The edit of an attribute is refused in both forms or accepted in both, and exchanges all attributes
of the name in one form and the first one in the other. It leaves the same attributes exactly if there is
no further one of the name that is not what the first one becomes. -/
theorem applyOps_exchangeAttribute (hinline : IsInline name title attributes front line back s)
    (hblock : IsBlock name title attributes front opener inner closer back s')
    (hbalance : s.checkBalance blockRules = .ok ()) (hbalance' : s'.checkBalance blockRules = .ok ())
    (hlength : s.length < indexBound) (hlength' : s'.length < indexBound)
    (hread : ∀ a ∈ attributes, a.ReadsBack) (hnew : ∀ a ∈ new, (tidy a).ReadsBack)
    (hkeep : KeepsUndeclared name attr new s) (hkeep' : KeepsUndeclared name attr new s')
    (earlier : Option Handle) (ids : IdAllocator) :
    let run (s : Source) :=
      (applyOps .er [.er (.exchangeAttribute name attr new)] ⟨s, earlier⟩ ids).1
    (attr ∉ attributes.map (·.name) → run s = .error (.attributeNotFound name attr) ∧
      run s' = .error (.attributeNotFound name attr)) ∧
    (attr ∈ attributes.map (·.name) → ∃ e e', run s = .ok e ∧ run s' = .ok e' ∧
      (View.ofSource e.source).attributes? name = some (exchangeAll attr (new.map tidy) attributes) ∧
      (View.ofSource e'.source).attributes? name =
        some (exchangeFirst attr (new.map tidy) attributes) ∧
      ((View.ofSource e.source).attributes? name = (View.ofSource e'.source).attributes? name ↔
        ∀ a ∈ (attributes.filter (·.name = attr)).tail, new.map tidy = some a)) := by
  intro run
  have hop : ∀ {t x}, apply (.exchangeAttribute name attr new) t ids = x →
      applyOp .er (.er (.exchangeAttribute name attr new)) t ids = x := id
  have herror : ∀ {t err}, apply (.exchangeAttribute name attr new) t ids = (.error err, ids) →
      run t = .error err := by
    intro t err h
    simp only [run, applyOps, hop h]
  constructor
  · intro hmem
    refine ⟨herror (apply_exchangeAttribute_of_not_mem hinline.entity? (by simpa using hmem) new ids),
      herror (apply_exchangeAttribute_of_not_mem hblock.entity? ?_ new ids)⟩
    rwa [EntityRecord.ofBlock, map_snd_attributesFrom, hblock.attributes]
  · intro hmem
    obtain ⟨t, title', opener', inner', closer', happly, ht, hkept⟩ :=
      exists_isBlock_of_isInline hinline hlength hread hnew hkeep hmem ids
    obtain ⟨t', inner'', happly', ht', hkept'⟩ :=
      exists_isBlock_of_isBlock hblock hlength' hnew hkeep' hmem ids
    have hok := applyOps_singleton_of_eq (hop happly) ((hkept hbalance).trans hbalance.symm) earlier
    have hok' :=
      applyOps_singleton_of_eq (hop happly') ((hkept' hbalance').trans hbalance'.symm) earlier
    refine ⟨_, _, congrArg Prod.fst hok, congrArg Prod.fst hok', ht.attributes?_ofSource,
      ht'.attributes?_ofSource, ?_⟩
    rw [ht.attributes?_ofSource, ht'.attributes?_ofSource, Option.some.injEq]
    exact exchangeAll_eq_exchangeFirst_iff hmem

/-- An entity with a title and two attributes, the second of which is exchanged. -/
theorem applyOps_exchangeAttribute_titled :
    let front : List Text := ["erDiagram".toList, "B ||--|| A : r".toList]
    let line := "  A[t] \x7bint x PK string y \"c\"\x7d".toList
    let inner : List Text := ["%% the key".toList, "int x PK".toList, " string y \"c\"".toList]
    let s : Source := ⟨front ++ [line] ++ [['C']], false⟩
    let s' : Source := ⟨front ++ ("A[t] \x7b".toList :: inner ++ [['\x7d']]) ++ [['C']], true⟩
    let attributes : List Attribute :=
      [⟨"int".toList, ['x'], [.primary], none⟩, ⟨"string".toList, ['y'], [], some ['c']⟩]
    let new : Attribute := ⟨" int ".toList, ['z'], [.unique], some []⟩
    let run (s : Source) :=
      (applyOps .er [.er (.exchangeAttribute ['A'] ['y'] (some new))] ⟨s, none⟩ {}).1
    IsInline ['A'] (some ['t']) attributes front line [['C']] s ∧
      IsBlock ['A'] (some ['t']) attributes front "A[t] \x7b".toList inner ['\x7d'] [['C']] s' ∧
      s.checkBalance blockRules = .ok () ∧ s'.checkBalance blockRules = .ok () ∧
      s.length < indexBound ∧ s'.length < indexBound ∧ (∀ a ∈ attributes, a.ReadsBack) ∧
      (tidy new).ReadsBack ∧ KeepsUndeclared ['A'] ['y'] (some new) s ∧
      KeepsUndeclared ['A'] ['y'] (some new) s' ∧
      ∃ e e', run s = .ok e ∧ run s' = .ok e' ∧
        (View.ofSource e.source).attributes? ['A'] = (View.ofSource e'.source).attributes? ['A'] := by
  intro front line inner s s' attributes new run
  have hinline : IsInline ['A'] (some ['t']) attributes front line [['C']] s :=
    ⟨⟨rfl, by decide +kernel, by decide +kernel, by decide +kernel, by decide +kernel⟩, 2,
      by decide +kernel⟩
  have hblock : IsBlock ['A'] (some ['t']) attributes front "A[t] \x7b".toList inner ['\x7d'] [['C']]
      s' :=
    ⟨⟨rfl, by decide +kernel, by decide +kernel, by decide +kernel, by decide +kernel⟩,
      ⟨0, by decide +kernel⟩, by decide +kernel, by decide +kernel, by decide⟩
  have hbalance : s.checkBalance blockRules = .ok () := by decide +kernel
  have hbalance' : s'.checkBalance blockRules = .ok () := by decide +kernel
  have hlength : s.length < indexBound := by decide
  have hlength' : s'.length < indexBound := by decide
  have hread : ∀ a ∈ attributes, a.ReadsBack := by decide +kernel
  have hnew : (tidy new).ReadsBack := by decide +kernel
  have hkeep : KeepsUndeclared ['A'] ['y'] (some new) s :=
    fun h => absurd h (by decide +kernel)
  have hkeep' : KeepsUndeclared ['A'] ['y'] (some new) s' :=
    fun h => absurd h (by decide +kernel)
  obtain ⟨-, hmem⟩ := applyOps_exchangeAttribute hinline hblock hbalance hbalance' hlength hlength'
    hread (fun a ha => Option.some.inj ha ▸ hnew) hkeep hkeep' none {}
  obtain ⟨e, e', hok, hok', -, -, hsame⟩ := hmem (by decide)
  exact ⟨hinline, hblock, hbalance, hbalance', hlength, hlength', hread, hnew, hkeep, hkeep', e, e',
    hok, hok', hsame.2 (by decide)⟩

/-- Of two attributes of one name a block keeps the second one, and the other form keeps none. -/
theorem not_applyOps_exchangeAttribute :
    let line := "A \x7bint x string x\x7d".toList
    let inner : List Text := ["int x".toList, "string x".toList]
    let s : Source := ⟨["erDiagram".toList] ++ [line] ++ [], false⟩
    let s' : Source := ⟨["erDiagram".toList] ++ ("A \x7b".toList :: inner ++ [['\x7d']]) ++ [], false⟩
    let attributes : List Attribute :=
      [⟨"int".toList, ['x'], [], none⟩, ⟨"string".toList, ['x'], [], none⟩]
    let run (s : Source) := (applyOps .er [.er (.deleteAttribute ['A'] ['x'])] ⟨s, none⟩ {}).1
    IsInline ['A'] none attributes ["erDiagram".toList] line [] s ∧
      IsBlock ['A'] none attributes ["erDiagram".toList] "A \x7b".toList inner ['\x7d'] [] s' ∧
      s.checkBalance blockRules = .ok () ∧ s'.checkBalance blockRules = .ok () ∧
      (∀ a ∈ attributes, a.ReadsBack) ∧
      (run s).toOption.bind (fun e => (View.ofSource e.source).attributes? ['A']) = some [] ∧
      (run s').toOption.bind (fun e => (View.ofSource e.source).attributes? ['A']) =
        some [⟨"string".toList, ['x'], [], none⟩] := by
  intro line inner s s' attributes run
  have hinline : IsInline ['A'] none attributes ["erDiagram".toList] line [] s :=
    ⟨⟨rfl, by decide +kernel, by decide +kernel, by decide +kernel, nofun⟩, 0, by decide +kernel⟩
  have hblock : IsBlock ['A'] none attributes ["erDiagram".toList] "A \x7b".toList inner ['\x7d'] []
      s' :=
    ⟨⟨rfl, by decide +kernel, by decide +kernel, by decide +kernel, nofun⟩, ⟨0, by decide +kernel⟩,
      by decide +kernel, by decide +kernel, by decide⟩
  exact ⟨hinline, hblock, by decide +kernel, by decide +kernel, by decide +kernel, by decide +kernel,
    by decide +kernel⟩

end Edit.EntityRelation

end DiagramEditor
