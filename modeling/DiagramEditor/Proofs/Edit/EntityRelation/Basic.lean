import DiagramEditor.Edit.EntityRelation
import DiagramEditor.Proofs.Edit.Basic
import DiagramEditor.Proofs.Edit.Declared
import DiagramEditor.Proofs.Edit.Range
import DiagramEditor.Proofs.EntityRelation.View

/-!
# What edits of entity diagrams do

What an edit asks for is in the diagram when the edit succeeds. An edit of attributes has then changed
one line of the block that the entity is, or has written the entity anew.

Every line that an edit changes, deletes or writes in front of is one that the view remembers. So it
stands behind the declaration, which stays (`apply_declares`), and it is there when the edit gets to it
(`apply_inRange`). An entity that is written anew as a block goes where its old lines were, and these
reach no further than the source (`writeAsBlock_inRange`).
-/

namespace DiagramEditor.Edit.EntityRelation

open DiagramEditor.EntityRelation Text Source

variable {s : Source} {v : View} {front : List Text} {line name attr : Text} {e : EntityRecord}
  {new : Attribute} {attributes : List Attribute} {edited : Edited} {index : Nat}

/-! ## What is required -/

theorem requireEntity_eq_ok (h : requireEntity v name = .ok e) : v.entity? name = some e := by
  rw [requireEntity] at h
  split at h
  · next he => rw [he, Except.ok.inj h]
  · cases h

theorem isEntityName_of_checkEntity (h : Identifier.checkEntity name = .ok ())
    (hword : isWord name = true) : Relationship.isEntityName name = true :=
  Bool.and_eq_true_iff.2 ⟨all_of_check h, hword⟩

theorem requireEntity_of_mem (h : name ∈ v.names) : ∃ e, requireEntity v name = .ok e := by
  obtain ⟨e, he, hname⟩ := List.mem_map.1 h
  obtain ⟨found, hfound⟩ : ∃ found, v.entity? name = some found := by
    rw [← Option.isSome_iff_exists, View.entity?, List.find?_isSome]
    exact ⟨e, he, by simpa using hname⟩
  exact ⟨found, by rw [requireEntity, hfound]⟩

theorem requireAttribute_eq_ok {p : Nat × Attribute} (h : requireAttribute e attr = .ok p) :
    p ∈ e.attributes ∧ p.2.name = attr := by
  rw [requireAttribute] at h
  split at h
  · next hp =>
    cases h
    exact ⟨List.mem_of_find?_eq_some hp, by simpa using List.find?_some hp⟩
  · cases h

theorem requireRelationship_eq_ok {index : Nat} {r : RelationshipRecord}
    (h : requireRelationship v index = .ok r) : v.relationship? index = some r := by
  rw [requireRelationship] at h
  split at h
  · next hr => rw [hr, Except.ok.inj h]
  · cases h

/-- The block of an entity that is one takes several lines, and is its span. -/
theorem blockSpan?_eq_some {span : BlockSpan} (h : blockSpan? e = some span) :
    e.span = some span ∧ e.inline = false ∧ span.start ≠ span.stop := by
  obtain ⟨hspan, hcond⟩ := Option.filter_eq_some_iff.1 h
  rw [Bool.and_eq_true, Bool.not_eq_true', decide_eq_true_eq] at hcond
  exact ⟨hspan, hcond⟩

/-! ## Attributes -/

theorem addAttribute_eq_ok (h : addAttribute name new s = .ok edited) :
    ∃ e, (View.ofSource s).entity? name = some e ∧
      ((∃ span header, blockSpan? e = some span ∧ lineAt span.start s = .ok header ∧
          insertLines span.stop [indent header ++ indentStep ++ (tidy new).render] s =
            .ok edited.source) ∨
        (blockSpan? e = none ∧ writeAsBlock e (e.attributes.map Prod.snd ++ [tidy new])
          (View.ofSource s) s = .ok edited.source)) := by
  obtain ⟨e, he, h⟩ := bind_eq_ok.1 h
  refine ⟨e, requireEntity_eq_ok he, ?_⟩
  dsimp only at h
  split at h
  · next span hspan =>
    obtain ⟨header, hheader, h⟩ := bind_eq_ok.1 h
    obtain ⟨s', hs', h⟩ := bind_eq_ok.1 h
    cases h
    exact .inl ⟨span, header, hspan, hheader, hs'⟩
  · next hspan =>
    obtain ⟨s', hs', h⟩ := bind_eq_ok.1 h
    cases h
    exact .inr ⟨hspan, hs'⟩

theorem updateAttribute_eq_ok (h : updateAttribute name attr new s = .ok edited) :
    ∃ e i a, (View.ofSource s).entity? name = some e ∧ (i, a) ∈ e.attributes ∧ a.name = attr ∧
      ((∃ line, (blockSpan? e).isSome ∧ lineAt i s = .ok line ∧
          replaceLine i (indent line ++ (tidy new).render) s = .ok edited.source) ∨
        (blockSpan? e = none ∧ writeAsBlock e
          (e.attributes.map fun p => if p.2.name = attr then tidy new else p.2)
          (View.ofSource s) s = .ok edited.source)) := by
  obtain ⟨e, he, h⟩ := bind_eq_ok.1 h
  obtain ⟨⟨i, a⟩, ha, h⟩ := bind_eq_ok.1 h
  refine ⟨e, i, a, requireEntity_eq_ok he, (requireAttribute_eq_ok ha).1,
    (requireAttribute_eq_ok ha).2, ?_⟩
  dsimp only at h
  split at h
  · next hspan =>
    obtain ⟨line, hline, h⟩ := bind_eq_ok.1 h
    obtain ⟨s', hs', h⟩ := bind_eq_ok.1 h
    cases h
    exact .inl ⟨line, hspan, hline, hs'⟩
  · next hspan =>
    obtain ⟨s', hs', h⟩ := bind_eq_ok.1 h
    cases h
    exact .inr ⟨Option.not_isSome_iff_eq_none.1 hspan, hs'⟩

theorem deleteAttribute_eq_ok (h : deleteAttribute name attr s = .ok edited) :
    ∃ e i a, (View.ofSource s).entity? name = some e ∧ (i, a) ∈ e.attributes ∧ a.name = attr ∧
      (((blockSpan? e).isSome ∧ deleteLines i 1 s = .ok edited.source) ∨
        (blockSpan? e = none ∧ writeAsBlock e
          ((e.attributes.map Prod.snd).filter (·.name ≠ attr)) (View.ofSource s) s =
            .ok edited.source)) := by
  obtain ⟨e, he, h⟩ := bind_eq_ok.1 h
  obtain ⟨⟨i, a⟩, ha, h⟩ := bind_eq_ok.1 h
  refine ⟨e, i, a, requireEntity_eq_ok he, (requireAttribute_eq_ok ha).1,
    (requireAttribute_eq_ok ha).2, ?_⟩
  dsimp only at h
  split at h
  · next hspan =>
    obtain ⟨s', hs', h⟩ := bind_eq_ok.1 h
    cases h
    exact .inl ⟨hspan, hs'⟩
  · next hspan =>
    obtain ⟨s', hs', h⟩ := bind_eq_ok.1 h
    cases h
    exact .inr ⟨Option.not_isSome_iff_eq_none.1 hspan, hs'⟩

/-! ## The declaration stays -/

/-! ### Lines of the view -/

/-- The lines that the view remembers stand behind the declaration. -/
theorem isWithin_of_declares (h : Declares .er front line s) :
    (View.ofSource s).IsWithin (front.length < ·) :=
  (View.isWithin_ofSource s).mono fun _ ⟨_, hmem⟩ => h.lt_of_mem_body hmem

/-! ### Attributes -/

theorem writeAsBlock_declares {v : View} (h : Declares .er front line s)
    (he : e ∈ (View.ofSource s).entities) :
    Ensures (writeAsBlock e attributes v s) (Declares .er front line) := by
  rw [writeAsBlock]
  split
  · next span hspan =>
    have hlt := ((isWithin_of_declares h).spans e he span hspan).1
    exact .after fun _ _ => (deleteLines_declares h hlt).bind fun _ hs => insertLines_declares hs hlt
  · exact .ok (pushLines_declares h _)

theorem addAttribute_declares (h : Declares .er front line s) :
    LeavesDeclared .er front line (addAttribute name new s) := by
  intro edited hok
  obtain ⟨e, he, hok⟩ := addAttribute_eq_ok hok
  have he := (View.entity?_eq_some he).1
  rcases hok with ⟨span, header, hspan, -, hok⟩ | ⟨-, hok⟩
  · have hlt := (isWithin_of_declares h).spans e he span (blockSpan?_eq_some hspan).1
    exact insertLines_declares h hlt.2 _ hok
  · exact writeAsBlock_declares h he _ hok

theorem updateAttribute_declares (h : Declares .er front line s) :
    LeavesDeclared .er front line (updateAttribute name attr new s) := by
  intro edited hok
  obtain ⟨e, i, a, he, ha, -, hok⟩ := updateAttribute_eq_ok hok
  have he := (View.entity?_eq_some he).1
  rcases hok with ⟨text, -, -, hok⟩ | ⟨-, hok⟩
  · exact replaceLine_declares h ((isWithin_of_declares h).attributes e he _ ha) _ hok
  · exact writeAsBlock_declares h he _ hok

theorem deleteAttribute_declares (h : Declares .er front line s) :
    LeavesDeclared .er front line (deleteAttribute name attr s) := by
  intro edited hok
  obtain ⟨e, i, a, he, ha, -, hok⟩ := deleteAttribute_eq_ok hok
  have he := (View.entity?_eq_some he).1
  rcases hok with ⟨-, hok⟩ | ⟨-, hok⟩
  · exact deleteLines_declares h ((isWithin_of_declares h).attributes e he _ ha) _ hok
  · exact writeAsBlock_declares h he _ hok

/-! ### Entities -/

theorem writeEntity_declares (h : Declares .er front line s) :
    LeavesDeclared .er front line (writeEntity name s) := by
  rw [writeEntity, View.declarationLine_ofSource, ensureDeclaration_of_declares h]
  exact .ok (pushLines_declares h _)

theorem addEntity_declares (h : Declares .er front line s) (name : Option Text) (ids : IdAllocator) :
    LeavesDeclared .er front line (addEntity name s ids).1 := by
  cases name with
  | some name => exact .after fun _ _ => writeEntity_declares h
  | none => exact writeEntity_declares h

/-- The lines in front stay. -/
theorem take_renameIn (v : View) (start : Nat) (old new : Text) (s : Source) :
    (renameIn v start old new s).lines.take start = s.lines.take start := by
  refine List.ext_getElem? fun i => ?_
  rw [List.getElem?_take, List.getElem?_take]
  split
  · next hi => simp [renameIn, hi]
  · rfl

theorem renameEntity_declares {newName : Text} (h : Declares .er front line s) :
    LeavesDeclared .er front line (renameEntity name newName s) := by
  refine .after fun _ _ => .after fun _ _ => ?_
  split
  · exact .after fun _ h => nomatch h
  · refine .ok ?_
    rw [View.declarationLine_ofSource, h.declarationOf?]
    have hlines := (List.take_append_drop (front.length + 1)
      (renameIn (View.ofSource s) (front.length + 1) name newName s).lines).symm
    rw [take_renameIn] at hlines
    exact h.of_take (Nat.lt_succ_self front.length) hlines

theorem start_of_blockAt? {rules : BlockRules} {span : BlockSpan} {i : Nat}
    (h : s.blockAt? rules i = some span) : span.start = i := by
  obtain ⟨_, -, h⟩ := Option.bind_eq_some_iff.1 h
  obtain ⟨_, -, h⟩ := Option.bind_eq_some_iff.1 h
  obtain ⟨n, -, h⟩ := Option.bind_eq_some_iff.1 h
  cases h
  rfl

theorem le_of_mem_declarationLines {i j : Nat} {form : EntityForm}
    (h : i ∈ declarationLines s j form) : j ≤ i := by
  rw [declarationLines.eq_def] at h
  split at h
  · split at h
    · next span hspan =>
      obtain ⟨n, -, rfl⟩ := List.mem_map.1 h
      exact start_of_blockAt? hspan ▸ Nat.le_add_right _ _
    · exact (List.mem_singleton.1 h).ge
  · exact (List.mem_singleton.1 h).ge

theorem lt_of_mem_linesDeclaring (h : Declares .er front line s) {i : Nat}
    (hi : i ∈ linesDeclaring name (View.ofSource s) s) : front.length < i := by
  obtain ⟨⟨j, text⟩, hmem, hi⟩ := List.mem_flatMap.1 hi
  have hj := h.lt_of_mem_body hmem
  dsimp only at hi
  split at hi
  · cases hi
  · split at hi
    · split at hi
      · exact Nat.lt_of_lt_of_le hj (le_of_mem_declarationLines hi)
      · cases hi
    · cases hi

theorem deleteEntity_declares (h : Declares .er front line s) :
    LeavesDeclared .er front line (deleteEntity name s) := by
  refine .after fun _ _ => .ok (deleteLineSet_declares h fun i hi => ?_)
  rcases List.mem_append.1 hi with hi | hi
  · exact lt_of_mem_linesDeclaring h hi
  · obtain ⟨r, hr, rfl⟩ := List.mem_map.1 hi
    exact (isWithin_of_declares h).relationships r (List.mem_filter.1 hr).1

/-! ### Relationships -/

theorem addRelationship_declares {new : Relationship} (h : Declares .er front line s) :
    LeavesDeclared .er front line (addRelationship new s) :=
  .after fun _ _ => .after fun _ _ => .ok (pushLine_declares h _)

theorem updateRelationship_declares {index : Nat} {p : RelationshipPatch}
    (h : Declares .er front line s) :
    LeavesDeclared .er front line (updateRelationship index p s) := by
  refine .after fun r hr => .after fun _ _ => .after fun _ _ => .after fun _ _ => ?_
  have hmem := List.mem_of_getElem? (requireRelationship_eq_ok hr)
  have hlt := (isWithin_of_declares h).relationships r hmem
  exact (replaceLine_declares h hlt).bind fun _ hs => .ok hs

theorem deleteRelationship_declares {index : Nat} (h : Declares .er front line s) :
    LeavesDeclared .er front line (deleteRelationship index s) := by
  refine .after fun r hr => ?_
  have hmem := List.mem_of_getElem? (requireRelationship_eq_ok hr)
  have hlt := (isWithin_of_declares h).relationships r hmem
  exact (deleteLines_declares h hlt).bind fun _ hs => .ok hs

/-! ### All edits -/

/-- Every edit of an entity diagram leaves the declaration where it is. -/
theorem apply_declares (h : Declares .er front line s) (op : EntityOp) (ids : IdAllocator) :
    LeavesDeclared .er front line (apply op s ids).1 := by
  cases op with
  | addEntity name => exact addEntity_declares h name ids
  | renameEntity => exact renameEntity_declares h
  | deleteEntity => exact deleteEntity_declares h
  | addAttribute => exact addAttribute_declares h
  | updateAttribute => exact updateAttribute_declares h
  | deleteAttribute => exact deleteAttribute_declares h
  | addRelationship => exact addRelationship_declares h
  | updateRelationship => exact updateRelationship_declares h
  | deleteRelationship => exact deleteRelationship_declares h

/-- The declaration is where it was, unless the edit has made one. -/
theorem declarationOf?_apply {edited : Edited} (op : EntityOp) (ids : IdAllocator)
    (hok : (apply op s ids).1 = .ok edited)
    (hnone : s.declarationOf? .er = none → edited.source.declarationOf? .er = none) :
    edited.source.declarationOf? .er = s.declarationOf? .er := by
  cases hd : s.declarationOf? .er with
  | none => exact hnone hd
  | some d =>
    obtain ⟨front, line, hs⟩ := exists_declares_of_declarationOf? hd
    rw [(apply_declares hs op ids edited hok).declarationOf?, ← hd, hs.declarationOf?]

/-! ## Lines that are there -/

/-! ### What edits ask for -/

theorem requireEntity_inRange : InRange (requireEntity v name) := by
  rw [requireEntity]
  split
  exacts [.ok _, .error rfl]

theorem requireAttribute_inRange : InRange (requireAttribute e name) := by
  rw [requireAttribute]
  split
  exacts [.ok _, .error rfl]

theorem requireRelationship_inRange : InRange (requireRelationship v index) := by
  rw [requireRelationship]
  split
  exacts [.ok _, .error rfl]

/-- The names that a patch gives are asked for one by one. -/
theorem forM_requireEntity_inRange (name : Option Text) :
    InRange (name.forM fun name => discard (requireEntity v name)) := by
  cases name with
  | none => exact .ok _
  | some name => exact .map requireEntity_inRange

/-- The lines that the view remembers are there. -/
theorem isWithin_length (s : Source) : (View.ofSource s).IsWithin (· < s.length) :=
  (View.isWithin_ofSource s).mono fun _ h => (exists_mem_body_iff.1 h).2

/-! ### Attributes -/

theorem writeAsBlock_inRange {attributes : List Attribute} (he : e ∈ (View.ofSource s).entities) :
    InRange (writeAsBlock e attributes v s) := by
  rw [writeAsBlock]
  split
  · next span hspan =>
    obtain ⟨hstart, hstop⟩ := (isWithin_length s).spans e he span hspan
    have hle := (View.isTraced_ofSource s e he).le span hspan
    have hlength : span.start + span.length ≤ s.length := by
      rw [BlockSpan.length]
      omega
    refine .bind (lineAt_inRange hstart) fun _ _ => .bind (deleteLines_inRange hlength) fun s' hs' => ?_
    exact insertLines_inRange (le_length_deleteLines (Nat.le_of_lt hstart) hs').1
  · exact .ok _

theorem mem_entities_of_requireEntity (he : requireEntity (View.ofSource s) name = .ok e) :
    e ∈ (View.ofSource s).entities :=
  (View.entity?_eq_some (requireEntity_eq_ok he)).1

theorem addAttribute_inRange : InRange (addAttribute name new s) := by
  refine .bind requireEntity_inRange fun e he => ?_
  have he := mem_entities_of_requireEntity he
  dsimp only
  split
  · next span hspan =>
    have hlt := (isWithin_length s).spans e he span (blockSpan?_eq_some hspan).1
    refine .bind (lineAt_inRange hlt.1) fun _ _ => ?_
    exact .bind (insertLines_inRange (Nat.le_of_lt hlt.2)) fun _ _ => .ok _
  · exact .bind (writeAsBlock_inRange he) fun _ _ => .ok _

/-- The line of an attribute that was asked for. -/
theorem lt_of_requireAttribute (he : e ∈ (View.ofSource s).entities) {p : Nat × Attribute}
    (hp : requireAttribute e name = .ok p) : p.1 < s.length :=
  (isWithin_length s).attributes e he p (requireAttribute_eq_ok hp).1

theorem updateAttribute_inRange : InRange (updateAttribute name attr new s) := by
  refine .bind requireEntity_inRange fun e he => .bind requireAttribute_inRange fun p hp => ?_
  have he := mem_entities_of_requireEntity he
  have hlt := lt_of_requireAttribute he hp
  dsimp only
  split
  · exact .bind (lineAt_inRange hlt) fun _ _ => .bind (replaceLine_inRange hlt) fun _ _ => .ok _
  · exact .bind (writeAsBlock_inRange he) fun _ _ => .ok _

theorem deleteAttribute_inRange : InRange (deleteAttribute name attr s) := by
  refine .bind requireEntity_inRange fun e he => .bind requireAttribute_inRange fun p hp => ?_
  have he := mem_entities_of_requireEntity he
  have hlt := lt_of_requireAttribute he hp
  dsimp only
  split
  · exact .bind (deleteLines_inRange (Nat.succ_le_of_lt hlt)) fun _ _ => .ok _
  · exact .bind (writeAsBlock_inRange he) fun _ _ => .ok _

/-! ### Entities -/

theorem writeEntity_inRange : InRange (writeEntity name s) :=
  .bind ensureDeclaration_inRange fun _ _ => .ok _

theorem requireNewName_inRange : InRange (requireNewName v name) := by
  refine .bind requireIdentifier_inRange fun _ _ => ?_
  split
  exacts [.error rfl, .ok _]

theorem addEntity_inRange (name : Option Text) (ids : IdAllocator) :
    InRange (addEntity name s ids).1 := by
  cases name with
  | some name => exact .bind requireNewName_inRange fun _ _ => writeEntity_inRange
  | none => exact writeEntity_inRange

theorem renameEntity_inRange {newName : Text} : InRange (renameEntity name newName s) := by
  refine .bind requireEntity_inRange fun _ _ => .bind requireIdentifier_inRange fun _ _ => ?_
  split
  exacts [.error rfl, .ok _]

theorem deleteEntity_inRange : InRange (deleteEntity name s) :=
  .bind requireEntity_inRange fun _ _ => .ok _

/-! ### Relationships -/

theorem addRelationship_inRange {new : Relationship} : InRange (addRelationship new s) :=
  .bind requireEntity_inRange fun _ _ => .bind requireEntity_inRange fun _ _ => .ok _

/-- The line of a relationship that was asked for. -/
theorem lt_of_requireRelationship {r : RelationshipRecord}
    (hr : requireRelationship (View.ofSource s) index = .ok r) : r.line < s.length :=
  (isWithin_length s).relationships r (List.mem_of_getElem? (requireRelationship_eq_ok hr))

theorem updateRelationship_inRange {p : RelationshipPatch} :
    InRange (updateRelationship index p s) := by
  refine .bind requireRelationship_inRange fun r hr => ?_
  refine .bind (forM_requireEntity_inRange _) fun _ _ => ?_
  refine .bind (forM_requireEntity_inRange _) fun _ _ => ?_
  have hlt := lt_of_requireRelationship hr
  exact .bind (lineAt_inRange hlt) fun _ _ => .bind (replaceLine_inRange hlt) fun _ _ => .ok _

theorem deleteRelationship_inRange : InRange (deleteRelationship index s) := by
  refine .bind requireRelationship_inRange fun r hr => ?_
  exact .bind (deleteLines_inRange (Nat.succ_le_of_lt (lt_of_requireRelationship hr))) fun _ _ => .ok _

/-! ### All edits -/

/-- No edit of an entity diagram asks for a line that is not there. -/
theorem apply_inRange (op : EntityOp) (s : Source) (ids : IdAllocator) :
    InRange (apply op s ids).1 := by
  cases op with
  | addEntity name => exact addEntity_inRange name ids
  | renameEntity => exact renameEntity_inRange
  | deleteEntity => exact deleteEntity_inRange
  | addAttribute => exact addAttribute_inRange
  | updateAttribute => exact updateAttribute_inRange
  | deleteAttribute => exact deleteAttribute_inRange
  | addRelationship => exact addRelationship_inRange
  | updateRelationship => exact updateRelationship_inRange
  | deleteRelationship => exact deleteRelationship_inRange

end DiagramEditor.Edit.EntityRelation
