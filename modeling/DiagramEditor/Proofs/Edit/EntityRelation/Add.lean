import DiagramEditor.Proofs.Edit.Batch
import DiagramEditor.Proofs.Edit.Declared
import DiagramEditor.Proofs.Edit.EntityRelation.Basic
import DiagramEditor.Proofs.EntityRelation.Growth
import DiagramEditor.Proofs.EntityRelation.Redraw
import DiagramEditor.Proofs.Identifier.Fresh
import DiagramEditor.Proofs.Source.Reload
import DiagramEditor.Proofs.Text.Numeral

/-!
# Entities and relationships that are added

A new entity is a block at the end of the source, below a declaration that is put on top if there is
none (`IsGround`). A name may be accepted and yet be none that a line can begin with: names of digits
and dashes are. The view has the new entity, and relationships to it can be added, exactly if its name
begins with a letter or an underscore (`applyOps_addEntity`), as the names of the allocator do
(`isEntityName_freshEntity`).
-/

namespace DiagramEditor

namespace Edit.EntityRelation

open DiagramEditor.EntityRelation Text Source

variable {s s₁ s' : Source} {name w : Text} {rel : Relationship} {ids : IdAllocator}

/-! ## Declarations -/

/-- The number of lines that a declaration takes on top of the source. -/
def topLines (s : Source) : Nat :=
  if (s.declarationOf? .er).isSome then 0 else 1

/-- The second source is the first one with a declaration. -/
structure IsGround (s s₁ : Source) : Prop where
  declares : ∃ front line, Declares .er front line s₁
  moved : View.IsMoved (· + topLines s) (View.ofSource s) (View.ofSource s₁)
  length : s₁.length = s.length + topLines s
  balance : s.checkBalance blockRules = .ok () → s₁.checkBalance blockRules = .ok ()

theorem exists_ensureDeclaration (s : Source) : ∃ s₁ d,
    ensureDeclaration .er (s.declarationOf? .er) s = .ok (s₁, d) ∧ IsGround s s₁ := by
  obtain ⟨s₁, hensure, hground⟩ := Edit.exists_ensureDeclaration .er s
  exact ⟨s₁, _, hensure, exists_declares_of_declarationOf? hground.declaration,
    View.isMoved_ofSource hground.body, hground.length, hground.balance⟩

/-! ## Entities -/

/-- What opens the block of a name opens one, also where it is not read as the header of an entity. -/
theorem blockStep_opener (hw : IsBlank w) (hne : name ≠ [])
    (hchars : ∀ c ∈ name, Identifier.isEntityChar c = true) :
    blockStep blockRules (w ++ (name ++ [' ', '\x7b'])) = .enter := by
  -- The line need not be a header, so it is looked at as a text.
  obtain ⟨c, rest, rfl⟩ := List.exists_cons_of_ne_nil hne
  have hc := hchars c List.mem_cons_self
  have htrim : trim (w ++ (c :: rest ++ [' ', '\x7b'])) = c :: rest ++ [' ', '\x7b'] := by
    rw [trim_of_isBlank_append hw, trim_eq_self ⟨?_, ?_⟩]
    · rintro _ ⟨⟩
      exact Identifier.isSpace_of_isEntityChar hc
    · rw [List.getLast?_append_of_ne_nil _ (List.cons_ne_nil _ _)]
      rintro _ ⟨⟩
      decide
  refine blockStep_eq_enter_iff.2 ?_
  rw [htrim]
  refine isBlockOpen_iff.2 ⟨?_, ?_⟩
  · rw [List.getLast?_append_of_ne_nil _ (List.cons_ne_nil _ _)]
    rfl
  · rintro ⟨rest', hrest⟩
    rw [(List.cons.inj hrest).1] at hc
    exact absurd hc (by decide)

/-- The block of a new entity is balanced. -/
theorem checkBalanceFrom_renderBlock (hw : IsBlank w) (hne : name ≠ [])
    (hchars : ∀ c ∈ name, Identifier.isEntityChar c = true) (index : Nat) :
    checkBalanceFrom blockRules index [] (renderBlock w name [defaultKey]) = .ok () := by
  have hattribute : blockStep blockRules (w ++ "    ".toList ++ defaultKey.render) = .stay := by
    rw [List.append_assoc, blockStep, trim_of_isBlank_append hw]
    decide
  have hclose : blockStep blockRules (w ++ ['\x7d']) = .leave := by
    rw [blockStep, trim_of_isBlank_append hw]
    decide
  rw [renderBlock_singleton]
  simp only [checkBalanceFrom, blockStep_opener hw hne hchars, hattribute, hclose]

/-- A new entity can always be written, and leaves the blocks balanced. -/
theorem exists_writeEntity (hbalance : s.checkBalance blockRules = .ok ()) (hne : name ≠ [])
    (hchars : ∀ c ∈ name, Identifier.isEntityChar c = true) : ∃ s₁ s' w, IsGround s s₁ ∧ IsBlank w ∧
      writeEntity name s = .ok ⟨s', some (.entity name)⟩ ∧
      s'.lines = s₁.lines ++ renderBlock w name [defaultKey] ∧
      s'.declarationOf? .er = s₁.declarationOf? .er ∧ s'.checkBalance blockRules = .ok () := by
  obtain ⟨s₁, d, hensure, hground⟩ := exists_ensureDeclaration s
  obtain ⟨front, line, hdecl⟩ := hground.declares
  have hw := isBlank_bodyIndent (some d) s₁
  have hlines := lines_pushLines (renderBlock (bodyIndent (some d) s₁) name [defaultKey]) s₁
  refine ⟨s₁, _, _, hground, hw, ?_, hlines, ?_, ?_⟩
  · rw [writeEntity, View.declarationLine_ofSource, hensure]
    rfl
  · rw [(pushLines_declares hdecl _).declarationOf?, hdecl.declarationOf?]
  · -- The block stands behind all others, where none is open.
    rw [checkBalance, hlines, checkBalanceFrom_append_of_ok (hground.balance hbalance)]
    exact checkBalanceFrom_renderBlock hw hne hchars _

/-! ## Relationships -/

/-- The label comes back as it was written, and the line ends with no brace. -/
structure HasPlainLabel (rel : Relationship) : Prop where
  trim : Text.trim rel.label = rel.label
  unquote : Text.unquote rel.writtenLabel = rel.label
  brace : rel.writtenLabel.getLast? ≠ some '\x7b'

theorem isEntityName_of_mem_names (h : name ∈ (View.ofSource s).names) :
    Relationship.isEntityName name = true := by
  obtain ⟨e, he, rfl⟩ := List.mem_map.1 h
  exact View.isEntityName_of_mem he

/-- Between two entities of the view a line is written at the end. -/
theorem exists_addRelationship_eq (htrim : Text.trim rel.label = rel.label)
    (h1 : rel.entity1 ∈ (View.ofSource s).names) (h2 : rel.entity2 ∈ (View.ofSource s).names) :
    ∃ w, IsBlank w ∧ addRelationship rel s = .ok ⟨s.pushLine (rel.render w),
      some (.relationship (View.ofSource s).relationships.length)⟩ := by
  obtain ⟨e1, he1⟩ := requireEntity_of_mem h1
  obtain ⟨e2, he2⟩ := requireEntity_of_mem h2
  refine ⟨_, isBlank_bodyIndent (View.ofSource s).declarationLine s, ?_⟩
  simp only [addRelationship, he1, he2, bind, Except.bind, htrim]
  rfl

/-- A relationship with a plain label can be added between any two entities of the view. -/
theorem applyOps_addRelationship (hdecl : s.declarationOf? .er ≠ none)
    (hbalance : s.checkBalance blockRules = .ok ()) (hlabel : HasPlainLabel rel)
    (h1 : rel.entity1 ∈ (View.ofSource s).names) (h2 : rel.entity2 ∈ (View.ofSource s).names)
    (earlier : Option Handle) (ids : IdAllocator) :
    ∃ e, (applyOps .er [.er (.addRelationship rel)] ⟨s, earlier⟩ ids).1 = .ok e ∧
      View.ofSource e.source = (View.ofSource s).addRelationship s.length rel := by
  obtain ⟨d, hd⟩ := Option.ne_none_iff_exists'.1 hdecl
  obtain ⟨front, line, hdecl⟩ := exists_declares_of_declarationOf? hd
  obtain ⟨w, hw, hadd⟩ := exists_addRelationship_eq hlabel.trim h1 h2
  have hname1 := isEntityName_of_mem_names h1
  have hread : Relationship.ofLine? (rel.render w) = some rel := by
    rw [Relationship.ofLine?_render hw hname1 (isEntityName_of_mem_names h2), hlabel.unquote]
  have hstay : blockStep blockRules (rel.render w) = .stay := by
    rw [Relationship.blockStep_of_ofLine? hread, Relationship.trim_render hw hname1,
      Relationship.getLast?_written, if_neg hlabel.brace]
  have hview := View.ofSource_append hbalance
    ((pushLine_declares hdecl (rel.render w)).declarationOf?.trans hdecl.declarationOf?.symm) rfl
  rw [Reader.readAll_newRelationship hread h1 h2] at hview
  have hop : applyOp .er (.er (.addRelationship rel)) s ids = (.ok ⟨s.pushLine (rel.render w),
      some (.relationship (View.ofSource s).relationships.length)⟩, ids) := congrArg (·, ids) hadd
  exact ⟨_, congrArg Prod.fst (applyOps_singleton_of_eq hop
    (checkBalanceFrom_append hstay 0 [] s.lines) earlier), hview⟩

/-! ## The edit -/

/-- The second source has one more entity with a key and is the first one otherwise, and relationships
can be added to it. -/
structure AddsEntity (name : Text) (s s' : Source) : Prop where
  entities : (View.ofSource s').entities =
    (View.ofSource s).entities.map (·.moved (· + topLines s)) ++
      [newEntity name defaultKey (s.length + topLines s)]
  relationships : (View.ofSource s').relationships =
    (View.ofSource s).relationships.map (·.moved (· + topLines s))
  related : ∀ rel : Relationship, rel.label = ['r'] → rel.entity1 ∈ (View.ofSource s').names →
    rel.entity2 ∈ (View.ofSource s').names → ∀ earlier ids, ∃ e,
      (applyOps .er [.er (.addRelationship rel)] ⟨s', earlier⟩ ids).1 = .ok e ∧
        View.ofSource e.source = (View.ofSource s').addRelationship s'.length rel

theorem isWritable_defaultKey : defaultKey.IsWritable :=
  ⟨Attribute.isName_of_all (by decide +kernel) (by decide +kernel),
    Attribute.isName_of_all (by decide +kernel) (by decide +kernel), nofun⟩

/-- A new name is written as a new entity. -/
theorem exists_addsEntity (hbalance : s.checkBalance blockRules = .ok ())
    (hname : Relationship.isEntityName name = true) (hnew : name ∉ (View.ofSource s).names) :
    ∃ s', writeEntity name s = .ok ⟨s', some (.entity name)⟩ ∧
      s'.checkBalance blockRules = .ok () ∧ AddsEntity name s s' := by
  obtain ⟨s₁, s', w, hground, hw, hwrite, hlines, hdecl, hbalance'⟩ :=
    exists_writeEntity hbalance (Relationship.ne_nil_of_isEntityName hname)
      fun _ => Relationship.isEntityChar_of_mem hname
  have hnames : (View.ofSource s₁).names = (View.ofSource s).names := by
    rw [View.names, View.names, hground.moved.entities, List.map_map]
    rfl
  have hview := View.ofSource_append (hground.balance hbalance) hdecl hlines
  have hcomment : ∀ text ∈ defaultKey.comment, '\x7b' ∉ text ∧ '\x7d' ∉ text := by
    rintro _ ⟨⟩
  rw [Reader.readAll_newBlock hw hname (hnames ▸ hnew) isWritable_defaultKey hcomment] at hview
  refine ⟨s', hwrite, hbalance', ?_, ?_, fun rel hlabel h1 h2 => ?_⟩
  · rw [hview, ← hground.moved.entities, ← hground.length]
  · rw [hview, ← hground.moved.relationships]
  · obtain ⟨front, line, hdeclares⟩ := hground.declares
    refine applyOps_addRelationship ?_ hbalance' ?_ h1 h2
    · rw [hdecl, hdeclares.declarationOf?]
      exact Option.some_ne_none _
    · have hwritten : rel.writtenLabel = ['r'] := by
        rw [Relationship.writtenLabel, hlabel]
        decide
      exact ⟨by rw [hlabel]; decide, by rw [hwritten, hlabel]; decide, by rw [hwritten]; decide⟩

/-- A name that is accepted and that no entity has is written. -/
theorem addEntity_some_eq (hcheck : Identifier.checkEntity name = .ok ())
    (hnew : name ∉ (View.ofSource s).names) :
    addEntity (some name) s ids = (writeEntity name s, ids) := by
  have hrequire : requireNewName (View.ofSource s) name = .ok () := by
    simp [requireNewName, requireIdentifier_eq_ok_iff.2 hcheck, hnew, bind, Except.bind, pure,
      Except.pure]
  rw [addEntity, hrequire]
  rfl

/-- The names of the allocator are entity names. -/
theorem isEntityName_freshEntity (taken : List Text) (ids : IdAllocator) :
    Relationship.isEntityName (ids.freshEntity taken).1 = true := by
  rw [IdAllocator.freshEntity, Relationship.isEntityName, Bool.and_eq_true, List.all_eq_true]
  have hword : (Unicode.isAlphabetic 'E' || 'E' == '_') = true := by decide
  refine ⟨fun c hc => ?_, hword⟩
  rcases List.mem_append.1 hc with hc | hc
  · exact List.all_eq_true.1 (by decide) c hc
  · exact Bool.or_eq_true_iff.2 (.inl (Identifier.isIdentChar_of_isDigit (isDigit_of_mem_ofNat hc)))

/-- An edit that writes an entity is accepted, and reports it. -/
theorem applyOps_of_writeEntity {name? : Option Text} {ids' : IdAllocator}
    (hadd : addEntity name? s ids = (writeEntity name s, ids'))
    (hwrite : writeEntity name s = .ok ⟨s', some (.entity name)⟩)
    (hbalance : s.checkBalance blockRules = .ok ()) (hbalance' : s'.checkBalance blockRules = .ok ())
    (earlier : Option Handle) :
    (applyOps .er [.er (.addEntity name?)] ⟨s, earlier⟩ ids).1 = .ok ⟨s', some (.entity name)⟩ := by
  have hop : applyOp .er (.er (.addEntity name?)) s ids = (.ok ⟨s', some (.entity name)⟩, ids') :=
    hadd.trans (congrArg (·, ids') hwrite)
  exact congrArg Prod.fst (applyOps_singleton_of_eq hop (hbalance'.trans hbalance.symm) earlier)

/-- In a balanced source every new name that is accepted can be added, and the view has a new entity of
this name exactly if it begins with a letter or an underscore. The names of the allocator always do, as
long as there are serial numbers left. -/
theorem applyOps_addEntity (hbalance : s.checkBalance blockRules = .ok ()) (earlier : Option Handle)
    (ids : IdAllocator) :
    (∀ name, Identifier.checkEntity name = .ok () → name ∉ (View.ofSource s).names →
      ∃ e, (applyOps .er [.er (.addEntity (some name))] ⟨s, earlier⟩ ids).1 = .ok e ∧
        e.handle = some (.entity name) ∧ (AddsEntity name s e.source ↔ isWord name = true)) ∧
    ((ids.freshEntity (View.ofSource s).names).2.entities < Fresh.lastSerial →
      ∃ name e, (applyOps .er [.er (.addEntity none)] ⟨s, earlier⟩ ids).1 = .ok e ∧
        e.handle = some (.entity name) ∧ AddsEntity name s e.source) := by
  constructor
  · intro name hcheck hnew
    obtain ⟨s₁, s', w, -, -, hwrite, -, -, hbalance'⟩ := exists_writeEntity hbalance
      (ne_nil_of_check hcheck) (List.all_eq_true.1 (all_of_check hcheck))
    refine ⟨_, applyOps_of_writeEntity (addEntity_some_eq hcheck hnew) hwrite hbalance hbalance' earlier,
      rfl, fun h => ?_, fun hword => ?_⟩
    · -- The names of a view are such that lines can begin with them.
      have hmem : newEntity name defaultKey (s.length + topLines s) ∈ (View.ofSource s').entities := by
        rw [h.entities]
        exact List.mem_append_right _ List.mem_cons_self
      exact (Bool.and_eq_true_iff.1 (View.isEntityName_of_mem hmem)).2
    · -- What is written does not depend on how the name begins.
      obtain ⟨s'', hwrite', -, hadds⟩ :=
        exists_addsEntity hbalance (isEntityName_of_checkEntity hcheck hword) hnew
      obtain rfl : s' = s'' := congrArg Edited.source (Except.ok.inj (hwrite.symm.trans hwrite'))
      exact hadds
  · intro hserial
    have hnew : (ids.freshEntity (View.ofSource s).names).1 ∉ (View.ofSource s).names :=
      Fresh.firstFree_notMem (Fresh.numberedName_injective _) hserial
    obtain ⟨s', hwrite, hbalance', hadds⟩ :=
      exists_addsEntity hbalance (isEntityName_freshEntity _ ids) hnew
    exact ⟨_, _, applyOps_of_writeEntity rfl hwrite hbalance hbalance' earlier, rfl, hadds⟩

/-- A source without a declaration, in which the name that the allocator would give first is taken. -/
theorem applyOps_addEntity_undeclared :
    let s : Source := .ofText "ENTITY1 \x7b\nint x\n\x7d\nENTITY1 ||--|| B : has".toList
    let name : Text := "_a-b".toList
    s.checkBalance blockRules = .ok () ∧ Identifier.checkEntity name = .ok () ∧
      name ∉ (View.ofSource s).names ∧
      (∃ e, (applyOps .er [.er (.addEntity (some name))] ⟨s, none⟩ {}).1 = .ok e ∧
        e.handle = some (.entity name) ∧ AddsEntity name s e.source) ∧
      (IdAllocator.freshEntity (View.ofSource s).names {}).2.entities < Fresh.lastSerial ∧
      ∃ name e, (applyOps .er [.er (.addEntity none)] ⟨s, none⟩ {}).1 = .ok e ∧
        e.handle = some (.entity name) ∧ AddsEntity name s e.source := by
  intro s name
  have hbalance : s.checkBalance blockRules = .ok () := by decide +kernel
  have hcheck : Identifier.checkEntity name = .ok () := by decide +kernel
  have hnew : name ∉ (View.ofSource s).names := by decide +kernel
  have hword : isWord name = true := by decide +kernel
  have hserial : (IdAllocator.freshEntity (View.ofSource s).names {}).2.entities < Fresh.lastSerial := by
    decide +kernel
  obtain ⟨hchosen, hallocated⟩ := applyOps_addEntity hbalance none {}
  obtain ⟨e, hok, hhandle, hadds⟩ := hchosen name hcheck hnew
  exact ⟨hbalance, hcheck, hnew, ⟨e, hok, hhandle, hadds.2 hword⟩, hserial, hallocated hserial⟩

/-- A name that begins with a digit is accepted and written, but the view does not have it, and nothing
can be related to it. -/
theorem not_applyOps_addEntity :
    let s : Source := .ofText "erDiagram\nA".toList
    let s' : Source := .ofText "erDiagram\nA\n1A \x7b\n    string id PK\n\x7d".toList
    let name : Text := "1A".toList
    s.checkBalance blockRules = .ok () ∧ Identifier.checkEntity name = .ok () ∧
      name ∉ (View.ofSource s).names ∧
      (applyOps .er [.er (.addEntity (some name))] ⟨s, none⟩ {}).1 = .ok ⟨s', some (.entity name)⟩ ∧
      (View.ofSource s').names = [['A']] ∧
      (applyOps .er [.er (.addRelationship ⟨name, .exactlyOne, .identifying, .exactlyOne, ['A'], ['r']⟩)]
        ⟨s', none⟩ {}).1 = .error (.entityNotFound name) := by
  decide +kernel

end Edit.EntityRelation

end DiagramEditor
