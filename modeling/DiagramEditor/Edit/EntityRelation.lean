import DiagramEditor.Edit.Basic
import DiagramEditor.Edit.Op
import DiagramEditor.EntityRelation.View

/-!
# Edits of entity diagrams

The edits of attributes, of entities as a whole and of relationships, and `apply`, which applies one
edit to the source of an entity diagram.
-/

namespace DiagramEditor.Edit.EntityRelation

open DiagramEditor.EntityRelation

/-!
## Attributes of an entity

An entity that is a block of lines gets its attributes edited line by line. An entity in any other
form is written anew as a block, in place of its lines, or at the end of the source if no line
declares it (`writeAsBlock`).
-/

/-- The entity with this name. -/
def requireEntity (v : View) (name : Text) : Except EditError EntityRecord :=
  match v.entity? name with
  | some e => .ok e
  | none => .error (.entityNotFound name)

/-- The first attribute with this name, with its line. -/
def requireAttribute (e : EntityRecord) (name : Text) : Except EditError (Nat × Attribute) :=
  match e.attributes.find? (·.2.name = name) with
  | some a => .ok a
  | none => .error (.attributeNotFound e.name name)

/-- The block of lines that the entity is, if it is one. -/
def blockSpan? (e : EntityRecord) : Option BlockSpan :=
  e.span.filter fun span => !e.inline && span.start ≠ span.stop

/-- The name of the entity with its title, as a header has them. -/
def headerText (e : EntityRecord) : Text :=
  match e.title with
  | some title => e.name ++ '[' :: Text.quote title ++ [']']
  | none => e.name

/-- The attributes as the user gives them: type and name without blanks around them, and without
an empty comment. -/
def tidy (a : Attribute) : Attribute :=
  { a with
    type := Text.trim a.type
    name := Text.trim a.name
    comment := a.comment.filter fun comment => !comment.isEmpty }

/-- The source with the entity written as a block of these attributes. -/
def writeAsBlock (e : EntityRecord) (attributes : List Attribute) (v : View) (s : Source) :
    Except EditError Source :=
  match e.span with
  | some span => do
    let indent := Text.indent (← lineAt span.start s)
    let s ← deleteLines span.start span.length s
    insertLines span.start (renderBlock indent (headerText e) attributes) s
  | none =>
    let indent := bodyIndent v.declarationLine s
    .ok ((renderBlock indent (headerText e) attributes).foldl (fun s line => s.pushLine line) s)

/-- The entity with one more attribute. -/
def addAttribute (entity : Text) (new : Attribute) (s : Source) : Except EditError Edited := do
  let v := View.ofSource s
  let e ← requireEntity v entity
  let s ← match blockSpan? e with
    | some span => do
      let header ← lineAt span.start s
      insertLines span.stop [Text.indent header ++ indentStep ++ (tidy new).render] s
    | none => writeAsBlock e (e.attributes.map Prod.snd ++ [tidy new]) v s
  return ⟨s, some (.entity entity)⟩

/-- The entity with an attribute replaced. In a block it is the first one with the name, in any
other form it is every one. -/
def updateAttribute (entity name : Text) (new : Attribute) (s : Source) :
    Except EditError Edited := do
  let v := View.ofSource s
  let e ← requireEntity v entity
  let (line, _) ← requireAttribute e name
  let s ← if (blockSpan? e).isSome then do
      let indent := Text.indent (← lineAt line s)
      replaceLine line (indent ++ (tidy new).render) s
    else
      let attributes := e.attributes.map fun (_, a) => if a.name = name then tidy new else a
      writeAsBlock e attributes v s
  return ⟨s, some (.entity entity)⟩

/-- The entity without an attribute. In a block it is the first one with the name, in any other
form it is every one. -/
def deleteAttribute (entity name : Text) (s : Source) : Except EditError Edited := do
  let v := View.ofSource s
  let e ← requireEntity v entity
  let (line, _) ← requireAttribute e name
  let s ← if (blockSpan? e).isSome then deleteLines line 1 s
    else writeAsBlock e ((e.attributes.map Prod.snd).filter (·.name ≠ name)) v s
  return ⟨s, some (.entity entity)⟩

/-!
## Entities as a whole

A new entity is written at the end of the source as a block with a key. A renamed entity is
renamed wherever its name stands as a whole word outside of quotes, attribute lines of blocks
excepted. A deleted entity goes with all lines that declare it and with its relationships.
-/

/-- The attribute that a new entity has. -/
def defaultKey : Attribute :=
  ⟨"string".toList, "id".toList, [.primary], none⟩

/-- The source with an entity written at its end. -/
def writeEntity (name : Text) (s : Source) : Except EditError Edited := do
  let (s, declaration) ← ensureDeclaration .er (View.ofSource s).declarationLine s
  let indent := bodyIndent (some declaration) s
  return ⟨(renderBlock indent name [defaultKey]).foldl (fun s line => s.pushLine line) s,
    some (.entity name)⟩

/-- The name is an entity name that the diagram does not use yet. -/
def requireNewName (v : View) (name : Text) : Except EditError Unit := do
  requireIdentifier (Identifier.checkEntity name) name
  if v.names.contains name then throw (.alreadyExists name)

/-- A new entity. -/
def addEntity (name : Option Text) (s : Source) (ids : IdAllocator) :
    Except EditError Edited × IdAllocator :=
  let v := View.ofSource s
  match name with
  | some name => ((requireNewName v name).bind fun _ => writeEntity name s, ids)
  | none =>
    let (name, ids) := ids.freshEntity v.names
    (writeEntity name s, ids)

/-! ## Renaming -/

/-- The line holds attributes and nothing that names an entity. -/
def isAttributeLine (v : View) (line : Nat) : Bool :=
  v.entities.any (fun e => e.attributes.any fun a => a.1 = line) &&
    !v.entities.any fun e => e.inline && e.span.any fun span => span.start = line

/-- The source with the word `old` written as `new` in every line from `start` on, attribute lines
excepted. -/
def renameIn (v : View) (start : Nat) (old new : Text) (s : Source) : Source :=
  { s with
    lines := s.lines.mapIdx fun i line =>
      if i < start || isAttributeLine v i then line else Text.replaceWord old new line }

/-- The diagram with another name for an entity. -/
def renameEntity (name newName : Text) (s : Source) : Except EditError Edited := do
  let v := View.ofSource s
  let _ ← requireEntity v name
  requireIdentifier (Identifier.checkEntity newName) newName
  if newName ≠ name && v.names.contains newName then throw (.alreadyExists newName)
  return ⟨renameIn v (v.declarationLine.elim 0 (· + 1)) name newName s, some (.entity newName)⟩

/-! ## Deleting -/

/-- The line is strictly inside the block of some entity. -/
def isInsideBlock (v : View) (line : Nat) : Bool :=
  (v.entities.filterMap blockSpan?).any fun span => span.start < line && line < span.stop

/-- The lines that a declaration on the line with this number takes up. -/
def declarationLines (s : Source) (line : Nat) : EntityForm → List Nat
  | .blockOpen =>
    match s.blockAt? blockRules line with
    | some span => (List.range span.length).map (span.start + ·)
    | none => [line]
  | _ => [line]

/-- The lines that declare the entity. -/
def linesDeclaring (name : Text) (v : View) (s : Source) : List Nat :=
  (s.body .er).flatMap fun (i, line) =>
    if isInsideBlock v i then []
    else match EntityHeader.ofLine? line with
      | some h => if h.name = name then declarationLines s i h.form else []
      | none => []

/-- The diagram without an entity. -/
def deleteEntity (name : Text) (s : Source) : Except EditError Edited := do
  let v := View.ofSource s
  let _ ← requireEntity v name
  let relationships := v.relationships.filter fun r =>
    r.relationship.entity1 = name || r.relationship.entity2 = name
  return { source := s.deleteLineSet (linesDeclaring name v s ++ relationships.map (·.line)) }

/-!
## Relationships

A new relationship is written at the end of the source; a changed one is written anew on its line.
-/

/-- The relationship at this position. -/
def requireRelationship (v : View) (index : Nat) : Except EditError RelationshipRecord :=
  match v.relationship? index with
  | some r => .ok r
  | none => .error (.relationshipNotFound index)

/-- A new relationship between two entities of the diagram. -/
def addRelationship (new : Relationship) (s : Source) : Except EditError Edited := do
  let v := View.ofSource s
  let _ ← requireEntity v new.entity1
  let _ ← requireEntity v new.entity2
  let indent := bodyIndent v.declarationLine s
  return ⟨s.pushLine ({ new with label := Text.trim new.label }.render indent),
    some (.relationship v.relationships.length)⟩

/-- The relationship with the parts of the patch. -/
def patched (p : RelationshipPatch) (r : Relationship) : Relationship :=
  { entity1 := p.entity1.getD r.entity1
    cardinality1 := p.cardinality1.getD r.cardinality1
    identification := p.identification.getD r.identification
    cardinality2 := p.cardinality2.getD r.cardinality2
    entity2 := p.entity2.getD r.entity2
    label := (p.label.map Text.trim).getD r.label }

/-- The diagram with a relationship changed. -/
def updateRelationship (index : Nat) (p : RelationshipPatch) (s : Source) :
    Except EditError Edited := do
  let v := View.ofSource s
  let r ← requireRelationship v index
  p.entity1.forM fun name => discard (requireEntity v name)
  p.entity2.forM fun name => discard (requireEntity v name)
  let indent := Text.indent (← lineAt r.line s)
  return ⟨← replaceLine r.line ((patched p r.relationship).render indent) s,
    some (.relationship index)⟩

/-- The diagram without a relationship. -/
def deleteRelationship (index : Nat) (s : Source) : Except EditError Edited := do
  let r ← requireRelationship (View.ofSource s) index
  return { source := ← deleteLines r.line 1 s }

/-! ## Any edit -/

/-- The source after the edit, and the allocator. -/
def apply (op : EntityOp) (s : Source) (ids : IdAllocator) :
    Except EditError Edited × IdAllocator :=
  match op with
  | .addEntity name => addEntity name s ids
  | .renameEntity name newName => (renameEntity name newName s, ids)
  | .deleteEntity name => (deleteEntity name s, ids)
  | .addAttribute entity new => (addAttribute entity new s, ids)
  | .updateAttribute entity name new => (updateAttribute entity name new s, ids)
  | .deleteAttribute entity name => (deleteAttribute entity name s, ids)
  | .addRelationship new => (addRelationship new s, ids)
  | .updateRelationship index patch => (updateRelationship index patch s, ids)
  | .deleteRelationship index => (deleteRelationship index s, ids)

end DiagramEditor.Edit.EntityRelation
