import DiagramEditor.EntityRelation.Entity
import DiagramEditor.EntityRelation.Relationship
import DiagramEditor.Kind

/-!
# The view of an entity diagram

What a source says about its entities and relationships, read off the lines behind the declaration
in one pass (`View.ofSource`). An entity exists as soon as it is declared or named by a
relationship. It may be declared several times: attributes add up, the last title counts, and the
first declaration fixes where it is.

Between the opener of a block and its closer only attribute lines mean anything.
-/

namespace DiagramEditor.EntityRelation

/-! ## Statements -/

/-- What a line outside of blocks says. -/
inductive Statement where
  | relationship (r : Relationship)
  | entity (h : EntityHeader)
  /-- A line that is carried through without being understood. -/
  | other
deriving DecidableEq, Repr

/-- What the line says. A relationship wins over a declaration. -/
def Statement.ofLine (line : Text) : Statement :=
  match Relationship.ofLine? line with
  | some r => .relationship r
  | none =>
    match EntityHeader.ofLine? line with
    | some h => .entity h
    | none => .other

/-! ## Records -/

/-- An entity with everything that the source says about it. -/
structure EntityRecord where
  name : Text
  title : Option Text := none
  /-- From the first declaration to the end of its block; none if no line declares the entity. -/
  span : Option BlockSpan := none
  /-- Some line declares the entity with all attributes between braces. -/
  inline : Bool := false
  /-- The attributes with the lines they stand on. -/
  attributes : List (Nat × Attribute) := []
deriving DecidableEq, Repr

namespace EntityRecord

/-- The title, or the name of an entity without one. -/
def label (e : EntityRecord) : Text :=
  e.title.getD e.name

/-- The entity with one more declaration, read on the line with this number. -/
def declare (line : Nat) (h : EntityHeader) (e : EntityRecord) : EntityRecord :=
  let e := { e with title := h.title.or e.title, span := e.span.or (some (.single line)) }
  match h.form with
  | .inline attributes =>
    { e with inline := true, attributes := e.attributes ++ attributes.map fun a => (line, a) }
  | _ => e

/-- The entity whose block ends on the line with this number. -/
def close (line : Nat) (e : EntityRecord) : EntityRecord :=
  { e with span := e.span.map fun span => ⟨span.start, line⟩ }

/-- The entity with one more attribute, read on the line with this number. -/
def addAttribute (line : Nat) (a : Attribute) (e : EntityRecord) : EntityRecord :=
  { e with attributes := e.attributes ++ [(line, a)] }

end EntityRecord

/-- A relationship with its position. -/
structure RelationshipRecord where
  /-- The position among all relationships of the document. -/
  index : Nat
  line : Nat
  relationship : Relationship
deriving DecidableEq, Repr

/-! ## The view -/

/-- Everything that a source says about its entities. -/
structure View where
  declarationLine : Option Nat := none
  /-- The entities in the order in which they first appear. -/
  entities : List EntityRecord := []
  relationships : List RelationshipRecord := []
deriving DecidableEq, Repr

namespace View

/-- The entity with this name. -/
def entity? (v : View) (name : Text) : Option EntityRecord :=
  v.entities.find? (·.name = name)

/-- The relationship at this position. -/
def relationship? (v : View) (index : Nat) : Option RelationshipRecord :=
  v.relationships[index]?

/-- The names of all entities. -/
def names (v : View) : List Text :=
  v.entities.map (·.name)

/-- The entity with this name changed by `f`; a new entity if there is none. -/
def alterEntity (name : Text) (f : EntityRecord → EntityRecord) :
    List EntityRecord → List EntityRecord
  | [] => [f { name }]
  | e :: rest => if e.name = name then f e :: rest else e :: alterEntity name f rest

/-- The view with the entity of this name changed. -/
def alter (name : Text) (f : EntityRecord → EntityRecord) (v : View) : View :=
  { v with entities := alterEntity name f v.entities }

end View

/-! ## Reading -/

/-- The view of the lines read so far, with the entity whose block is open. -/
structure Reader where
  view : View
  openEntity : Option Text := none

namespace Reader

/-- One more line inside the block of the entity `name`. -/
def stepInside (name : Text) (r : Reader) (line : Nat) (text : Text) : Reader :=
  if isBlockClose (Text.trim text) then
    { view := r.view.alter name (·.close line), openEntity := none }
  else match Attribute.ofLine? text with
    | some a => { r with view := r.view.alter name (·.addAttribute line a) }
    | none => r

/-- One more statement outside of blocks. -/
def stepOutside (r : Reader) (line : Nat) : Statement → Reader
  | .relationship rel =>
    -- The two ends are entities, declared or not.
    let view := (r.view.alter rel.entity1 id).alter rel.entity2 id
    { r with view := { view with
        relationships := view.relationships ++ [⟨view.relationships.length, line, rel⟩] } }
  | .entity h =>
    { view := r.view.alter h.name (·.declare line h)
      openEntity := if h.form = .blockOpen then some h.name else none }
  | .other => r

/-- One more line. -/
def step (r : Reader) (line : Nat) (text : Text) : Reader :=
  if isSilent (Text.trim text) then r
  else match r.openEntity with
    | some name => r.stepInside name line text
    | none => r.stepOutside line (.ofLine text)

end Reader

/-- What the source says about its entities. -/
def View.ofSource (s : Source) : View :=
  let start : Reader := { view := { declarationLine := s.declarationOf? .er } }
  ((s.body .er).foldl (fun r (i, line) => r.step i line) start).view

end DiagramEditor.EntityRelation
