import DiagramEditor.EntityRelation.View
import DiagramEditor.Extraction.Basic

/-!
# Objects in rendered entity diagrams

An entity is drawn as a group whose id is `entity-`, the name and a counter. If no name of the source
fits, the group stands for the entity at its own position. The lines of relationships have no names
at all and are paired with the source one by one.
-/

namespace DiagramEditor.Extraction

open Markup EntityRelation

/-- What stands in front of the name in the id of an entity. -/
def entityStem : Text :=
  "entity-".toList

/-- The tags of the groups that are drawn for entities. -/
def entityGroups (tree : Tree) : List Tag :=
  (tree.elements.map (·.tag)).filter fun t =>
    t.name.base = ['g'] && (t.value? "id").any (Text.startsWith entityStem)

/-- The drawn id belongs to an entity of this name: a dash or nothing follows the name. -/
def isDrawnEntity (drawn name : Text) : Bool :=
  match (Text.stripFront? entityStem drawn).bind (Text.stripFront? name) with
  | some [] => true
  | some (c :: _) => c == '-'
  | none => false

/-- The entity with the longest name that the drawn id fits. -/
def entityForId? (v : EntityRelation.View) (id : Text) : Option EntityRecord :=
  (v.entities.filter fun e => isDrawnEntity id e.name).foldl (fun best e =>
    match best with
    | some b => if e.name.length < b.name.length then some b else some e
    | none => some e) none

/-- Each drawn group with its entity, the first group for each entity. -/
def entityPairs (tree : Tree) (v : EntityRelation.View) : List (Tag × EntityRecord) :=
  let pairs := (entityGroups tree).zipIdx.filterMap fun (t, position) =>
    ((entityForId? v ((t.value? "id").getD [])).or v.entities[position]?).map fun e => (t, e)
  firstOfEach (·.2.name) pairs

/-- The object of an entity. -/
def entityObject (e : EntityRecord) : EntityObject :=
  { id := entityStem ++ e.name
    name := e.name
    label := e.label
    attributes := e.attributes.map Prod.snd
    line := e.span.map (·.start) }

/-- The object of a relationship. -/
def relationshipObject (r : RelationshipRecord) : RelationshipObject :=
  ⟨"rel-".toList ++ Text.ofNat r.index, r.index, r.relationship, r.line⟩

/-- The objects of a rendered entity diagram. -/
def entityRelation (tree : Tree) (source : Source) : Findings :=
  let v := View.ofSource source
  let entities := (entityPairs tree v).map fun p => (p.1, entityObject p.2)
  let relationships := (tree.tagsWithClass "relationshipLine").zip
    (v.relationships.map relationshipObject)
  withUnmarked tree
    { objects :=
        { entities := entities.map Prod.snd, relationships := relationships.map Prod.snd }
      marks := entities.map (fun p => (p.1, p.2.id)) ++ relationships.map fun p => (p.1, p.2.id) }

end DiagramEditor.Extraction
