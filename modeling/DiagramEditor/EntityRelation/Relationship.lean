import DiagramEditor.EntityRelation.Attribute
import DiagramEditor.Identifier.Basic

/-!
# Relationships

A relationship is written as `LEFT ||--o{ RIGHT : label`. The sign between the two entities has
three parts of two characters each: how many of the left entity, whether the relationship
identifies the right one, and how many of the right entity.
-/

namespace DiagramEditor.EntityRelation

/-- How many entities take part on one side. -/
inductive Cardinality where
  | zeroOrOne
  | exactlyOne
  | zeroOrMore
  | oneOrMore
deriving DecidableEq, Repr

namespace Cardinality

/-- All cardinalities. -/
def all : List Cardinality :=
  [zeroOrOne, exactlyOne, zeroOrMore, oneOrMore]

/-- What the user reads. -/
def label : Cardinality → Text
  | zeroOrOne => "Zero or one".toList
  | exactlyOne => "Exactly one".toList
  | zeroOrMore => "Zero or more".toList
  | oneOrMore => "One or more".toList

/-- The cardinality with this label, in capitals or small letters of ASCII. -/
def ofLabel? (label : Text) : Option Cardinality :=
  all.find? fun c => Text.toLowerAscii c.label = Text.toLowerAscii (Text.trim label)

/-- How the cardinality is written on the left side. -/
def leftToken : Cardinality → Text
  | zeroOrOne => ['|', 'o']
  | exactlyOne => ['|', '|']
  | zeroOrMore => ['}', 'o']
  | oneOrMore => ['}', '|']

/-- How the cardinality is written on the right side. -/
def rightToken : Cardinality → Text
  | zeroOrOne => ['o', '|']
  | exactlyOne => ['|', '|']
  | zeroOrMore => ['o', '{']
  | oneOrMore => ['|', '{']

/-- The cardinality that is written like this on the left side. -/
def ofLeftToken? (token : Text) : Option Cardinality :=
  all.find? (·.leftToken = token)

/-- The cardinality that is written like this on the right side. -/
def ofRightToken? (token : Text) : Option Cardinality :=
  all.find? (·.rightToken = token)

/-- The name of the cardinality. -/
def name : Cardinality → Text
  | zeroOrOne => "zero_or_one".toList
  | exactlyOne => "exactly_one".toList
  | zeroOrMore => "zero_or_more".toList
  | oneOrMore => "one_or_more".toList

/-- The cardinality with this name. -/
def ofName? (name : Text) : Option Cardinality :=
  all.find? (·.name = name)

end Cardinality

/-- Whether the left entity is part of what identifies the right one. -/
inductive Identification where
  | identifying
  | nonIdentifying
deriving DecidableEq, Repr

namespace Identification

/-- How it is written. -/
def token : Identification → Text
  | identifying => ['-', '-']
  | nonIdentifying => ['.', '.']

/-- What is written like this. -/
def ofToken? (token : Text) : Option Identification :=
  [identifying, nonIdentifying].find? (·.token = token)

/-- The name. -/
def name : Identification → Text
  | identifying => "identifying".toList
  | nonIdentifying => "non_identifying".toList

/-- What has this name. -/
def ofName? (name : Text) : Option Identification :=
  [identifying, nonIdentifying].find? (·.name = name)

end Identification

/-- A relationship between two entities. -/
structure Relationship where
  entity1 : Text
  cardinality1 : Cardinality
  identification : Identification
  cardinality2 : Cardinality
  entity2 : Text
  label : Text
deriving DecidableEq, Repr

namespace Relationship

/-- The sign between the two entities. -/
def sign (r : Relationship) : Text :=
  r.cardinality1.leftToken ++ r.identification.token ++ r.cardinality2.rightToken

/-- The written form. A label that is empty or holds a blank is quoted. -/
def render (indent : Text) (r : Relationship) : Text :=
  let label := if r.label.isEmpty || r.label.any Unicode.isSpace then Text.quote r.label else r.label
  indent ++ r.entity1 ++ ' ' :: r.sign ++ ' ' :: r.entity2 ++ " : ".toList ++ label

/-- The word names an entity. -/
def isEntityName (word : Text) : Bool :=
  word.all Identifier.isEntityChar && isWord word

/-- The relationship on the line. -/
def ofLine? (line : Text) : Option Relationship := do
  let (left, label) ← Text.cutChar? ':' (Text.trim line)
  match Text.words left with
  | [entity1, [a, b, c, d, e, f], entity2] =>
    guard (isEntityName entity1 && isEntityName entity2)
    return {
      entity1
      cardinality1 := ← Cardinality.ofLeftToken? [a, b]
      identification := ← Identification.ofToken? [c, d]
      cardinality2 := ← Cardinality.ofRightToken? [e, f]
      entity2
      label := Text.unquote label }
  | _ => none

end Relationship

end DiagramEditor.EntityRelation
