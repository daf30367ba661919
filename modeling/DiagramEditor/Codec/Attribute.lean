import DiagramEditor.EntityRelation.Attribute
import DiagramEditor.Json.Record

/-!
# Attributes as JSON

An attribute is a record. In an edit an absent comment is written as `null` (`Attribute.toJson`),
in an object it is left out (`Attribute.toObjectJson`).
-/

namespace DiagramEditor.EntityRelation

namespace Attribute

/-- The members that every attribute has. -/
def jsonMembers (a : Attribute) : List (String × Json) :=
  [("attr_type", .string a.type), ("name", .string a.name),
    ("keys", .ofList (fun key => .string key.text) a.keys)]

/-- An attribute as JSON, with an absent comment as `null`. -/
def toJson (a : Attribute) : Json :=
  .ofMembers (a.jsonMembers ++ [("comment", .ofTextOption a.comment)])

/-- An attribute as JSON, without an absent comment. -/
def toObjectJson (a : Attribute) : Json :=
  .ofMembers (a.jsonMembers ++ Json.memberOf "comment" .string a.comment)

/-- The attribute that the JSON value is; `tagged` tells whether it is part of a record that is one
of several. -/
def ofJson? (tagged : Bool) (j : Json) : Option Attribute := do
  let r ← j.record? ["attr_type", "name", "keys", "comment"] tagged
  return {
    type := ← r.text? "attr_type"
    name := ← r.text? "name"
    keys := ← r.list? "keys" (Json.choice? AttributeKey.ofText? tagged)
    comment := ← r.textOption? "comment" }

end Attribute

end DiagramEditor.EntityRelation
