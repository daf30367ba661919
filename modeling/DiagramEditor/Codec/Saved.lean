import DiagramEditor.Json.Record
import DiagramEditor.Session

/-!
# Stored diagrams as JSON

A stored diagram is a record whose four fields all have to be there.
-/

namespace DiagramEditor.SavedDiagram

/-- The stored diagram as JSON. -/
def toJson (d : SavedDiagram) : Json :=
  .ofMembers [("id", .string d.id), ("title", .string d.title), ("code", .string d.code),
    ("createdAt", .ofNat d.createdAt)]

/-- The stored diagram that the JSON value is. -/
def ofJson? (j : Json) : Option SavedDiagram := do
  let r ← j.record? ["id", "title", "code", "createdAt"]
  return {
    id := ← r.text? "id"
    title := ← r.text? "title"
    code := ← r.text? "code"
    createdAt := ← r.index? "createdAt" }

end DiagramEditor.SavedDiagram
