import DiagramEditor.Json.Basic

/-!
# Records in JSON

A record is written as an object whose members are its fields, in any order and among others that
are ignored, or as an array of its fields in their order (`Json.record?`). A field may be required,
optional or have a default; an optional field may also be `null`.

A choice between names is written as a string, or as an object with the name as its only member and
nothing as its value (`Json.choice?`). A record that is one of several says in a member which one
it is, or as an array in its first item (`Json.tagged?`).
-/

namespace DiagramEditor.Json

/-- The fields of a record as they were found. -/
structure Record where
  /-- The fields that are there. -/
  fields : List (Text × Json)
  /-- The record is one of several, or inside of such a record. -/
  tagged : Bool := false

/-- The record with fields of these names. A longer array is refused. -/
def record? (names : List String) (tagged : Bool := false) : Json → Option Record
  | .object members => some { fields := members.reverse, tagged }
  | .array items =>
    if items.length ≤ names.length then
      some { fields := (names.map String.toList).zip items, tagged }
    else none
  | _ => none

/-- The name that the value chooses, read by `f`. In a record that is one of several an empty
object may stand for nothing as well. -/
def choice? {α : Type} (f : Text → Option α) (tagged : Bool) : Json → Option α
  | .string s => f s
  | .object [(name, .null)] => f name
  | .object [(name, .object [])] => if tagged then f name else none
  | _ => none

/-- A record that says in the member `tag` which one it is. The fields of the record with that name
are `names`, and `f` reads it. -/
def tagged? {α : Type} (tag : String) (names : Text → Option (List String))
    (f : (name : Text) → Record → Option α) : Json → Option α
  | .object members => do
    let name ← (member? tag.toList (.object members)).bind text?
    f name (← record? (← names name) true (.object members))
  | .array (first :: items) => do
    let name ← first.text?
    f name (← record? (← names name) true (.array items))
  | _ => none

namespace Record

variable (r : Record) (name : String)

/-- The field, if it is there. -/
def find? : Option Json :=
  r.fields.lookup name.toList

section

variable {α : Type} (f : Json → Option α)

/-- The value of a field that has to be there. -/
def required? : Option α :=
  (r.find? name).bind f

/-- The value of a field that may be missing. -/
def default? (otherwise : α) : Option α :=
  match r.find? name with
  | none => some otherwise
  | some j => f j

/-- The value of a field that may be missing or `null`. -/
def optional? : Option (Option α) :=
  match r.find? name with
  | none | some .null => some none
  | some j => (f j).map some

end

/-! ## Fields by what they hold -/

/-- The text in a field that has to be there. -/
def text? : Option Text :=
  r.required? name Json.text?

/-- The text in a field that may be missing or `null`. -/
def textOption? : Option (Option Text) :=
  r.optional? name Json.text?

/-- The texts in a field that has to be there. -/
def texts? : Option (List Text) :=
  r.required? name (Json.list? Json.text?)

/-- The index in a field that has to be there. -/
def index? : Option Nat :=
  r.required? name Json.index?

/-- The index in a field that may be missing or `null`. -/
def indexOption? : Option (Option Nat) :=
  r.optional? name Json.index?

/-- The list in a field that may be missing, each item read by `f`. -/
def list? {α : Type} (f : Json → Option α) : Option (List α) :=
  r.default? name (Json.list? f) []

section

variable {α : Type} (f : Text → Option α)

/-- The choice in a field that has to be there. -/
def choice? : Option α :=
  r.required? name (Json.choice? f r.tagged)

/-- The choice in a field that may be missing. -/
def choiceD? (otherwise : α) : Option α :=
  r.default? name (Json.choice? f r.tagged) otherwise

/-- The choice in a field that may be missing or `null`. -/
def choiceOption? : Option (Option α) :=
  r.optional? name (Json.choice? f r.tagged)

end

end Record

end DiagramEditor.Json
