import DiagramEditor.Text.Numeral

/-!
# JSON values

Diagrams, edits and settings are stored and sent as JSON. A value keeps what a reader of records
has to tell apart: a number is kept as it is written, since `1` is an index and `1.0` is none, and
an object keeps its members in order and with repetitions, since a repeated setting is an error.

A string may hold an escape that denotes no character. Such a value can be skipped but not read.
-/

namespace DiagramEditor

/-- A JSON value. -/
inductive Json where
  | null
  | bool (b : Bool)
  /-- A number as it is written. -/
  | number (numeral : Text)
  | string (s : Text)
  | array (items : List Json)
  | object (members : List (Text × Json))
  /-- A string, or an object with a name, that has an escape for half a character in it. -/
  | unreadable
deriving Inhabited

namespace Json

/-- The number `n`. -/
def ofNat (n : Nat) : Json :=
  .number (Text.ofNat n)

/-- The value of an option, `null` for none. -/
def ofOption {α : Type} (f : α → Json) : Option α → Json
  | none => .null
  | some a => f a

/-- An optional text, `null` for none. -/
def ofTextOption : Option Text → Json :=
  ofOption .string

/-- An object with these members. -/
def ofMembers (members : List (String × Json)) : Json :=
  .object (members.map fun (name, value) => (name.toList, value))

/-- The member that holds the value, or no member for none. -/
def memberOf {α : Type} (name : String) (f : α → Json) (value : Option α) : List (String × Json) :=
  value.toList.map fun a => (name, f a)

/-- A list of values. -/
def ofList {α : Type} (f : α → Json) (items : List α) : Json :=
  .array (items.map f)

/-- The unsigned integer below `bound` that the value denotes. A number with a sign, a fraction or
an exponent denotes none. -/
def nat? (bound : Nat) : Json → Option Nat
  | .number numeral => (Text.digitsValue? numeral).filter (· < bound)
  | _ => none

/-- The index that the value denotes. -/
def index? : Json → Option Nat :=
  nat? Text.indexBound

/-- The text that the value is. -/
def text? : Json → Option Text
  | .string s => some s
  | _ => none

/-- The truth value that the value is. -/
def bool? : Json → Option Bool
  | .bool b => some b
  | _ => none

/-- The items of an array, each read by `f`. -/
def list? {α : Type} (f : Json → Option α) : Json → Option (List α)
  | .array items => items.mapM f
  | _ => none

/-- The members of an object, each read by `f`. -/
def pairs? {α : Type} (f : Json → Option α) : Json → Option (List (Text × α))
  | .object members => members.mapM fun (name, value) => (f value).map fun a => (name, a)
  | _ => none

/-- The value is `null`. -/
def isNull : Json → Bool
  | .null => true
  | _ => false

/-- The last member of the object with this name. -/
def member? (name : Text) : Json → Option Json
  | .object members => members.reverse.lookup name
  | _ => none

end Json

end DiagramEditor
