import DiagramEditor.Text.Basic

/-!
# Style properties

A style is an ordered list of properties written `key:value,key:value`. Values may hold commas: one
inside parentheses never separates, and a stretch without a colon belongs to the value before it,
so `fill:rgb(255,0,0)` and `stroke-dasharray:5,5` are one property each.
-/

namespace DiagramEditor.Flowchart

/-- Keys and values in the order in which they are written. -/
abbrev Properties := List (Text × Text)

namespace Properties

/-- The stretches of the text between commas outside parentheses, where `depth` parentheses are
open. A closing parenthesis without an opening one is ignored. -/
def splitCommas : (depth : Nat) → Text → List Text
  | _, [] => [[]]
  | depth, c :: s =>
    if c = '(' then Text.consFirst c (splitCommas (depth + 1) s)
    else if c = ')' then Text.consFirst c (splitCommas (depth - 1) s)
    else if c = ',' && depth = 0 then [] :: splitCommas depth s
    else Text.consFirst c (splitCommas depth s)

/-- The last value continued by a comma and `more`. -/
def extendLast (more : Text) : Properties → Properties
  | [] => []
  | [(key, value)] => [(key, value ++ ',' :: more)]
  | property :: rest => property :: extendLast more rest

/-- The list with one more stretch read: a property if it has a key, nothing if its key is blank,
and a part of the last value if it has no colon. -/
def addStretch (properties : Properties) (stretch : Text) : Properties :=
  match Text.cutChar? ':' stretch with
  | some (key, value) =>
    if (Text.trim key).isEmpty then properties
    else properties ++ [(Text.trim key, Text.trim value)]
  | none => extendLast (Text.trim stretch) properties

/-- The properties written as `raw`. Semicolons at the end are no part of them. -/
def ofText (raw : Text) : Properties :=
  (splitCommas 0 (Text.dropEndWhile (· == ';') (Text.trim raw))).foldl addStretch []

/-- The written form. -/
def toText (properties : Properties) : Text :=
  Text.join [','] (properties.map fun (key, value) => key ++ ':' :: value)

/-- The first property with this key changed by `f`, or taken out where `f` gives none. -/
def alterFirst (key : Text) (f : Text → Option Text) : Properties → Properties
  | [] => []
  | (k, v) :: rest =>
    if k = key then
      match f v with
      | some v' => (k, v') :: rest
      | none => rest
    else (k, v) :: alterFirst key f rest

/-- One key set to a value, in place if it is there and at the end otherwise. Without a value, or
with a blank one, the key is removed. -/
def set (key : Text) (value : Option Text) (properties : Properties) : Properties :=
  let value := (value.map Text.trim).filter fun v => !v.isEmpty
  if properties.any fun p => p.1 = key then alterFirst key (fun _ => value) properties
  else match value with
    | some v => properties ++ [(key, v)]
    | none => properties

/-- Each key once, with the value that it has last. -/
def lastValues (properties : Properties) : Properties :=
  properties.foldl (fun seen p => seen.filter (·.1 ≠ p.1) ++ [p]) []

end Properties

end DiagramEditor.Flowchart
