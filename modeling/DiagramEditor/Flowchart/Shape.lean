import DiagramEditor.Text.Quoted

/-!
# Shapes and node definitions

A node is defined by writing its id together with a shape and a label, in one of two forms. In the
classic form the label stands between the delimiters of one of fourteen shapes, as in `A["Start"]`
or `B((x))`. In the advanced form the id is followed by a list of entries, as in
`A@{ shape: rect, label: "Start" }`.

A definition keeps the label both as it is written and as it reads, and its written form
(`NodeDefinition.render`) uses the former, so writing back what was read changes nothing in it.
-/

namespace DiagramEditor.Flowchart

/-- The classic shapes. -/
inductive NodeShape where
  | rect
  | round
  | stadium
  | subroutine
  | cylinder
  | circle
  | doubleCircle
  | rhombus
  | hexagon
  | asymmetric
  | parallelogram
  | parallelogramAlt
  | trapezoid
  | trapezoidAlt
deriving DecidableEq, Repr

namespace NodeShape

/-- All shapes in the order in which they are tried. Longer delimiters come first, so `(((x)))` is
never read as `((…))`. -/
def all : List NodeShape :=
  [doubleCircle, circle, stadium, round, subroutine, cylinder, parallelogram, trapezoid,
    parallelogramAlt, trapezoidAlt, rect, hexagon, rhombus, asymmetric]

/-- What opens the shape. -/
def opening : NodeShape → Text
  | rect => ['[']
  | round => ['(']
  | stadium => ['(', '[']
  | subroutine => ['[', '[']
  | cylinder => ['[', '(']
  | circle => ['(', '(']
  | doubleCircle => ['(', '(', '(']
  | rhombus => ['{']
  | hexagon => ['{', '{']
  | asymmetric => ['>']
  | parallelogram => ['[', '/']
  | parallelogramAlt => ['[', '\\']
  | trapezoid => ['[', '/']
  | trapezoidAlt => ['[', '\\']

/-- What closes the shape. -/
def closing : NodeShape → Text
  | rect => [']']
  | round => [')']
  | stadium => [']', ')']
  | subroutine => [']', ']']
  | cylinder => [')', ']']
  | circle => [')', ')']
  | doubleCircle => [')', ')', ')']
  | rhombus => ['}']
  | hexagon => ['}', '}']
  | asymmetric => [']']
  | parallelogram => ['/', ']']
  | parallelogramAlt => ['\\', ']']
  | trapezoid => ['\\', ']']
  | trapezoidAlt => ['/', ']']

/-- The name of the shape. -/
def name : NodeShape → Text
  | rect => "rect".toList
  | round => "round".toList
  | stadium => "stadium".toList
  | subroutine => "subroutine".toList
  | cylinder => "cylinder".toList
  | circle => "circle".toList
  | doubleCircle => "double_circle".toList
  | rhombus => "rhombus".toList
  | hexagon => "hexagon".toList
  | asymmetric => "asymmetric".toList
  | parallelogram => "parallelogram".toList
  | parallelogramAlt => "parallelogram_alt".toList
  | trapezoid => "trapezoid".toList
  | trapezoidAlt => "trapezoid_alt".toList

/-- The shape with this name. -/
def ofName? (name : Text) : Option NodeShape :=
  all.find? (·.name = name)

end NodeShape

/-- How a definition is written. -/
inductive ShapeForm where
  /-- The label between the delimiters of a shape. -/
  | classic (shape : NodeShape)
  /-- Keys and values in braces, in the order and form in which they are written. -/
  | advanced (entries : List (Text × Text))
deriving DecidableEq, Repr

/-- The shape and the label of a node. -/
structure NodeDefinition where
  form : ShapeForm
  /-- The label as it is written. -/
  rawLabel : Option Text
  /-- The label as it reads. -/
  label : Option Text
deriving DecidableEq, Repr

namespace NodeDefinition

/-- The entry that holds the shape. -/
def shapeKey : Text :=
  "shape".toList

/-- The entry that holds the label. -/
def labelKey : Text :=
  "label".toList

/-- A classic shape around a quoted label. -/
def classic (shape : NodeShape) (label : Text) : NodeDefinition :=
  ⟨.classic shape, some (Text.quote label), some label⟩

/-- How much the definition says: two for shape and label, one for the shape alone. Of several
definitions of a node the richest counts. -/
def richness (d : NodeDefinition) : Nat :=
  if d.label.isSome then 2 else 1

/-- The name of the shape, if the definition gives one. -/
def shapeName (d : NodeDefinition) : Option Text :=
  match d.form with
  | .classic shape => some shape.name
  | .advanced entries => (entries.lookup shapeKey).map Text.unquote

/-- The entries with the first one of this key set to `value`; a new entry at the end if the key
is new. -/
def setEntry (key value : Text) : List (Text × Text) → List (Text × Text)
  | [] => [(key, value)]
  | (k, v) :: rest => if k = key then (k, value) :: rest else (k, v) :: setEntry key value rest

/-- The same shape around a new label. -/
def withLabel (label : Text) (d : NodeDefinition) : NodeDefinition :=
  match d.form with
  | .classic shape => classic shape label
  | .advanced entries =>
    ⟨.advanced (setEntry labelKey (Text.quote label) entries), some (Text.quote label), some label⟩

/-- The written form of the entries. -/
def renderEntries (entries : List (Text × Text)) : Text :=
  Text.join [',', ' '] (entries.map fun (key, value) => key ++ ':' :: ' ' :: value)

/-- The written form for the node `id`. Without a label the id stands in its place. -/
def render (id : Text) (d : NodeDefinition) : Text :=
  match d.form with
  | .classic shape =>
    id ++ shape.opening ++ d.rawLabel.getD (Text.quote id) ++ shape.closing
  | .advanced entries => id ++ ['@', '{', ' '] ++ renderEntries entries ++ [' ', '}']

/-- The definition whose entries are written as `body`. An entry without a colon or with a blank
key is left out. -/
def ofEntries (body : Text) : NodeDefinition :=
  let entries := (Text.splitOutside ',' body).filterMap fun part => do
    let (key, value) ← Text.cutChar? ':' part
    guard !(Text.trim key).isEmpty
    return (Text.trim key, Text.trim value)
  let rawLabel := entries.lookup labelKey
  ⟨.advanced entries, rawLabel, rawLabel.map Text.unquote⟩

end NodeDefinition

end DiagramEditor.Flowchart
