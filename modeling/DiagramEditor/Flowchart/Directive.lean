import DiagramEditor.Flowchart.Property
import DiagramEditor.Identifier.Basic
import DiagramEditor.Text.Numeral

/-!
# Directives

Four kinds of lines say how a flowchart looks: `style` gives a node or subgraph its properties,
`linkStyle` gives them to links by their position in the document, `classDef` defines a named list
of properties and `class` gives such a name to some nodes. Each has a recognizer on one line
(`ofLine?`) and a written form (`render`).
-/

namespace DiagramEditor.Flowchart

/-- The properties of one node or subgraph. -/
structure NodeStyle where
  target : Text
  properties : Properties
deriving DecidableEq, Repr

namespace NodeStyle

/-- The keyword of the directive. -/
def keyword : Text :=
  "style".toList

/-- The directive `style <id> <properties>` on the line. -/
def ofLine? (line : Text) : Option NodeStyle := do
  let rest ← Text.stripKeyword? keyword line
  let (target, properties) := Text.headAndRest rest
  guard (Identifier.isIdent target)
  return ⟨target, Properties.ofText properties⟩

/-- The written form. -/
def render (indent : Text) (d : NodeStyle) : Text :=
  indent ++ keyword ++ ' ' :: d.target ++ ' ' :: d.properties.toText

end NodeStyle

/-- Which links a directive is about. -/
inductive LinkTarget where
  /-- All links that no other directive names. -/
  | default
  /-- The links at these positions in the document, counted from zero. -/
  | indices (is : List Nat)
deriving DecidableEq, Repr

/-- The positions that are named. -/
def LinkTarget.positions : LinkTarget → List Nat
  | default => []
  | indices is => is

/-- The properties of some links. -/
structure LinkStyle where
  target : LinkTarget
  properties : Properties
deriving DecidableEq, Repr

namespace LinkStyle

/-- The keyword of the directive. -/
def keyword : Text :=
  "linkStyle".toList

/-- The word that stands for all other links. -/
def defaultWord : Text :=
  "default".toList

/-- The links that the first word names. -/
def target? (word : Text) : Option LinkTarget :=
  if word = defaultWord then some .default
  else ((Text.splitOn ',' word).mapM fun raw => Text.readIndex? (Text.trim raw)).map .indices

/-- The directive `linkStyle <positions or default> <properties>` on the line. -/
def ofLine? (line : Text) : Option LinkStyle := do
  let rest ← Text.stripKeyword? keyword line
  let (word, properties) := Text.headAndRest rest
  let target ← target? word
  return ⟨target, Properties.ofText properties⟩

/-- The written form of a directive for links by position. -/
def render (indent : Text) (positions : List Nat) (properties : Properties) : Text :=
  indent ++ keyword ++ ' ' :: Text.join [','] (positions.map Text.ofNat) ++
    ' ' :: properties.toText

end LinkStyle

/-- A class name given to some nodes. -/
structure ClassUse where
  ids : List Text
  className : Text
deriving DecidableEq, Repr

namespace ClassUse

/-- The keyword of the directive. -/
def keyword : Text :=
  "class".toList

/-- The directive `class <id>,<id>,… <name>` on the line. -/
def ofLine? (line : Text) : Option ClassUse := do
  let rest ← Text.stripKeyword? keyword line
  let (word, className) := Text.headAndRest rest
  guard (!className.isEmpty && !className.any Unicode.isSpace)
  let ids := (Text.splitOn ',' word).map Text.trim
  guard (ids.all Identifier.isIdent)
  return ⟨ids, className⟩

/-- The written form. -/
def render (indent : Text) (d : ClassUse) : Text :=
  indent ++ keyword ++ ' ' :: Text.join [','] d.ids ++ ' ' :: d.className

end ClassUse

/-- Named properties. -/
structure ClassDef where
  names : List Text
  properties : Properties
deriving DecidableEq, Repr

namespace ClassDef

/-- The keyword of the directive. -/
def keyword : Text :=
  "classDef".toList

/-- The directive `classDef <name>,<name>,… <properties>` on the line. -/
def ofLine? (line : Text) : Option ClassDef := do
  let rest ← Text.stripKeyword? keyword line
  let (word, properties) := Text.headAndRest rest
  let names := (Text.splitOn ',' word).map Text.trim
  guard (names.all fun name => !name.isEmpty)
  return ⟨names, Properties.ofText properties⟩

/-- The written form of a definition of one name. -/
def render (indent : Text) (name : Text) (properties : Properties) : Text :=
  indent ++ keyword ++ ' ' :: name ++ ' ' :: properties.toText

end ClassDef

end DiagramEditor.Flowchart
