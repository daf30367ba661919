import DiagramEditor.Markup.Prolog
import DiagramEditor.Markup.Tree

/-!
# Reading documents

A document is read in two passes: its text is cut into tokens, and the tokens make up the tree. The
second pass keeps the open elements on a stack, compares the names of start and end tags, puts the
tokens of entities in the place of references, and sees to it that qualifiers are declared and no
element has an attribute twice.

The text of an entity may break off inside of a start tag. Such a tag opens no element; its
attributes are left for the next tag. A start tag takes them as its own, and an end tag drops them.

Qualifiers stand for the names of namespaces. An attribute `xmlns:q` declares the qualifier `q` for
its element and all inside; two attributes are the same if their bases and the namespaces behind
their qualifiers are. `xml` and `xmlns` have a fixed meaning. Which namespace an element belongs to
does not matter here, so the default namespace is checked and then forgotten.
-/

namespace DiagramEditor.Markup

/-! ## Namespaces -/

/-- The declared qualifiers with their namespaces, the innermost first. -/
abbrev Scope :=
  List (Text × Text)

/-- The qualifier with a fixed namespace. -/
def xmlQualifier : Text :=
  "xml".toList

/-- The qualifier that declares others. -/
def declaringQualifier : Text :=
  "xmlns".toList

/-- The namespace of `xml`. -/
def xmlNamespace : Text :=
  "http://www.w3.org/XML/1998/namespace".toList

/-- The namespace of `xmlns`. -/
def declaringNamespace : Text :=
  "http://www.w3.org/2000/xmlns/".toList

/-- The attributes of a tag, sorted by what they do. -/
structure Attributes where
  /-- The declared qualifiers. -/
  declared : Scope := []
  /-- The attributes that declare nothing, in order. -/
  others : List (Name × Text) := []

/-- One more attribute. -/
def Attributes.add? (a : Attributes) (item : Name × Text) : Option Attributes :=
  let (name, value) := item
  if name.qualifier = declaringQualifier then do
    guard (value ≠ declaringNamespace)
    guard (decide (name.base = xmlQualifier) = decide (value = xmlNamespace))
    guard (a.declared.lookup name.base).isNone
    return if value = xmlNamespace then a
      else { a with declared := a.declared ++ [(name.base, value)] }
  else if name.base = declaringQualifier then do
    guard (value ≠ xmlNamespace && value ≠ declaringNamespace)
    return a
  else some { a with others := a.others ++ [item] }

/-- The base and the namespace of an attribute. An attribute without a qualifier has no namespace. -/
def expandedName? (scope : Scope) (name : Name) : Option (Text × Option Text) :=
  if name.qualifier.isEmpty then some (name.base, none)
  else if name.qualifier = xmlQualifier then some (name.base, some xmlNamespace)
  else (scope.lookup name.qualifier).map fun ns => (name.base, some ns)

/-- The qualifier of an element is declared. -/
def isDeclared (scope : Scope) (name : Name) : Bool :=
  name.qualifier.isEmpty || (scope.lookup name.qualifier).isSome

/-- The qualifiers that are declared behind a tag inside of `outer`, if those of its attributes are
among them and no attribute is given twice. -/
def Attributes.scope? (a : Attributes) (outer : Scope) : Option Scope := do
  -- What the tag declares holds for the tag itself as well.
  let scope := a.declared ++ outer
  guard (decide (← a.others.mapM fun item => expandedName? scope item.1).Nodup)
  return scope

/-! ## The second pass -/

/-- An element that is open. -/
structure OpenElement where
  tag : Tag
  /-- The qualifiers declared inside. -/
  scope : Scope
  /-- What stands in front of the element inside the one around it, the last part first. -/
  before : List Node

/-- What has been read so far. -/
structure Reader where
  /-- The content of the innermost open element, the last part first. -/
  content : List Node := []
  /-- The open elements, the innermost first. -/
  openElements : List OpenElement := []
  /-- How many references to entities are left. -/
  left : Nat := 0
  /-- What the tags that broke off have left for the next tag. -/
  pending : Attributes := {}
  /-- More text goes on with the run of text in front of it. -/
  inText : Bool := false

namespace Reader

/-- The qualifiers declared at this point. -/
def scope (r : Reader) : Scope :=
  (r.openElements.head?.map (·.scope)).getD []

/-- One more part. -/
def add (node : Node) (r : Reader) : Reader :=
  { r with content := node :: r.content, inText := false }

/-- More text, which joins the run of text in front of it. -/
def addText (s : Text) (r : Reader) : Reader :=
  match r.inText, r.content with
  | true, .text t :: before => { r with content := .text (t ++ s) :: before }
  | _, _ => { r.add (.text s) with inText := true }

/-- One more open element. -/
def openElement (tag : Tag) (scope : Scope) (r : Reader) : Reader :=
  { r with
    content := [], openElements := ⟨tag, scope, r.content⟩ :: r.openElements, inText := false }

/-- The end of the innermost open element, which has to have this name. -/
def close? (name : Name) (r : Reader) : Option Reader :=
  match r.openElements with
  | [] => none
  | e :: outer => do
    guard (e.tag.name = name)
    let _ ← r.pending.scope? e.scope
    return { r with
      content := .element e.tag r.content.reverse :: e.before, openElements := outer
      pending := {}, inText := false }

/-- The values of the attributes of a tag, with the number of references left. -/
def values? (entities : List Entity) (room : Nat) :
    List (Name × Text) → (left : Nat) → Option (List (Name × Text) × Nat)
  | [], left => some ([], left)
  | (name, text) :: rest, left => do
    let (value, left) ← Entity.valueIn? entities room (← Piece.ofText? text) left
    let (values, left) ← values? entities room rest left
    return ((name, value) :: values, left)

/-- One more start tag. -/
def startTag? (entities : List Entity) (room : Nat) (t : StartTag) (r : Reader) :
    Option Reader := do
  guard (t.name.qualifier ≠ declaringQualifier)
  let (values, left) ← values? entities room t.attributes r.left
  let attributes ← values.foldlM Attributes.add? r.pending
  match t.ending with
  | .missing => return { r with left, pending := attributes, inText := false }
  | ending =>
    let scope ← attributes.scope? r.scope
    guard (isDeclared scope t.name)
    let tag : Tag := ⟨t.offset, t.name, attributes.others⟩
    let r := { r with left, pending := {} }
    return if ending = .opens then r.openElement tag scope else r.add (.element tag [])

/-- A stretch of characters, or a reference to the entity of this name. -/
inductive Stretch where
  | chars (s : Text)
  | entity (name : Text)

/-- The stretches that the pieces make up. -/
def stretches : List Piece → List Stretch
  | [] => []
  | .entity name :: rest => .entity name :: stretches rest
  | .char c :: rest | .reference c :: rest =>
    match stretches rest with
    | .chars s :: more => .chars (c :: s) :: more
    | more => .chars [c] :: more

/-- One more stretch; `expand` reads the content of an entity. -/
def stretch? (expand : Text → Reader → Option Reader) (r : Reader) : Stretch → Option Reader
  | .chars s => some (r.addText s)
  | .entity name => expand name r

/-- One more token, where references may nest `room` deep; `expand` reads the content of an
entity. -/
def token? (entities : List Entity) (room : Nat) (expand : Text → Reader → Option Reader)
    (r : Reader) : Token → Option Reader
  | .data s => do (stretches (← Piece.ofText? s)).foldlM (stretch? expand) r
  | .verbatim s => some (r.addText s)
  | .aside => some (r.add .aside)
  | .startTag t => r.startTag? entities room t
  | .endTag name => r.close? name

/-- More tokens, where references may nest `room` deep. An entity may end elements that began in
front of it, but not before it has begun one itself. -/
def tokens? (entities : List Entity) : (room : Nat) → List Token → Reader → Option Reader
  | 0, tokens, r => tokens.foldlM (token? entities 0 fun _ _ => none) r
  | room + 1, tokens, r => tokens.foldlM (token? entities (room + 1) fun name r => do
      let entity ← Entity.find? entities name
      let left ← Entity.spend? (room + 1) r.left
      let (tokens, _) ← Token.content? entity.stop entity.body
      guard (Token.opensFirst tokens)
      tokens? entities room tokens { r with left }) r

end Reader

/-- The tree of the document, if the text is one. A document type is accepted only where
`allowDoctype` says so. -/
def Tree.ofText? (allowDoctype : Bool) (s : Text) : Option Tree := do
  let (entities, rest) ← Prolog.read? allowDoctype s
  let (tokens, rest) ← Token.element? (Text.byteLength s) rest
  guard (← Prolog.behindAsides? rest).isEmpty
  let r ← Reader.tokens? entities Entity.maxRoom tokens {}
  guard (r.openElements.isEmpty && r.content.any Node.isElement)
  return ⟨r.content.reverse⟩

end DiagramEditor.Markup
