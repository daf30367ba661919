import DiagramEditor.Markup.Name

/-!
# Trees of elements

A document is a tree of elements and runs of text. Comments and processing instructions say nothing,
but they part the text around them and so keep their place in the tree.

Elements are listed in document order, each in front of the elements inside it (`Tree.elements`). An
element knows where its tag stands in the document (`Tag.offset`).
-/

namespace DiagramEditor.Markup

/-- The start tag of an element, with the values of its attributes. -/
structure Tag where
  /-- The number of bytes of the document in front of the tag. -/
  offset : Nat
  name : Name
  attributes : List (Name × Text) := []
deriving DecidableEq, Repr

namespace Tag

/-- The value of the attribute with this name and without a qualifier. -/
def value? (name : String) (t : Tag) : Option Text :=
  t.attributes.lookup { base := name.toList }

/-- The words of the class attribute. -/
def classes (t : Tag) : List Text :=
  (t.value? "class").elim [] Text.words

/-- The word is one of the classes. -/
def hasClass (name : String) (t : Tag) : Bool :=
  t.classes.contains name.toList

end Tag

/-- A part of a document. -/
inductive Node where
  | element (tag : Tag) (content : List Node)
  /-- A run of characters. -/
  | text (s : Text)
  /-- A comment or a processing instruction. -/
  | aside

/-- An element of a document. -/
structure Element where
  tag : Tag
  content : List Node := []

namespace Node

/-- The part is an element. -/
def isElement : Node → Bool
  | element _ _ => true
  | _ => false

mutual

/-- The elements of a part in document order. -/
def elements : Node → List Element
  | element tag content => ⟨tag, content⟩ :: elementsOf content
  | text _ => []
  | aside => []

/-- The elements of some parts in document order. -/
def elementsOf : List Node → List Element
  | [] => []
  | node :: nodes => node.elements ++ elementsOf nodes

end

mutual

/-- The words of all text in a part. Each run of text is cut into words of its own. -/
def words : Node → List Text
  | element _ content => wordsOf content
  | text s => Text.words s
  | aside => []

/-- The words of all text in some parts. -/
def wordsOf : List Node → List Text
  | [] => []
  | node :: nodes => node.words ++ wordsOf nodes

end

end Node

namespace Element

/-- The text of the element, with one space between the words. -/
def text (e : Element) : Text :=
  Text.join [' '] (Node.wordsOf e.content)

end Element

/-- A document. -/
structure Tree where
  nodes : List Node := []

namespace Tree

/-- The elements in document order. -/
def elements (t : Tree) : List Element :=
  Node.elementsOf t.nodes

/-- The elements with an id, each with its id. -/
def identified (t : Tree) : List (Text × Element) :=
  t.elements.filterMap fun e => (e.tag.value? "id").map fun id => (id, e)

/-- The tags with this class, in document order. -/
def tagsWithClass (name : String) (t : Tree) : List Tag :=
  (t.elements.map (·.tag)).filter (·.hasClass name)

end Tree

end DiagramEditor.Markup
