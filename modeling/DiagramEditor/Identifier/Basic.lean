import DiagramEditor.Text.Basic

/-!
# Identifiers

Nodes, subgraphs and participants are named by identifiers: letters and numbers of any script and
underscores. Entities may have dashes in their names as well. A few words of the diagram language
are reserved and name nothing.

A text that is no identifier is refused for the first of these reasons that applies: it is empty,
it holds a blank, it holds another character that is not allowed, it is reserved.
-/

namespace DiagramEditor

/-- Why a text is not accepted as an identifier. -/
inductive IdentifierError where
  | empty
  | containsWhitespace
  /-- The first character that is not allowed. -/
  | invalidChar (ch : Char)
  | reservedKeyword
deriving DecidableEq, Repr

namespace IdentifierError

/-- The text shown to the user. -/
def message : IdentifierError → Text
  | empty => "must not be empty".toList
  | containsWhitespace => "must not contain whitespace".toList
  | invalidChar ch => "contains invalid character: '".toList ++ [ch, '\'']
  | reservedKeyword => "is a reserved Mermaid keyword".toList

end IdentifierError

namespace Identifier

/-- The words that name nothing. -/
def reserved : List Text :=
  ["end", "subgraph", "style", "class", "classDef", "linkStyle", "click"].map String.toList

/-- A character of an identifier. -/
def isIdentChar (c : Char) : Bool :=
  Unicode.isAlphanumeric c || c == '_'

/-- A character of an entity name. -/
def isEntityChar (c : Char) : Bool :=
  isIdentChar c || c == '-'

/-- A non-empty run of identifier characters. -/
def isIdent (s : Text) : Bool :=
  !s.isEmpty && s.all isIdentChar

/-- The first reason why `name` is no identifier over the allowed characters. -/
def check (allowed : Char → Bool) (name : Text) : Except IdentifierError Unit :=
  if name.isEmpty then throw .empty
  else if name.any Unicode.isSpace then throw .containsWhitespace
  else match name.find? (!allowed ·) with
    | some ch => throw (.invalidChar ch)
    | none => if reserved.contains name then throw .reservedKeyword else return ()

/-- The first reason why `name` does not name a node. -/
def checkNode (name : Text) : Except IdentifierError Unit :=
  check isIdentChar name

/-- The first reason why `name` does not name an entity. -/
def checkEntity (name : Text) : Except IdentifierError Unit :=
  check isEntityChar name

end Identifier

/-! ## Names of stored diagrams -/

/-- Why a text does not name a stored diagram. -/
inductive DiagramIdError where
  | empty
  | containsWhitespace
deriving DecidableEq, Repr

/-- The text shown to the user. -/
def DiagramIdError.message : DiagramIdError → Text
  | empty => "id must not be empty".toList
  | containsWhitespace => "id must not contain whitespace".toList

/-- The name under which a diagram is stored. It is part of the names of render requests, so it is
not empty and holds no blank. -/
structure DiagramId where
  /-- The name itself. -/
  text : Text
  text_ne_nil : text ≠ []
  no_space : text.any Unicode.isSpace = false
deriving DecidableEq

/-- The name `text`, or the reason why it is none. -/
def DiagramId.ofText (text : Text) : Except DiagramIdError DiagramId :=
  if hne : text = [] then .error .empty
  else if hsp : text.any Unicode.isSpace = true then .error .containsWhitespace
  else .ok ⟨text, hne, by simpa using hsp⟩

end DiagramEditor
