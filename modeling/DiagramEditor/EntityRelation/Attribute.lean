import DiagramEditor.Text.Quoted

/-!
# Attributes

An attribute of an entity is written as its type and its name, then perhaps keys (`PK`, `FK`, `UK`,
with commas or blanks between them) and perhaps a comment in double quotes. Inside a block each
attribute has a line of its own (`Attribute.ofLine?`); in the inline form of an entity they follow
one another (`Attribute.ofWords?`).
-/

namespace DiagramEditor.EntityRelation

/-- The word begins with a letter or an underscore. -/
def isWord : Text → Bool
  | [] => false
  | c :: _ => Unicode.isAlphabetic c || c == '_'

/-- What an attribute is a key for. -/
inductive AttributeKey where
  | primary
  | foreign
  | unique
deriving DecidableEq, Repr

namespace AttributeKey

/-- How the key is written. -/
def text : AttributeKey → Text
  | primary => ['P', 'K']
  | foreign => ['F', 'K']
  | unique => ['U', 'K']

/-- The key that is written like this. -/
def ofText? (s : Text) : Option AttributeKey :=
  [primary, foreign, unique].find? (·.text = s)

/-- The keys in a word of keys and commas; none if there is no key in it or anything else. -/
def listOfWord? (word : Text) : Option (List AttributeKey) := do
  let parts := ((Text.splitOn ',' word).map Text.trim).filter fun part => !part.isEmpty
  guard !parts.isEmpty
  parts.mapM ofText?

end AttributeKey

/-- One attribute of an entity. -/
structure Attribute where
  type : Text
  name : Text
  keys : List AttributeKey
  comment : Option Text
deriving DecidableEq, Repr

namespace Attribute

/-- The written form. -/
def render (a : Attribute) : Text :=
  a.type ++ ' ' :: a.name ++
    (if a.keys.isEmpty then [] else ' ' :: Text.join [','] (a.keys.map (·.text))) ++
    match a.comment with
    | none => []
    | some comment => ' ' :: Text.quote comment

/-- The keys at the front of the words, and what follows them. -/
def keysOfWords : List Text → List AttributeKey × List Text
  | [] => ([], [])
  | word :: rest =>
    match AttributeKey.listOfWord? word with
    | none => ([], word :: rest)
    | some keys => (keys ++ (keysOfWords rest).1, (keysOfWords rest).2)

theorem length_keysOfWords (words : List Text) :
    (keysOfWords words).2.length ≤ words.length := by
  induction words with
  | nil => simp [keysOfWords]
  | cons word rest ih =>
    rw [keysOfWords]
    split
    · simp
    · simp only [List.length_cons]; omega

/-- The comment at the front of the words, if there is one, and what follows it. -/
def commentOfWords : List Text → Option Text × List Text
  | [] => (none, [])
  | word :: rest =>
    if word.head? = some '"' then (some (Text.unquote word), rest) else (none, word :: rest)

theorem length_commentOfWords (words : List Text) :
    (commentOfWords words).2.length ≤ words.length := by
  cases words with
  | nil => simp [commentOfWords]
  | cons word rest =>
    rw [commentOfWords]
    split <;> simp

/-- The attributes that the words are, one after the other. -/
def ofWords? : List Text → Option (List Attribute)
  | [] => some []
  | [_] => none
  | type :: name :: words =>
    if isWord type && isWord name then
      let keys := keysOfWords words
      let comment := commentOfWords keys.2
      (ofWords? comment.2).map fun rest => ⟨type, name, keys.1, comment.1⟩ :: rest
    else none
termination_by words => words.length
decreasing_by
  have h₁ := length_keysOfWords words
  have h₂ := length_commentOfWords (keysOfWords words).2
  simp only [List.length_cons]
  omega

/-- The single attribute on the line of a block. -/
def ofLine? (line : Text) : Option Attribute :=
  let trimmed := Text.trim line
  if trimmed.isEmpty || Text.startsWith ['%', '%'] trimmed || trimmed.contains '{' ||
      trimmed.contains '}' then none
  else match ofWords? (Text.wordsOutside trimmed) with
    | some [a] => some a
    | _ => none

end Attribute

end DiagramEditor.EntityRelation
