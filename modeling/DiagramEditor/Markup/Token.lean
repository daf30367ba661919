import DiagramEditor.Markup.Name

/-!
# Tokens of markup

The content of a document is a list of tokens: tags, runs of characters, and what is only carried
along. `Token.content?` reads them up to the end tag of the element around them, or up to the end of
the text. It counts the elements that are open and leaves it to a later reader to compare the names
of start and end tags.

A start tag remembers where it stands: the number of bytes of the document in front of it. The text
that is read may be the end of the document or a part from its middle, so the reader is told where
the text stops (`stop`). A start tag may break off at this point, behind its name or an
attribute; such a tag opens no element.
-/

namespace DiagramEditor.Markup

/-- How a start tag ends. -/
inductive TagEnd where
  /-- The content of the element follows, up to its end tag. -/
  | opens
  /-- The tag is its own end tag. -/
  | closes
  /-- The text ends in front of the end of the tag. -/
  | missing
deriving DecidableEq, Repr

/-- A start tag as it is written. -/
structure StartTag where
  /-- The number of bytes of the document in front of the tag. -/
  offset : Nat
  name : Name
  /-- The attributes with the texts between their quotes. -/
  attributes : List (Name × Text)
  ending : TagEnd
deriving DecidableEq, Repr

/-- A token of content. -/
inductive Token where
  /-- Characters and references. -/
  | data (s : Text)
  /-- Characters that are taken as they are. -/
  | verbatim (s : Text)
  /-- A comment or a processing instruction. -/
  | aside
  | startTag (t : StartTag)
  | endTag (name : Name)
deriving DecidableEq, Repr

namespace Token

/-- What follows the comment that has been opened. Two dashes end it, so they do not stand inside. -/
def comment? (s : Text) : Option Text :=
  (until? "--".toList s).bind fun p => Text.stripFront? ['>'] p.2

/-- What follows the processing instruction that has been opened. The declaration in front of a
document is none. -/
def instruction? (s : Text) : Option Text := do
  guard !(Text.startsWith "xml ".toList s)
  let (_, rest) ← name? s
  let (_, rest) ← until? "?>".toList (skipBlanks rest)
  return rest

/-- The attribute at the front of the text, and what follows it. -/
def readAttribute? (s : Text) : Option ((Name × Text) × Text) := do
  let (name, rest) ← Name.read? s
  let rest ← Text.stripFront? ['='] (skipBlanks rest)
  let (value, rest) ← quoted? (fun c => c == '<' || !isMarkupChar c) (skipBlanks rest)
  return ((name, value), rest)

/-- The rest of a start tag behind its name: the attributes, each behind a blank, and how the tag
ends. A blank at the end of the text is an error, since an attribute has to follow it. -/
def tagEnd? : (fuel : Nat) → Text → Option ((List (Name × Text) × TagEnd) × Text)
  | _, [] => some (([], .missing), [])
  | 0, _ => none
  | fuel + 1, s =>
    match skipBlanks s with
    | '/' :: '>' :: rest => some (([], .closes), rest)
    | '>' :: rest => some (([], .opens), rest)
    | _ => do
      let (a, rest) ← readAttribute? (← blanks? s)
      let ((attributes, ending), rest) ← tagEnd? fuel rest
      return ((a :: attributes, ending), rest)

/-- The start tag whose first character has been read, and what follows it. -/
def startTag? (offset : Nat) (s : Text) : Option (StartTag × Text) := do
  let (name, rest) ← Name.read? s
  let ((attributes, ending), rest) ← tagEnd? rest.length rest
  return (⟨offset, name, attributes, ending⟩, rest)

/-- The name in the end tag whose first two characters have been read, and what follows the tag. -/
def endTag? (s : Text) : Option (Name × Text) := do
  let (name, rest) ← Name.read? s
  return (name, ← Text.stripFront? ['>'] (skipBlanks rest))

/-- The token at the front of the text, and what follows it. -/
def next? (stop : Nat) (s : Text) : Option (Token × Text) :=
  match s with
  | '<' :: '!' :: '-' :: '-' :: rest => (comment? rest).map fun rest => (aside, rest)
  | '<' :: '!' :: rest => do
    let (s, rest) ← until? "]]>".toList (← Text.stripFront? "[CDATA[".toList rest)
    return (verbatim s, rest)
  | '<' :: '?' :: rest => (instruction? rest).map fun rest => (aside, rest)
  | '<' :: '/' :: rest => (endTag? rest).map fun (name, rest) => (endTag name, rest)
  | '<' :: rest => (startTag? (stop - Text.byteLength s) rest).map fun (t, rest) => (startTag t, rest)
  | s =>
    -- The first character is no `<`, so the run is not empty.
    let chars := s.takeWhile (· ≠ '<')
    if chars.all isMarkupChar && !Text.hasText "]]>".toList chars then
      some (data chars, s.dropWhile (· ≠ '<'))
    else none

/-- The number of open elements behind the token, if it does not close more than has been opened. -/
def depthAfter? : Token → (depth : Nat) → Option Nat
  | endTag _, 0 => none
  | endTag _, depth + 1 => some depth
  | startTag t, depth => some (if t.ending = .opens then depth + 1 else depth)
  | _, depth => some depth

/-- The tokens up to the end tag that closes more than has been opened, and what follows it. There
are `depth` open elements. -/
def contentFrom? (stop : Nat) : (fuel depth : Nat) → Text → Option (List Token × Text)
  | _, _, [] => some ([], [])
  | 0, _, _ => none
  | fuel + 1, depth, s => do
    let (token, rest) ← next? stop s
    match token.depthAfter? depth with
    | none => return ([token], rest)
    | some depth =>
      let (tokens, rest) ← contentFrom? stop fuel depth rest
      return (token :: tokens, rest)

/-- The tokens up to the end tag of the element around the text, which is the last of them, and what
follows it. -/
def content? (stop : Nat) (s : Text) : Option (List Token × Text) :=
  contentFrom? stop s.length 0 s

/-- The tokens of the element at the front of the text, and what follows it. -/
def element? (stop : Nat) (s : Text) : Option (List Token × Text) := do
  let (t, rest) ← startTag? (stop - Text.byteLength s) (← Text.stripFront? ['<'] s)
  if t.ending = .opens then
    let (tokens, rest) ← content? stop rest
    return (startTag t :: tokens, rest)
  else return ([startTag t], rest)

/-- The first tag among the tokens, if there is one, is a start tag. -/
def opensFirst : List Token → Bool
  | [] => true
  | endTag _ :: _ => false
  | startTag _ :: _ => true
  | _ :: tokens => opensFirst tokens

end Token

end DiagramEditor.Markup
