import DiagramEditor.Text.Basic

/-!
# Quoted text

A label is written between double quotes, and a double quote inside it as the entity `#quot;`
(`quote`). Reading a label (`unquote`) trims it, takes off one pair of quotes if both are there,
and turns the entities back.

Delimiters inside double quotes are part of a label, so the searches here (`cutOutside?`,
`splitOutside`) look only outside of them. A quote opens or closes a quoted stretch wherever it
stands; there is no escape besides the entity.
-/

namespace DiagramEditor.Text

/-- How a double quote is written inside a quoted label. -/
def quoteEntity : Text :=
  "#quot;".toList

/-- The label between double quotes, its own quotes written as entities. -/
def quote (label : Text) : Text :=
  '"' :: label.flatMap (fun c => if c = '"' then quoteEntity else [c]) ++ ['"']

/-- The text without one pair of double quotes around it; a text that lacks either quote stays. -/
def stripQuotes (s : Text) : Text :=
  match s with
  | '"' :: rest => (stripEnd? ['"'] rest).getD s
  | _ => s

/-- The label that is written as `raw`. -/
def unquote (raw : Text) : Text :=
  replaceAll quoteEntity ['"'] (stripQuotes (trim raw))

/-- The text before and after the first `needle` outside double quotes, where `inQuotes` says
whether the text starts inside them. -/
def cutOutsideFrom? (needle : Text) : (inQuotes : Bool) → Text → Option (Text × Text)
  | _, [] => none
  | inQuotes, c :: s =>
    if c = '"' then
      (cutOutsideFrom? needle (!inQuotes) s).map fun (a, b) => (c :: a, b)
    else match if inQuotes then none else stripFront? needle (c :: s) with
      | some rest => some ([], rest)
      | none => (cutOutsideFrom? needle inQuotes s).map fun (a, b) => (c :: a, b)

/-- The text before and the text after the first `needle` that stands outside double quotes. -/
def cutOutside? (needle s : Text) : Option (Text × Text) :=
  cutOutsideFrom? needle false s

/-- The fields between the characters outside double quotes that satisfy `p`, where `inQuotes` says
whether the text starts inside quotes. -/
def splitOutsideFrom (p : Char → Bool) : (inQuotes : Bool) → Text → List Text
  | _, [] => [[]]
  | inQuotes, c :: s =>
    if c = '"' then consFirst c (splitOutsideFrom p (!inQuotes) s)
    else if p c && !inQuotes then [] :: splitOutsideFrom p inQuotes s
    else consFirst c (splitOutsideFrom p inQuotes s)

/-- The fields of the text between the separators that stand outside double quotes. -/
def splitOutside (sep : Char) (s : Text) : List Text :=
  splitOutsideFrom (· == sep) false s

/-- The runs of characters between blanks outside double quotes. -/
def wordsOutside (s : Text) : List Text :=
  (splitOutsideFrom isSpace false s).filter fun w => !w.isEmpty

/-! ## Whole words

A word is a maximal run of word characters and dashes, so `CUSTOMER` is no word of
`CUSTOMER_ORDER` nor of `CUSTOMER-ORDER`.
-/

/-- The character belongs to a word. -/
def isWordPart (c : Char) : Bool :=
  Unicode.isWordChar c || c == '-'

/-- The text with `f` applied to each of its words, where `word` is the part of a word that has
been read already. -/
def mapWordsFrom (f : Text → Text) (word : Text) : Text → Text
  | [] => if word.isEmpty then [] else f word
  | c :: s =>
    if isWordPart c then mapWordsFrom f (word ++ [c]) s
    else (if word.isEmpty then [] else f word) ++ c :: mapWordsFrom f [] s

/-- The text with `f` applied to each of its words. -/
def mapWords (f : Text → Text) (s : Text) : Text :=
  mapWordsFrom f [] s

/-- The first, third, fifth … text changed by `f`. -/
def mapAlternate (f : Text → Text) : List Text → List Text
  | [] => []
  | [s] => [f s]
  | s :: t :: rest => f s :: t :: mapAlternate f rest

/-- The line with the word `old` written as `new` wherever it stands outside double quotes. -/
def replaceWord (old new line : Text) : Text :=
  join ['"'] (mapAlternate (mapWords fun w => if w = old then new else w) (splitOn '"' line))

/-! ## Quoting in messages

A message that cites a text shows it between double quotes and writes out what would not be
visible there.
-/

/-- The digits of `n` in base sixteen, small letters. -/
def hexDigits (n : Nat) : Text :=
  Nat.toDigits 16 n

/-- How a cited character is shown: the usual backslash letters, its number in braces when it is
hidden, and itself otherwise. -/
def citeChar (c : Char) : Text :=
  if c = '\x00' then ['\\', '0']
  else if c = '\t' then ['\\', 't']
  else if c = '\n' then ['\\', 'n']
  else if c = '\r' then ['\\', 'r']
  else if c = '"' then ['\\', '"']
  else if c = '\\' then ['\\', '\\']
  else if Unicode.isHidden c then ['\\', 'u', '{'] ++ hexDigits c.toNat ++ ['}']
  else [c]

/-- The text as a message cites it. -/
def cite (s : Text) : Text :=
  '"' :: s.flatMap citeChar ++ ['"']

end DiagramEditor.Text
