import DiagramEditor.Text.Numeral
import DiagramEditor.Text.Span

/-!
# Characters and names of markup

Which characters markup may hold, which of them make up a name, and how a name splits at its colon
into a qualifier and a base. A name without a colon has the empty qualifier.

The recognizers of markup return what they read together with what follows it.
-/

namespace DiagramEditor.Markup

/-! ## Characters -/

/-- The blanks between the parts of markup. -/
def isBlank (c : Char) : Bool :=
  c == ' ' || c == '\t' || c == '\n' || c == '\r'

/-- The text without the blanks in front. -/
def skipBlanks (s : Text) : Text :=
  s.dropWhile isBlank

/-- The text behind the blanks in front, of which there has to be one. -/
def blanks? : Text → Option Text
  | c :: s => if isBlank c then some (skipBlanks s) else none
  | [] => none

/-- A character that markup may hold: every one but control characters other than blanks and the
last two of the basic plane. -/
def isMarkupChar (c : Char) : Bool :=
  if c.toNat < 0x20 then isBlank c else c.toNat ≠ 0xFFFE && c.toNat ≠ 0xFFFF

/-- The ranges of the characters above ASCII that begin a name. -/
def nameStartRanges : List (Nat × Nat) :=
  [(0xC0, 0xD6), (0xD8, 0xF6), (0xF8, 0x2FF), (0x370, 0x37D), (0x37F, 0x1FFF), (0x200C, 0x200D),
    (0x2070, 0x218F), (0x2C00, 0x2FEF), (0x3001, 0xD7FF), (0xF900, 0xFDCF), (0xFDF0, 0xFFFD),
    (0x10000, 0xEFFFF)]

/-- The ranges of the characters above ASCII that a name holds only behind its first one. -/
def nameInnerRanges : List (Nat × Nat) :=
  [(0xB7, 0xB7), (0x300, 0x36F), (0x203F, 0x2040)]

/-- A character that begins a name. -/
def isNameStart (c : Char) : Bool :=
  c.isAlpha || c == ':' || c == '_' || Unicode.inRanges nameStartRanges c

/-- A character of a name. -/
def isNameChar (c : Char) : Bool :=
  isNameStart c || c.isDigit || c == '-' || c == '.' || Unicode.inRanges nameInnerRanges c

/-! ## Names -/

/-- The text is a name. -/
def isName : Text → Bool
  | [] => false
  | c :: s => isNameStart c && s.all isNameChar

/-- The name at the front of the text, colons included, and what follows it. -/
def name? (s : Text) : Option (Text × Text) :=
  let name := s.takeWhile isNameChar
  if isName name then some (name, s.dropWhile isNameChar) else none

/-- A name, cut at its colon. -/
structure Name where
  /-- What stands in front of the colon. -/
  qualifier : Text := []
  base : Text
deriving DecidableEq, Repr

namespace Name

/-- The name that the text is. There is at most one colon, with a name behind it and with a name or
nothing in front of it. -/
def ofText? (s : Text) : Option Name :=
  match Text.splitOn ':' s with
  | [base] => if isName base then some { base } else none
  | [qualifier, base] =>
    if (qualifier.isEmpty || isName qualifier) && isName base then some { qualifier, base } else none
  | _ => none

/-- The name at the front of the text, and what follows it. -/
def read? (s : Text) : Option (Name × Text) :=
  (ofText? (s.takeWhile isNameChar)).map fun name => (name, s.dropWhile isNameChar)

end Name

/-! ## Runs of characters -/

/-- The text in front of the first `stop`, all of it characters of markup, and the text behind. -/
def until? (stop s : Text) : Option (Text × Text) :=
  (Text.cutText? stop s).filter fun p => p.1.all isMarkupChar

/-- A quoted text, and what follows it. Either quote will do, and the text holds neither that quote
nor a character that `excluded` names. -/
def quoted? (excluded : Char → Bool) : Text → Option (Text × Text)
  | q :: s =>
    if q = '"' || q = '\'' then
      (Text.cutChar? q s).filter fun p => !p.1.any excluded
    else none
  | [] => none

end DiagramEditor.Markup
