import DiagramEditor.Unicode.Table

/-!
# Classes of characters

What counts as a letter, a number, a blank or a part of a word. Diagrams are written in every
script, so each class is a property of Unicode and not of ASCII. Below U+0080 a class is decided
by a comparison; above, by a search in the table of its ranges.
-/

namespace DiagramEditor.Unicode

/-- `c` lies in one of the closed ranges. -/
def inRanges (ranges : List (Nat × Nat)) (c : Char) : Bool :=
  ranges.any fun r => r.1 ≤ c.toNat && c.toNat ≤ r.2

/-- The blanks: the twenty-five characters with the property `White_Space`. -/
def isSpace (c : Char) : Bool :=
  let n := c.toNat
  (9 ≤ n && n ≤ 13) || n == 0x20 || n == 0x85 || n == 0xA0 || n == 0x1680 ||
    (0x2000 ≤ n && n ≤ 0x200A) || n == 0x2028 || n == 0x2029 || n == 0x202F || n == 0x205F ||
    n == 0x3000

/-- The property `Alphabetic`. -/
def isAlphabetic (c : Char) : Bool :=
  if c.toNat < 0x80 then c.isAlpha else inRanges alphabeticRanges c

/-- The decimal digits of all scripts, the letter numbers and the other numbers. -/
def isNumeric (c : Char) : Bool :=
  if c.toNat < 0x80 then c.isDigit else inRanges numericRanges c

/-- A letter or a number. -/
def isAlphanumeric (c : Char) : Bool :=
  isAlphabetic c || isNumeric c

/-- The two characters that join or part their neighbours in writing without a glyph. -/
def isJoinControl (c : Char) : Bool :=
  c.toNat == 0x200C || c.toNat == 0x200D

/-- What a word is made of: the letters, marks, decimal digits, connectors and join controls of
Unicode 16.0. The newcomers of 17.0 part words. -/
def isWordChar (c : Char) : Bool :=
  if c.toNat < 0x80 then c.isAlpha || c.isDigit || c == '_'
  else
    (inRanges alphabeticRanges c || inRanges markRanges c || inRanges decimalRanges c ||
      inRanges connectorRanges c || isJoinControl c) && !inRanges newcomerRanges c

/-- A character that a quoted text shows by its number: it prints nothing, or attaches to what
stands before it. -/
def isHidden (c : Char) : Bool :=
  inRanges hiddenRanges c || inRanges extenderRanges c

end DiagramEditor.Unicode
