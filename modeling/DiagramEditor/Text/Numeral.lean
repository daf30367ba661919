import DiagramEditor.Text.Basic

/-!
# Numerals

Indices and counters in a source are unsigned decimal numerals. Reading one (`readNat?`) allows a
plus sign and leading zeros, takes the ASCII digits only, and refuses a number that does not fit
below the given bound.
-/

namespace DiagramEditor.Text

/-- The first number that an index of 64 bits cannot hold. -/
def indexBound : Nat :=
  0x1_0000_0000_0000_0000

/-- The decimal digits of `n`. -/
def ofNat (n : Nat) : Text :=
  Nat.toDigits 10 n

/-- The number that a run of ASCII digits denotes; `none` when the run is empty or holds anything
else. -/
def digitsValue? (s : Text) : Option Nat :=
  if s.isEmpty || !s.all Char.isDigit then none
  else some (s.foldl (fun n c => 10 * n + (c.toNat - '0'.toNat)) 0)

/-- The number below `bound` that the numeral denotes. -/
def readNat? (bound : Nat) (s : Text) : Option Nat :=
  let digits := match s with
    | '+' :: rest => rest
    | _ => s
  (digitsValue? digits).filter (· < bound)

/-- The index that the numeral denotes. -/
def readIndex? (s : Text) : Option Nat :=
  readNat? indexBound s

end DiagramEditor.Text
