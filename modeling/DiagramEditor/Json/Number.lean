import DiagramEditor.Double
import DiagramEditor.Json.Basic

/-!
# What is kept of a value

The numbers and the limits of a value that nobody looks into.
-/

namespace DiagramEditor.Json

/-!
## Numbers that are kept

A numeral may be as long as it likes, but a number that is kept fits into 64 bits. It stays as it is
written if it is an integer in the range of an index or of its negative counterpart; every other
number, and a zero with a sign, becomes a floating point number (`Numeral.toDouble?`). Of its digits
only the first count, as many as an index holds, so the number is not always the one nearest to the
numeral. A number beyond the largest floating point number cannot be kept.
-/

/-- The parts of a numeral. -/
structure Numeral where
  negative : Bool := false
  /-- The digits in front of the point. -/
  whole : Text
  /-- The digits behind the point. -/
  fraction : Text := []
  exponent : Int := 0
deriving DecidableEq, Repr

namespace Numeral

/-- The integer that a run of digits with an optional sign denotes. -/
def exponentValue (s : Text) : Int :=
  match s with
  | '-' :: digits => -((Text.digitsValue? digits).getD 0 : Int)
  | '+' :: digits => (Text.digitsValue? digits).getD 0
  | digits => (Text.digitsValue? digits).getD 0

/-- The parts of a written number. -/
def ofText (s : Text) : Numeral :=
  let (negative, s) := match s with
    | '-' :: rest => (true, rest)
    | _ => (false, s)
  let whole := s.takeWhile Char.isDigit
  let (fraction, rest) := match s.dropWhile Char.isDigit with
    | '.' :: s => (s.takeWhile Char.isDigit, s.dropWhile Char.isDigit)
    | s => ([], s)
  ⟨negative, whole, fraction, exponentValue (rest.drop 1)⟩

/-- The number whose digits are those of `n` and the first ones of the run, as many as an index
holds, and the digits that are left. -/
def leading (n : Nat) : Text → Nat × Text
  | [] => (n, [])
  | d :: rest =>
    let next := 10 * n + (d.toNat - '0'.toNat)
    if next < Text.indexBound then leading next rest else (n, d :: rest)

/-- The floating point number that the numeral stands for, without its sign. A digit in front of the
point that does not fit counts as a factor ten, one behind it not at all. -/
def toDouble? (n : Numeral) : Option Double := do
  let (digits, wholeLeft) := leading 0 n.whole
  let (digits, fractionLeft) := leading digits n.fraction
  let behindPoint : Int := n.fraction.length - fractionLeft.length
  (← Double.ofNat? digits).scale? (n.exponent + wholeLeft.length - behindPoint)

end Numeral

/-- The numeral denotes an integer that 64 bits hold. A zero with a sign is none. -/
def isInteger : Text → Bool
  | '-' :: digits =>
    (Text.digitsValue? digits).any fun n => 0 < n && n ≤ Text.indexBound / 2
  | digits => (Text.digitsValue? digits).any (· < Text.indexBound)

/-- The numeral of the number that is kept for a numeral. -/
def keptNumeral? (s : Text) : Option Text :=
  if isInteger s then some s
  else
    let n := Numeral.ofText s
    n.toDouble?.map fun x => if n.negative then '-' :: x.render else x.render

/-!
## Limits of kept values

A value that nobody looks into, such as the settings of a theme, is kept within limits: it nests only
so deep, and it can be read and has no number that is too large (`canKeep`). What is kept has numbers
of 64 bits, and of the members of an object with the same name only the last one stays (`kept`).
-/

mutual

/-- How many arrays and objects enclose the innermost part. -/
def depth : Json → Nat
  | .array items => depthItems items + 1
  | .object members => depthMembers members + 1
  | _ => 0

/-- The depth of the deepest item. -/
def depthItems : List Json → Nat
  | [] => 0
  | item :: rest => max (depth item) (depthItems rest)

/-- The depth of the deepest member. -/
def depthMembers : List (Text × Json) → Nat
  | [] => 0
  | (_, value) :: rest => max (depth value) (depthMembers rest)

end

mutual

/-- Every part of the value can be read, and every number can be kept. -/
def canKeep : Json → Bool
  | .number numeral => (keptNumeral? numeral).isSome
  | .array items => canKeepItems items
  | .object members => canKeepMembers members
  | .unreadable => false
  | _ => true

/-- All items can be kept. -/
def canKeepItems : List Json → Bool
  | [] => true
  | item :: rest => canKeep item && canKeepItems rest

/-- The values of all members can be kept. -/
def canKeepMembers : List (Text × Json) → Bool
  | [] => true
  | (_, value) :: rest => canKeep value && canKeepMembers rest

end

/-- The members, each name once and with its last value. -/
def lastMembers (members : List (Text × Json)) : List (Text × Json) :=
  members.foldl (fun seen p => seen.filter (·.1 ≠ p.1) ++ [p]) []

mutual

/-- The value that is kept for a value: every number fits into 64 bits, if it can be kept at all, and
every object has each name once, with its last value. -/
def kept : Json → Json
  | .number numeral => .number ((keptNumeral? numeral).getD numeral)
  | .array items => .array (keptItems items)
  | .object members => .object (lastMembers (keptMembers members))
  | j => j

/-- The values that are kept for the items of an array. -/
def keptItems : List Json → List Json
  | [] => []
  | item :: rest => kept item :: keptItems rest

/-- The members of an object with the values that are kept for theirs. -/
def keptMembers : List (Text × Json) → List (Text × Json)
  | [] => []
  | (name, value) :: rest => (name, kept value) :: keptMembers rest

end

end DiagramEditor.Json
