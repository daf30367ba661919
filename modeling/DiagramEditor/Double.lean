import DiagramEditor.Text.Numeral

/-!
# Floating point numbers of 64 bits

Their arithmetic, and how they are written in decimal digits.
-/

namespace DiagramEditor

/-!
## Numbers in units

The finite floating point numbers of 64 bits from zero up. All of them are multiples of the smallest
positive one, 2⁻¹⁰⁷⁴, so a number is kept as this multiple (`Double.units`). An operation forms one
exact quotient and rounds it once: to the nearest multiple with at most 53 binary digits, and of two
that are equally near to the even one. A quotient that leads beyond the largest number has no result.
-/

/-- A finite floating point number from zero up. -/
structure Double where
  /-- The number as a multiple of 2⁻¹⁰⁷⁴. -/
  units : Nat
deriving DecidableEq, Repr

namespace Double

/-- The number one in units. -/
def unitsOfOne : Nat :=
  1 <<< 1074

/-- The first power of two beyond all numbers, 2¹⁰²⁴, in units. -/
def unitsBound : Nat :=
  1 <<< 2098

/-- The whole number nearest to a quotient, of two that are equally near the even one. -/
def roundQuotient (num den : Nat) : Nat :=
  let low := num / den
  let twice := 2 * (num % den)
  if twice < den ∨ (twice = den ∧ low % 2 = 0) then low else low + 1

/-- The whole number with at most 53 binary digits, and zeros behind them, that is nearest to a
quotient. -/
def nearest (num den : Nat) : Nat :=
  let zeros := (num / den).log2 - 52
  roundQuotient num (den <<< zeros) <<< zeros

/-- The number nearest to a quotient. -/
def ofQuotient? (num den : Nat) : Option Double :=
  let units := nearest (num * unitsOfOne) den
  if units < unitsBound then some ⟨units⟩ else none

/-- The number nearest to `n`. -/
def ofNat? (n : Nat) : Option Double :=
  ofQuotient? n 1

/-- The number nearest to a product. -/
def mul? (x y : Double) : Option Double :=
  ofQuotient? (x.units * y.units) (unitsOfOne * unitsOfOne)

/-- The number nearest to the quotient of two numbers. -/
def div? (x y : Double) : Option Double :=
  ofQuotient? x.units y.units

/-- The largest exponent of a power of ten that is no larger than the largest number. -/
def maxPower : Nat :=
  308

/-- The number times a power of ten. The power is rounded on its own before the product is, and a
negative exponent divides, by the largest power first where one power is not enough. -/
def scale? (x : Double) (exponent : Int) : Option Double :=
  if exponent.natAbs ≤ maxPower then do
    let power ← ofNat? (Nat.pow 10 exponent.natAbs)
    if exponent < 0 then x.div? power else x.mul? power
  else if x.units = 0 then some x
  else if 0 < exponent then none
  else do
    let x ← x.div? (← ofNat? (Nat.pow 10 maxPower))
    scale? x (exponent + maxPower)
termination_by exponent.natAbs
decreasing_by
  simp only [maxPower] at *
  omega

end Double

/-!
## Numbers in decimal digits

A floating point number is written with the fewest decimal digits that read back to it, and among
numerals of this length with the one nearest to it (`Double.shortest`). The digits stand in full
where the point is near them, and otherwise a power of ten follows them (`Double.render`).
-/

/-- A whole number times a power of ten. -/
structure Decimal where
  digits : Nat
  exponent : Int
deriving DecidableEq, Repr

/-- The floating point number nearest to a decimal one. -/
def Decimal.toDouble? (d : Decimal) : Option Double :=
  Double.ofQuotient? (d.digits * Nat.pow 10 d.exponent.toNat) (Nat.pow 10 (-d.exponent).toNat)

namespace Double

/-- The numerator and the denominator of the number in steps of `10 ^ exponent`. -/
def inSteps (x : Double) (exponent : Int) : Nat × Nat :=
  (x.units * Nat.pow 10 (-exponent).toNat, unitsOfOne * Nat.pow 10 exponent.toNat)

/-- The least exponent of a power of ten that is larger than the number. -/
def magnitude (x : Double) : Int :=
  -- The lengths of numerator and denominator leave two neighbours.
  let low : Int := (Text.ofNat x.units).length - (Text.ofNat unitsOfOne).length
  let (num, den) := x.inSteps low
  if den ≤ num then low + 1 else low

/-- The multiple of `10 ^ exponent` nearest to the number that reads back to it. Only the two
neighbours of the number can do so if any multiple does. -/
def decimalAt? (x : Double) (exponent : Int) : Option Decimal :=
  let (num, den) := x.inSteps exponent
  let low := num / den
  let near := roundQuotient num den
  let far := if near = low then low + 1 else low
  [near, far].findSome? fun digits =>
    let d : Decimal := ⟨digits, exponent⟩
    if d.toDouble? = some x then some d else none

/-- Seventeen digits read back to any number. -/
def maxDigits : Nat :=
  17

/-- The decimal number with the fewest digits that reads back to `x`. Where no short one does, the
exact value stands for it. -/
def shortest (x : Double) : Decimal :=
  ((List.range maxDigits).findSome? fun n : Nat => x.decimalAt? (x.magnitude - (n + 1))).getD
    ⟨x.units * Nat.pow 5 1074, -1074⟩

/-- The written form of an exponent. -/
def renderExponent (exponent : Int) : Text :=
  if exponent < 0 then '-' :: Text.ofNat exponent.natAbs else Text.ofNat exponent.natAbs

/-- The written form of a number. There is a point or an exponent in it. -/
def render (x : Double) : Text :=
  if x.units = 0 then "0.0".toList
  else
    let d := x.shortest
    let digits := Text.ofNat d.digits
    -- How many places the digits reach in front of the point.
    let places : Int := digits.length + d.exponent
    if 0 ≤ d.exponent ∧ places ≤ 16 then
      digits ++ List.replicate d.exponent.toNat '0' ++ ".0".toList
    else if 0 < places ∧ places ≤ 16 then
      digits.take places.toNat ++ '.' :: digits.drop places.toNat
    else if -5 < places ∧ places ≤ 0 then
      "0.".toList ++ List.replicate (-places).toNat '0' ++ digits
    else
      let fraction := digits.drop 1
      digits.take 1 ++ (if fraction.isEmpty then [] else '.' :: fraction) ++
        'e' :: renderExponent (places - 1)

end Double

end DiagramEditor
