import Seidel.Decimal.Shortest

/-!
How a float is written: the shortest digits that read back, laid out with a decimal point or with
an exponent. A `Layout` holds the decisions of one format.
-/

namespace Seidel.Decimal

/-- The decisions of one number format. -/
structure Layout where
  /-- What stands for a value halfway between two shortest decimals. -/
  tie : Tie
  /-- Whether a number whose first digit counts `10 ^ exponent` is written without an exponent. -/
  isPositional : Int → Bool
  /-- Whether a whole number written without an exponent ends in `.0`. -/
  pointZero : Bool
  /-- Whether an exponent that is not negative has a plus sign. -/
  plusSign : Bool

/-- The exponent of the first digit: `2` for `314` and `0` for `3.14`. -/
def leadingExponent (d : Decimal) : Int :=
  d.exponent + d.text.length - 1

/-- The digits with a point `point` places after their start, or before it when that is negative. -/
def positional (digits : List Char) (point : Int) (pointZero : Bool) : List Char :=
  if point ≤ 0 then
    '0' :: '.' :: (List.replicate point.natAbs '0' ++ digits)
  else if digits.length ≤ point.natAbs then
    digits ++ List.replicate (point.natAbs - digits.length) '0'
      ++ (if pointZero then ['.', '0'] else [])
  else
    digits.take point.natAbs ++ '.' :: digits.drop point.natAbs

/-- One digit, a point if more follow, and the exponent. -/
def scientific (digits : List Char) (exponent : Int) (plusSign : Bool) : List Char :=
  digits.take 1
    ++ (if 1 < digits.length then '.' :: digits.drop 1 else [])
    ++ 'e' :: ((if exponent < 0 then ['-'] else if plusSign then ['+'] else [])
    ++ Nat.toDigits 10 exponent.natAbs)

/-- Zero is written as the single digit. -/
def Layout.decimal (l : Layout) (d : Decimal) : List Char :=
  let exponent := d.leadingExponent
  if l.isPositional exponent then positional d.text (exponent + 1) l.pointZero
  else scientific d.text exponent l.plusSign

/-- Whether the sign bit is set: true of `-0.0`. -/
def isNegative (x : Float) : Bool :=
  0x8000000000000000 ≤ x.toBits

/-- The text of a finite float. -/
def Layout.finite (l : Layout) (x : Float) : List Char :=
  (if isNegative x then ['-'] else []) ++ l.decimal (shortest l.tie x.abs)

/-- The text of any float: infinities are `inf` and `-inf`, and what is not a number is `NaN`. -/
def Layout.format (l : Layout) (x : Float) : List Char :=
  if x.isFinite then l.finite x
  else if x.isNaN then ['N', 'a', 'N']
  else if isNegative x then ['-', 'i', 'n', 'f']
  else ['i', 'n', 'f']

/-- Equations and reports: never an exponent, and no point in a whole number. -/
def plain : Layout := ⟨.up, fun _ => true, false, false⟩

/-- The largest residual of a report: always an exponent. -/
def scaled : Layout := ⟨.up, fun _ => false, false, false⟩

end Seidel.Decimal
