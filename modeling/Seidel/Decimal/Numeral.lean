import Seidel.Decimal.Basic

/-!
Reading a float from text. A numeral has an optional sign and then either digits with at most one
point among them and an optional exponent, or one of the words `inf`, `infinity` and `nan` in
any case.
-/

namespace Seidel.Decimal

/-- The value of a run of decimal digits. -/
def natOfDigits (cs : List Char) : Nat :=
  Nat.ofDigitChars 10 cs 0

/-- A sign at the start of a text: whether it is a minus, and what follows. -/
def signOf : List Char → Bool × List Char
  | '-' :: cs => (true, cs)
  | '+' :: cs => (false, cs)
  | cs => (false, cs)

/-- The exponent at the end of a numeral: nothing, or an `e`, an optional sign and digits. -/
def exponentOf? : List Char → Option Int
  | [] => some 0
  | c :: cs =>
    if c = 'e' ∨ c = 'E' then
      let (negative, digits) := signOf cs
      if digits ≠ [] ∧ digits.all Char.isDigit then
        let n : Int := natOfDigits digits
        some (if negative then -n else n)
      else none
    else none

/-- The part after the digits before the point: the digits after it, if there is one, and what
follows them. -/
def fractionOf : List Char → List Char × List Char
  | '.' :: cs => (cs.takeWhile Char.isDigit, cs.dropWhile Char.isDigit)
  | cs => ([], cs)

/-- A numeral without a sign, as an exact decimal. At least one digit must stand before or after
the point. -/
def ofNumeral? (cs : List Char) : Option Decimal :=
  let whole := cs.takeWhile Char.isDigit
  let (fraction, rest) := fractionOf (cs.dropWhile Char.isDigit)
  if whole ++ fraction = [] then none
  else (exponentOf? rest).map fun e => ⟨natOfDigits (whole ++ fraction), e - fraction.length⟩

/-- The words for values that are not finite. -/
def ofWord? (cs : List Char) : Option Float :=
  let word := cs.map Char.toLower
  if word = ['i', 'n', 'f'] ∨ word = ['i', 'n', 'f', 'i', 'n', 'i', 't', 'y'] then
    some (.ofBits 0x7FF0000000000000)
  else if word = ['n', 'a', 'n'] then some (.ofBits 0x7FF8000000000000)
  else none

/-- The float nearest to the value of a numeral. -/
def floatOfText? (cs : List Char) : Option Float :=
  let (negative, magnitude) := signOf cs
  let value := match ofWord? magnitude with
    | some x => some x
    | none => (ofNumeral? magnitude).map toFloat
  value.map fun x => if negative then -x else x

end Seidel.Decimal
