/-!
Decimal values, `digits * 10 ^ exponent`, and their two bridges to binary floating point: rounding
a decimal to the nearest `Float`, and the exact decimal expansion of a finite one.
-/

namespace Seidel

/-- The value `digits * 10 ^ exponent`. -/
structure Decimal where
  digits : Nat
  exponent : Int
  deriving DecidableEq, Repr

namespace Decimal

/-- The nearest floating-point value, ties to the even one; infinite when the value is too large. -/
def toFloat (d : Decimal) : Float :=
  Float.ofScientific d.digits (decide (d.exponent < 0)) d.exponent.natAbs

/-- The digits as text. -/
def text (d : Decimal) : List Char :=
  Nat.toDigits 10 d.digits

end Decimal

/-- The value `mantissa * 2 ^ exponent`. -/
structure Binary where
  mantissa : Nat
  exponent : Int
  deriving DecidableEq, Repr

/-- The absolute value of a finite float: eleven bits of exponent stand above fifty-two bits of
mantissa, to which a leading one is added unless the exponent bits are zero. -/
def Binary.ofMagnitude (x : Float) : Binary :=
  let bits := x.toBits.toNat
  let exponent := bits / 0x10000000000000 % 0x800
  let mantissa := bits % 0x10000000000000
  if exponent = 0 then ⟨mantissa, -1074⟩
  else ⟨mantissa + 0x10000000000000, (exponent : Int) - 1075⟩

/-- The exact value: a negative power of two is a power of five over a power of ten. -/
def Binary.toDecimal (b : Binary) : Decimal :=
  if b.mantissa = 0 then ⟨0, 0⟩
  else if b.exponent < 0 then ⟨b.mantissa * Nat.pow 5 b.exponent.natAbs, b.exponent⟩
  else ⟨b.mantissa * Nat.pow 2 b.exponent.natAbs, 0⟩

end Seidel
