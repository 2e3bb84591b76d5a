/-!
The arithmetic that equations are solved in. A sweep is written once for every `Scalar`: in
`Float` it is the program that runs, in `Rat` it is the exact iteration that the floating-point
one approximates.
-/

namespace Seidel

/-- Four operations, a zero, and the value of a sum with no terms. -/
class Scalar (R : Type) extends Add R, Sub R, Mul R, Div R where
  /-- The coefficient of a variable that an equation leaves out. -/
  zero : R
  /-- Adding to it changes nothing, not even the sign of a zero. -/
  emptySum : R
  /-- Division by such a value is refused. -/
  isZero : R → Bool

/-- In binary floating point, `-0.0` and not `0.0` is neutral for addition: `0.0 + -0.0` is `0.0`.
Both zeros are zero. -/
instance : Scalar Float where
  zero := .ofBits 0
  emptySum := .ofBits 0x8000000000000000
  isZero x := x == .ofBits 0

instance : Scalar Rat where
  add := Rat.add
  sub := Rat.sub
  mul := Rat.mul
  div := Rat.div
  zero := 0
  emptySum := 0
  isZero x := decide (x = 0)

/-- The sum from left to right. -/
def Scalar.sum {R : Type} [Scalar R] (xs : List R) : R :=
  xs.foldl (· + ·) Scalar.emptySum

end Seidel
