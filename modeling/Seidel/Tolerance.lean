/-!
Comparing floating-point values: equality up to a tolerance, the largest absolute value, and the
refusal of values that are not numbers or not finite.
-/

namespace Seidel

/-- How far apart two values may be, absolutely and relative to the larger of them. -/
structure Tolerance where
  abs : Float
  rel : Float

/-- The tolerance of a report's verdict. -/
def Tolerance.standard : Tolerance := ⟨1e-12, 1e-9⟩

/-- The larger of two values; a value that is not a number loses. -/
def larger (a b : Float) : Float :=
  if a < b || a.isNaN then b else a

/-- Whether `a` and `b` differ by no more than one of the two bounds allows. -/
def Tolerance.admits (t : Tolerance) (a b : Float) : Bool :=
  let gap := (a - b).abs
  decide (gap ≤ t.abs) || decide (gap ≤ t.rel * larger a.abs b.abs)

/-- The largest absolute value, zero for no values. -/
def largestMagnitude (xs : List Float) : Float :=
  xs.foldl (fun m x => larger m x.abs) (.ofBits 0)

/-- A value that had to be finite and is not. -/
structure NonFinite where
  what : String
  value : Float
  deriving DecidableEq, Repr

/-- The value itself when it is finite. -/
def requireFinite (what : String) (x : Float) : Except NonFinite Float :=
  if x.isFinite then .ok x else .error ⟨what, x⟩

end Seidel
