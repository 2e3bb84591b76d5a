import Seidel.System.Basic
import Seidel.System.Error
import Seidel.Tolerance

/-!
How far values are from solving a system. The residual of an equation is computed from its dense
row, so a variable that the equation leaves out takes part with a coefficient of zero.
-/

namespace Seidel

variable {R : Type} [Scalar R]

/-- A row with one coefficient for each of `size` variables. -/
def Row.dense (size : Nat) (row : Row R) : List R :=
  row.foldl (fun dense (v, c) => dense.set v.index c) (List.replicate size Scalar.zero)

/-- The products of matching entries, added from left to right; zero for no entries. -/
def dotProduct (coefficients values : List R) : R :=
  match List.zipWith (· * ·) coefficients values with
  | [] => Scalar.zero
  | p :: ps => ps.foldl (· + ·) p

namespace LinearSystem

/-- One row for each equation, one column for each variable. -/
def matrix (s : LinearSystem R) : List (List R) :=
  s.rows.map (Row.dense s.symbols.length)

/-- The left-hand side less the constant, for each equation. -/
def residuals (s : LinearSystem R) (values : List R) : Except SystemError (List R) :=
  if values.length = s.symbols.length then
    .ok (List.zipWith (fun row constant => dotProduct row values - constant) s.matrix s.constants)
  else .error (.dimension s.symbols.length values.length)

/-- Whether the left-hand side of every equation is its constant, within a tolerance. -/
def isSolvedBy (s : LinearSystem Float) (values : List Float) (t : Tolerance) :
    Except SystemError Bool :=
  (s.residuals values).map fun residuals =>
    (residuals.zip s.constants).all fun (r, k) => t.admits (k + r) k

end LinearSystem

end Seidel
