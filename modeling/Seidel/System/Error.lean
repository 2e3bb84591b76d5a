import Seidel.Equation.Error

/-!
Why equations form no system, or a system cannot be used as it is.
-/

namespace Seidel

inductive SystemError
  /-- An equation, counted from zero, that could not be read. -/
  | parse (index : Nat) (cause : ParseError)
  /-- Not as many equations as variables. -/
  | structural (equations unknowns : Nat)
  /-- Not one value for each variable. -/
  | dimension (expected actual : Nat)
  /-- More variables than can be numbered. -/
  | tooManyVariables
  deriving DecidableEq, Repr

def SystemError.message : SystemError → String
  | .parse index cause =>
    "Equation " ++ index.repr ++ " could not be parsed: " ++ cause.message
  | .structural equations unknowns =>
    "System has " ++ equations.repr ++ " equations for " ++ unknowns.repr
      ++ " variables; each variable needs exactly one equation"
  | .dimension expected actual =>
    "Dimension mismatch: residual input (expected " ++ expected.repr ++ ", got "
      ++ actual.repr ++ ")"
  | .tooManyVariables => "System has more variables than can be numbered"

end Seidel
