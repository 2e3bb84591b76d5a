import Seidel.System.Text
import Seidel.Text.Blank

/-!
Problems: the equations of a system with the number of sweeps to run and perhaps a name.
-/

namespace Seidel

structure Problem where
  name : Option String := none
  iterations : UInt64 := 10
  equations : List String
  deriving DecidableEq, Repr

/-- Why a problem has nothing to solve. -/
inductive ValidationError
  | noEquations
  | blankEquation (index : Nat)
  deriving DecidableEq, Repr

def ValidationError.message : ValidationError → String
  | .noEquations => "Validation error: problem has no equations"
  | .blankEquation index => "Validation error: equation " ++ index.repr ++ " is blank"

/-- Whether a text holds nothing but white space. -/
def Text.isBlankText (s : String) : Bool :=
  Text.trim s.toList == []

namespace Problem

/-- Refuses a problem without equations, or with one that is blank. -/
def validate (p : Problem) : Except ValidationError Unit :=
  if p.equations = [] then .error .noEquations
  else match p.equations.findIdx? Text.isBlankText with
    | some index => .error (.blankEquation index)
    | none => .ok ()

/-- The system of the equations. -/
def system (p : Problem) : Except SystemError (LinearSystem Float) :=
  LinearSystem.parse p.equations

end Problem

end Seidel
