import Seidel.Equation.Parser
import Seidel.Equation.Printer
import Seidel.System.Basic
import Seidel.System.Error

/-!
Systems as text: a list of equations is read, and a system is shown with the variable that each
equation determines.
-/

namespace Seidel

/-- Reads equations, the first of them counted as `index`; stops at the first that is none. -/
def parseEquations (index : Nat) : List String → Except SystemError (List (Equation Float))
  | [] => .ok []
  | source :: rest =>
    match Equation.parse source with
    | .error cause => .error (.parse index cause)
    | .ok e => (parseEquations (index + 1) rest).map (e :: ·)

namespace LinearSystem

/-- The system of some equations that have been read. -/
def ofEquations {R : Type} (equations : List (Equation R)) :
    Except SystemError (LinearSystem R) :=
  match ofEquations? equations with
  | some s => .ok s
  | none => .error .tooManyVariables

/-- Reads and numbers the equations, one text for each. -/
def parse (sources : List String) : Except SystemError (LinearSystem Float) :=
  (parseEquations 0 sources).bind ofEquations

/-- An equation with its position and the variable there. -/
def line (s : LinearSystem Float) (index : Nat) (e : Equation Float) : String :=
  "[" ++ index.repr ++ "] " ++ (s.symbols[index]?).getD "?" ++ ": " ++ e.text

/-- One line for each equation. -/
def text (s : LinearSystem Float) : String :=
  String.join ((s.equations.mapIdx s.line).map (· ++ "\n"))

/-- Refuses a system without one equation for each variable. -/
def validate {R : Type} (s : LinearSystem R) : Except SystemError Unit :=
  if s.IsSquare then .ok () else .error (.structural s.equations.length s.symbols.length)

end LinearSystem

end Seidel
