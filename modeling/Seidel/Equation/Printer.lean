import Seidel.Decimal.Layout
import Seidel.Equation.Basic

/-!
Equations as text: `10x + y - 3z = 12`. A coefficient of one is left out, and the sign of every
term but the first becomes the operator before it.
-/

namespace Seidel

/-- A variable after its coefficient; one and minus one leave only the sign. -/
def Term.text (t : Term Float) : String :=
  if t.coefficient == .ofBits 0x3FF0000000000000 then t.symbol
  else if t.coefficient == .ofBits 0xBFF0000000000000 then "-" ++ t.symbol
  else String.ofList (Decimal.plain.format t.coefficient) ++ t.symbol

/-- A term after the first: an operator stands for the sign of its coefficient. -/
def Term.continuation (t : Term Float) : String :=
  (if t.coefficient < .ofBits 0 then " - " else " + ")
    ++ Term.text { t with coefficient := t.coefficient.abs }

/-- The left-hand side. -/
def Term.sumText : List (Term Float) → String
  | [] => ""
  | t :: rest => t.text ++ String.join (rest.map Term.continuation)

/-- The equation in the form that it is read in. -/
def Equation.text (e : Equation Float) : String :=
  Term.sumText e.terms ++ " = " ++ String.ofList (Decimal.plain.format e.constant)

end Seidel
