import Seidel.Json.Printer
import Seidel.Scalar
import Seidel.System.Basic

/-!
Values for the variables of a system, and what they are after each sweep.
-/

namespace Seidel

/-- A value for each variable, in canonical order. -/
structure Approximation (R : Type) where
  symbols : List String
  values : List R
  deriving DecidableEq, Repr

namespace Approximation

variable {R : Type}

/-- Where the iteration starts. -/
def zeros [Scalar R] (symbols : List String) : Approximation R :=
  ⟨symbols, List.replicate symbols.length Scalar.zero⟩

/-- The value at a position. -/
def value? (a : Approximation R) (v : Variable) : Option R :=
  a.values[v.index]?

/-- The value of the first variable with this symbol. -/
def get? (a : Approximation R) (symbol : String) : Option R :=
  (a.symbols.idxOf? symbol).bind (a.values[·]?)

/-- Every variable with its value. -/
def pairs (a : Approximation R) : List (String × R) :=
  a.symbols.zip a.values

/-- The values between braces: `{x: 1, y: 2.5}`. -/
def text (a : Approximation Float) : String :=
  "\x7b" ++ ", ".intercalate (a.pairs.map fun (symbol, value) =>
    symbol ++ ": " ++ String.ofList (Decimal.plain.format value)) ++ "\x7d"

/-- An object with a member for each variable. -/
def json (a : Approximation Float) : Json :=
  .object (a.pairs.map fun (symbol, value) => (Json.escape symbol.toList, Json.ofFloat value))

end Approximation

/-- The values after a completed sweep; the first sweep has number one. -/
structure Snapshot (R : Type) where
  iteration : Nat
  approximation : Approximation R
  deriving DecidableEq, Repr

/-- The line of a report. -/
def Snapshot.text (s : Snapshot Float) : String :=
  "Iteration " ++ s.iteration.repr ++ " is " ++ s.approximation.text

/-- An object with the number of the sweep and the values. -/
def Snapshot.json (s : Snapshot Float) : Json :=
  .object [("iteration".toList, .ofNat s.iteration), ("approximation".toList, s.approximation.json)]

end Seidel
