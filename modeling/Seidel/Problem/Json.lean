import Seidel.Decimal.Numeral
import Seidel.Json.Parser
import Seidel.Json.Printer
import Seidel.Problem.Basic

/-!
Problems as JSON: an object with the members `name`, `iterations` and `equations`, of which only the
last is required, or an array of the three. Other members are ignored.
-/

namespace Seidel.Problem

/-- The characters of a string. -/
def textOfJson? : Json → Option String
  | .string inner => (Json.unescape? inner).map String.ofList
  | _ => none

/-- A string, or `null` for none. -/
def nameOfJson? : Json → Option (Option String)
  | .null => some none
  | value => (textOfJson? value).map some

/-- A whole number without sign, point and exponent, below `2 ^ 64`. -/
def iterationsOfJson? : Json → Option UInt64
  | .number literal =>
    let n := Decimal.natOfDigits literal
    if literal.all Char.isDigit ∧ n < UInt64.size then some (.ofNat n) else none
  | _ => none

def equationsOfJson? : Json → Option (List String)
  | .array items => items.mapM textOfJson?
  | _ => none

/-- The only member with a name, or `default` when there is none. None when there are several. -/
def member? (members : List (String × Json)) (name : String) (default : Option Json) :
    Option Json :=
  match members.filter (·.1 == name) with
  | [] => default
  | [(_, value)] => some value
  | _ => none

def ofMembers? (members : List (String × Json)) : Option Problem := do
  let name ← member? members "name" (some .null)
  let iterations ← member? members "iterations" (some (.ofNat 10))
  let equations ← member? members "equations" none
  some ⟨← nameOfJson? name, ← iterationsOfJson? iterations, ← equationsOfJson? equations⟩

/-- The problem that a value describes. Every member name of the object must stand for a text. -/
def ofJson? : Json → Option Problem
  | .array [name, iterations, equations] => do
    some ⟨← nameOfJson? name, ← iterationsOfJson? iterations, ← equationsOfJson? equations⟩
  | .object members => do
    let members ← members.mapM fun (name, value) =>
      (Json.unescape? name).map fun name => (String.ofList name, value)
    ofMembers? members
  | _ => none

/-- Reads a problem. -/
def parseJson? (source : String) : Option Problem :=
  (Json.parse? source.toList).bind ofJson?

/-- A missing name is left out. -/
def toJson (p : Problem) : Json :=
  let name := match p.name with
    | some name => [("name".toList, Json.ofString name)]
    | none => []
  .object (name ++ [("iterations".toList, .ofNat p.iterations.toNat),
    ("equations".toList, .array (p.equations.map .ofString))])

/-- The text of a problem file. -/
def printJson (p : Problem) : String :=
  p.toJson.pretty

end Seidel.Problem
