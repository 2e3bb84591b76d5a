import Seidel.Decimal.Layout
import Seidel.Json.Escape

/-!
JSON values. A number keeps its literal and a string the text between its quotes, so a value holds
everything that well-formed JSON can say, whether or not it means anything to the reader.
-/

namespace Seidel

inductive Json
  | null
  | bool (value : Bool)
  /-- The number as it is written. -/
  | number (literal : List Char)
  /-- The text between the quotes, with its escapes. -/
  | string (inner : List Char)
  | array (items : List Json)
  /-- The members in order; the text between the quotes of each name. A name may occur twice. -/
  | object (members : List (List Char × Json))

namespace Json

/-- A string with these characters. -/
def ofString (s : String) : Json :=
  .string (escape s.toList)

def ofNat (n : Nat) : Json :=
  .number (Nat.toDigits 10 n)

/-- Floats have an exponent below `1e-5` and from `1e16` on, and a decimal point otherwise. -/
def floatLayout : Decimal.Layout where
  tie := .even
  isPositional exponent := -5 ≤ exponent && exponent < 16
  pointZero := true
  plusSign := true

/-- A finite float; `null` for any other. -/
def ofFloat (x : Float) : Json :=
  if x.isFinite then .number (floatLayout.finite x) else .null

end Json

end Seidel
