import Seidel.Decimal.Numeral

/-!
What plain text means besides text: nothing, a truth value or a number.
-/

namespace Seidel.Yaml

/-- The words for nothing, of which the empty text is none. -/
def isNullWord (cs : List Char) : Bool :=
  cs = ['~'] || cs = "null".toList || cs = "Null".toList || cs = "NULL".toList

def isTruthWord (cs : List Char) : Bool :=
  cs = "true".toList || cs = "True".toList || cs = "TRUE".toList
    || cs = "false".toList || cs = "False".toList || cs = "FALSE".toList

/-- The text without a sign at its start. -/
def dropSign : List Char → List Char
  | '+' :: cs | '-' :: cs => cs
  | cs => cs

/-- Whether the text would be a whole number if it did not start with a zero. -/
def isPaddedNumber (cs : List Char) : Bool :=
  match dropSign cs with
  | '0' :: d :: ds => (d :: ds).all Char.isDigit
  | _ => false

/-- The value of a digit in bases up to sixteen. -/
def digitValue? (c : Char) : Option Nat :=
  if c.isDigit then some (c.toNat - 48)
  else if 'a' ≤ c && c ≤ 'f' then some (c.toNat - 87)
  else if 'A' ≤ c && c ≤ 'F' then some (c.toNat - 55)
  else none

/-- The value of at least one digit in a base. -/
def natOfDigits? (base : Nat) (cs : List Char) : Option Nat :=
  if cs = [] then none
  else cs.foldlM (fun n c => (digitValue? c).bind fun d =>
    if d < base then some (n * base + d) else none) 0

/-- A number in base sixteen, eight or two after the mark of the base. -/
def natOfMarked? : List Char → Option Nat
  | '0' :: 'x' :: cs => natOfDigits? 16 cs
  | '0' :: 'o' :: cs => natOfDigits? 8 cs
  | '0' :: 'b' :: cs => natOfDigits? 2 cs
  | _ => none

/-- The text after a plus sign, if it starts with one. -/
def dropPlus : List Char → List Char
  | '+' :: cs => cs
  | cs => cs

/-- A whole number that is not negative, with an optional plus sign. -/
def natOfWord? (cs : List Char) : Option Nat :=
  match natOfMarked? (dropPlus cs) with
  | some n => some n
  | none => if isPaddedNumber cs then none else natOfDigits? 10 (dropPlus cs)

/-- The absolute value of a whole number with a minus sign. -/
def natOfNegative? : List Char → Option Nat
  | '-' :: cs =>
    match natOfMarked? cs with
    | some n => some n
    | none => if isPaddedNumber cs then none else natOfDigits? 10 cs
  | _ => none

/-- Whether the text is a whole number of at most 128 bits. -/
def isIntegerWord (cs : List Char) : Bool :=
  (natOfWord? cs).any (· < 340282366920938463463374607431768211456)
    || (natOfNegative? cs).any (· ≤ 170141183460469231731687303715884105728)

/-- Whether the text is a floating-point number: a finite one, or one of the words for others. -/
def isFloatWord (cs : List Char) : Bool :=
  let unsigned := dropPlus cs
  let twoSigns := cs.head? = some '+' && (unsigned.head? = some '+' || unsigned.head? = some '-')
  let infinities := [".inf".toList, ".Inf".toList, ".INF".toList]
  !twoSigns && (infinities.contains unsigned
    || (cs.head? = some '-' && infinities.contains cs.tail)
    || cs = ".nan".toList || cs = ".NaN".toList || cs = ".NAN".toList
    || (Decimal.floatOfText? unsigned).any Float.isFinite)

/-- Whether plain text would not be read back as text, or is a padded number, which other readers
may take for a number. -/
def isReserved (cs : List Char) : Bool :=
  cs = [] || isNullWord cs || isTruthWord cs || isIntegerWord cs || isFloatWord cs
    || isPaddedNumber cs

end Seidel.Yaml
