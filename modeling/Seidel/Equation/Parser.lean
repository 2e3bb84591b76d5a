import Seidel.Decimal.Numeral
import Seidel.Equation.Basic
import Seidel.Equation.Error
import Seidel.Text.Blank
import Seidel.Text.Letter

/-!
Reading an equation. The text is cut into words at white space. Signs come before a term, and
must come before every term but the first; several of them combine, so `x + - y` is `x - y`. Then
come an equals sign and one constant. Inside a term, the longest start of digits, points and
hyphens is the coefficient and the rest is the variable.
-/

namespace Seidel

/-- The sign before a term. -/
inductive Sign
  | plus
  | minus
  deriving DecidableEq, Repr

/-- The sign of a value after another sign. -/
def Sign.then : Sign → Sign → Sign
  | .plus, s => s
  | .minus, .plus => .minus
  | .minus, .minus => .plus

def Sign.apply : Sign → Float → Float
  | .plus, x => x
  | .minus, x => -x

/-- One word of an equation. -/
inductive Token
  | sign (sign : Sign)
  | equals
  | word (chars : List Char)
  deriving DecidableEq, Repr

def Token.ofWord : List Char → Token
  | ['+'] => .sign .plus
  | ['-'] => .sign .minus
  | ['='] => .equals
  | cs => .word cs

/-- What may stand in the coefficient of a term. -/
def isNumeralChar (c : Char) : Bool :=
  c.isDigit || c == '-' || c == '.'

/-- The coefficient at the start of a term: one when it is left out, minus one for a mere hyphen. -/
def coefficientOfText? : List Char → Option Float
  | [] => some (.ofBits 0x3FF0000000000000)
  | ['-'] => some (.ofBits 0xBFF0000000000000)
  | cs => Decimal.floatOfText? cs

/-- A coefficient and the variable right after it. -/
def Term.ofWord (cs : List Char) : Except ParseError (Term Float) :=
  let digits := cs.takeWhile isNumeralChar
  let symbol := cs.dropWhile isNumeralChar
  let malformed fault := Except.error (.malformedTerm (String.ofList cs) fault)
  if symbol = [] then malformed .missingSymbol
  else if !symbol.all Text.isLetter then malformed .symbolNotAlphabetic
  else match coefficientOfText? digits with
    | none => malformed .invalidCoefficient
    | some c => match requireFinite "coefficient" c with
      | .error e => .error (.notFinite e)
      | .ok c => .ok ⟨String.ofList symbol, c⟩

/-- The right-hand side. -/
def constantOfWord (cs : List Char) : Except ParseError Float :=
  match Decimal.floatOfText? cs with
  | none => .error (.malformedTerm (String.ofList cs) .invalidConstant)
  | some c => match requireFinite "constant" c with
    | .error e => .error (.notFinite e)
    | .ok c => .ok c

/-- What may come next in an equation. -/
inductive Expectation
  /-- A term, or another sign before it; `signed` when a sign has been read since the last term. -/
  | term (sign : Sign) (signed : Bool)
  | operator
  | constant
  | nothing (constant : Float)
  deriving DecidableEq, Repr

/-- An equation of which some words have been read. -/
structure Draft where
  terms : List (Term Float)
  expects : Expectation
  deriving DecidableEq, Repr

namespace Draft

/-- Nothing has been read. -/
def start : Draft := ⟨[], .term .plus false⟩

/-- Reads one more word of the equation `source`. -/
def read (source : String) (p : Draft) (word : List Char) : Except ParseError Draft :=
  let malformed fault := Except.error (.malformedEquation source fault)
  match p.expects, Token.ofWord word with
  | .term sign _, .sign next => .ok { p with expects := .term (sign.then next) true }
  | .term _ true, .equals => malformed .operatorWithoutTerm
  | .term _ false, .equals => malformed .noTerms
  | .term sign _, .word cs => do
    let t ← Term.ofWord cs
    .ok ⟨p.terms ++ [{ t with coefficient := sign.apply t.coefficient }], .operator⟩
  | .operator, .sign sign => .ok { p with expects := .term sign true }
  | .operator, .equals => .ok { p with expects := .constant }
  | .operator, .word cs => .error (.malformedTerm (String.ofList cs) .missingOperator)
  | .constant, .word cs => do
    let c ← constantOfWord cs
    .ok { p with expects := .nothing c }
  | .constant, _ => malformed .constantExpected
  | .nothing _, _ => malformed .trailingToken

/-- The equation after its last word. -/
def finish (source : String) (p : Draft) : Except ParseError (Equation Float) :=
  match p.expects with
  | .nothing constant => (Equation.ofTerms p.terms constant).mapError .duplicateVariable
  | .constant => .error (.malformedEquation source .missingConstant)
  | .term _ true => .error (.malformedEquation source .trailingOperator)
  | .term _ false => .error (.malformedEquation source .missingEquals)
  | .operator => .error (.malformedEquation source .missingEquals)

end Draft

/-- Reads one equation. -/
def Equation.parse (source : String) : Except ParseError (Equation Float) := do
  let p ← (Text.words source.toList).foldlM (Draft.read source) Draft.start
  p.finish source

end Seidel
