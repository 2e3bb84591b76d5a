import Seidel.Decimal.Layout
import Seidel.Equation.Basic
import Seidel.Tolerance

/-!
Why a text is no equation.
-/

namespace Seidel

/-- What is wrong with one token. -/
inductive TokenFault
  | missingOperator
  | missingSymbol
  | symbolNotAlphabetic
  | invalidCoefficient
  | invalidConstant
  deriving DecidableEq, Repr

/-- What is wrong with the sequence of tokens. -/
inductive EquationFault
  /-- An equals sign right after an operator. -/
  | operatorWithoutTerm
  /-- An equals sign first. -/
  | noTerms
  /-- A sign or an equals sign where the constant should stand. -/
  | constantExpected
  /-- Something after the constant. -/
  | trailingToken
  | missingConstant
  | trailingOperator
  | missingEquals
  deriving DecidableEq, Repr

/-- Why a text is no equation: the first fault from the left, a repeated variable last. -/
inductive ParseError
  | malformedTerm (token : String) (fault : TokenFault)
  | malformedEquation (source : String) (fault : EquationFault)
  | duplicateVariable (cause : DuplicateVariable)
  | notFinite (cause : NonFinite)
  deriving DecidableEq, Repr

def TokenFault.message : TokenFault → String
  | .missingOperator => "missing '+' or '-' before term"
  | .missingSymbol => "missing variable symbol"
  | .symbolNotAlphabetic => "variable symbol must be alphabetic"
  | .invalidCoefficient => "invalid coefficient"
  | .invalidConstant => "invalid constant"

def EquationFault.message : EquationFault → String
  | .operatorWithoutTerm => "operator has no term before '='"
  | .noTerms => "no terms before '='"
  | .constantExpected => "expected a single constant after '='"
  | .trailingToken => "unexpected token after the constant"
  | .missingConstant => "missing constant after '='"
  | .trailingOperator => "trailing operator"
  | .missingEquals => "missing '='"

def NonFinite.message (e : NonFinite) : String :=
  "Non-finite numeric value for " ++ e.what ++ ": " ++ String.ofList (Decimal.plain.format e.value)

def DuplicateVariable.message (e : DuplicateVariable) : String :=
  "Variable '" ++ e.symbol ++ "' appears more than once in the same equation"

def ParseError.message : ParseError → String
  | .malformedTerm token fault => "Malformed term '" ++ token ++ "': " ++ fault.message
  | .malformedEquation source fault =>
    "Malformed equation '" ++ source ++ "': " ++ fault.message
  | .duplicateVariable cause => cause.message
  | .notFinite cause => "Numeric error: " ++ cause.message

end Seidel
