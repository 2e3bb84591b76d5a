import Seidel.Decimal.Numeral

/-!
The command line. A subcommand comes first, `solve` or `check`, and options follow; each option may
be given once and has a value, which is not empty.
-/

namespace Seidel

/-- How a solution is reported. -/
inductive ReportFormat
  | text
  | json
  deriving DecidableEq, Repr

inductive Command
  /-- Runs sweeps and reports every one of them. -/
  | solve (file : Option String) (iterations : Option Nat) (format : ReportFormat)
  /-- Shows the system. -/
  | check (file : Option String)
  deriving DecidableEq, Repr

namespace Command

inductive OptionName
  | file
  | iterations
  | format
  deriving DecidableEq, Repr

def OptionName.ofLong? (name : List Char) : Option OptionName :=
  if name = "file".toList then some .file
  else if name = "iterations".toList then some .iterations
  else if name = "format".toList then some .format
  else none

def OptionName.ofShort? : Char → Option OptionName
  | 'f' => some .file
  | 'n' => some .iterations
  | _ => none

/-- An argument that begins an option. -/
inductive Opening
  /-- The value is in the same argument. -/
  | attached (name : OptionName) (value : List Char)
  /-- The value is the next argument. -/
  | separate (name : OptionName)
  deriving DecidableEq, Repr

/-- A long option has its value after an equals sign, if in the same argument. -/
def Opening.ofLong? (cs : List Char) : Option Opening :=
  match cs.span (· != '=') with
  | (name, []) => (OptionName.ofLong? name).map .separate
  | (name, _ :: value) => (OptionName.ofLong? name).map (.attached · value)

/-- A short option has its value right after its letter, or after an equals sign. -/
def Opening.ofArgument? : List Char → Option Opening
  | '-' :: '-' :: cs => ofLong? cs
  | ['-', c] => (OptionName.ofShort? c).map .separate
  | '-' :: c :: '=' :: value => (OptionName.ofShort? c).map (.attached · value)
  | '-' :: c :: value => (OptionName.ofShort? c).map (.attached · value)
  | _ => none

/-- Whether an argument can be the separate value of an option: a lone hyphen can, anything longer
that starts with a hyphen cannot. -/
def isValue : List Char → Bool
  | ['-'] => true
  | '-' :: _ => false
  | _ => true

/-- The options of a subcommand with their values, in order. -/
def options? : List (List Char) → Option (List (OptionName × List Char))
  | [] => some []
  | argument :: rest =>
    if argument = ['-', '-'] then
      if rest = [] then some [] else none
    else match Opening.ofArgument? argument, rest with
      | some (.attached name value), rest => (options? rest).map ((name, value) :: ·)
      | some (.separate name), value :: rest =>
        if isValue value then (options? rest).map ((name, value) :: ·) else none
      | _, _ => none

/-- A count: digits, with an optional plus sign, below `2 ^ 64`. -/
def count? (cs : List Char) : Option Nat :=
  let digits := match cs with
    | '+' :: digits => digits
    | digits => digits
  let n := Decimal.natOfDigits digits
  if digits ≠ [] ∧ digits.all Char.isDigit ∧ n < UInt64.size then some n else none

def format? (cs : List Char) : Option ReportFormat :=
  if cs = "text".toList then some .text
  else if cs = "json".toList then some .json
  else none

/-- The value of an option that is given at most once, and is not empty. -/
def valueOf? (options : List (OptionName × List Char)) (name : OptionName) :
    Option (Option (List Char)) :=
  match options.filter (·.1 == name) with
  | [] => some none
  | [(_, value)] => if value = [] then none else some (some value)
  | _ => none

/-- The value of an option in the form that it must have. -/
def optional? {α : Type} (read? : List Char → Option α) : Option (List Char) → Option (Option α)
  | none => some none
  | some value => (read? value).map some

/-- The command that some arguments ask for; none when they are misused. -/
def ofArguments? (arguments : List String) : Option Command :=
  match arguments with
  | [] => none
  | subcommand :: rest => do
    let options ← options? (rest.map String.toList)
    let file := (← valueOf? options .file).map String.ofList
    let iterations ← valueOf? options .iterations
    let format ← valueOf? options .format
    if subcommand = "solve" then
      some (.solve file (← optional? count? iterations)
        ((← optional? format? format).getD .text))
    else if subcommand = "check" then
      if iterations.isNone ∧ format.isNone then some (.check file) else none
    else none

end Command

end Seidel
