import Std.Data.TreeMap
import Seidel.Equation.Basic
import Seidel.Scalar

/-!
Linear systems. The variables of a list of equations are numbered by first appearance, equations in
order and terms in order; equation `i` is the one that determines variable `i`. Nothing here
reorders equations: which equation stands at which position is part of the input.

A system finds the symbol of a position in a list and the position of a symbol in a map. One loop
grows both of them.
-/

namespace Seidel

/-- A system has at most this many variables. -/
def Variable.limit : Nat := 4294967295

/-- The position of a variable in the canonical order. -/
structure Variable where
  index : Nat
  index_lt : index < Variable.limit
  deriving DecidableEq, Repr

def Variable.ofIndex? (index : Nat) : Option Variable :=
  if h : index < Variable.limit then some ⟨index, h⟩ else none

/-- Symbols by position and positions by symbol. The map is only searched, so that no order of its
entries shows. -/
structure Numbering where
  symbols : List String
  positions : Std.TreeMap String Variable

namespace Numbering

def empty : Numbering :=
  ⟨[], ∅⟩

/-- A new symbol gets the next position; none when there is no next one. -/
def add? (n : Numbering) (symbol : String) : Option Numbering :=
  if n.positions.contains symbol then some n
  else (Variable.ofIndex? n.symbols.length).map fun v =>
    ⟨n.symbols ++ [symbol], n.positions.insert symbol v⟩

/-- Numbers the variables of some equations in the order in which they appear. -/
def ofEquations? {R : Type} (equations : List (Equation R)) : Option Numbering :=
  (equations.flatMap Equation.symbols).foldlM add? empty

end Numbering

/-- The left-hand side of an equation with positions for variables, in term order. -/
abbrev Row (R : Type) := List (Variable × R)

/-- The row of an equation, none when one of its variables has no position. -/
def Row.ofTerms? {R : Type} (positions : Std.TreeMap String Variable) (terms : List (Term R)) :
    Option (Row R) :=
  terms.mapM fun t => positions[t.symbol]?.map (·, t.coefficient)

/-- The coefficient of the variable at a position, zero when the row does not mention it. -/
def Row.coefficient {R : Type} [Scalar R] (row : Row R) (index : Nat) : R :=
  ((row.find? (·.1.index == index)).map Prod.snd).getD Scalar.zero

/-- Equations with the numbers of their variables and one row each. -/
structure LinearSystem (R : Type) extends Numbering where
  equations : List (Equation R)
  rows : List (Row R)
  numbered : Numbering.ofEquations? equations = some toNumbering
  rows_eq : equations.mapM (Row.ofTerms? positions ·.terms) = some rows

namespace LinearSystem

variable {R : Type}

/-- The system of some equations, none when they have more variables than can be numbered. -/
def ofEquations? (equations : List (Equation R)) : Option (LinearSystem R) :=
  match numbered : Numbering.ofEquations? equations with
  | none => none
  | some numbering =>
    match rows_eq : equations.mapM (Row.ofTerms? numbering.positions ·.terms) with
    | none => none
    | some rows => some ⟨numbering, equations, rows, numbered, rows_eq⟩

/-- The position of a symbol. -/
def variableOf? (s : LinearSystem R) (symbol : String) : Option Variable :=
  s.positions[symbol]?

/-- The symbol at a position. -/
def symbol? (s : LinearSystem R) (v : Variable) : Option String :=
  s.symbols[v.index]?

/-- The coefficient of a variable in an equation. -/
def coefficient? [Scalar R] (s : LinearSystem R) (equation : Nat) (v : Variable) : Option R :=
  (s.rows[equation]?).map (·.coefficient v.index)

/-- The constant of an equation. -/
def constant? (s : LinearSystem R) (equation : Nat) : Option R :=
  (s.equations[equation]?).map Equation.constant

/-- The constants of the equations. -/
def constants (s : LinearSystem R) : List R :=
  s.equations.map Equation.constant

/-- Whether there is one equation for each variable. -/
def IsSquare (s : LinearSystem R) : Prop :=
  s.equations.length = s.symbols.length

instance (s : LinearSystem R) : Decidable s.IsSquare :=
  inferInstanceAs (Decidable (_ = _))

end LinearSystem

end Seidel
