import Seidel.Approximation
import Seidel.System.Residual

/-!
Gauss-Seidel iteration. One list of values is improved in place: equation `i` is solved for
variable `i` with the values that all other variables have at that moment, so later updates of a
sweep already see the results of earlier ones. Nothing tests for convergence.
-/

namespace Seidel

/-- Why an iteration stopped. -/
inductive SolverError
  | system (cause : SystemError)
  /-- Equation `equation` cannot be solved for its own variable. -/
  | zeroDiagonal (symbol : String) (equation sweep : Nat)
  /-- There is no variable at this position. -/
  | noSuchPosition (position count : Nat)
  /-- The equation at this position, or a value that it needs, is missing. A solver that was
  started on a system never says so. -/
  | incomplete (position : Nat)
  deriving DecidableEq, Repr

def SolverError.message : SolverError → String
  | .system cause => "System error: " ++ cause.message
  | .zeroDiagonal symbol equation sweep =>
    "Division by zero: '" ++ symbol ++ "' has a zero coefficient in equation "
      ++ equation.repr ++ " (sweep " ++ sweep.repr ++ ")"
  | .noSuchPosition position count =>
    "Index out of bounds: variable position (index=" ++ position.repr ++ ", len="
      ++ count.repr ++ ")"
  | .incomplete position => "Incomplete system at position " ++ position.repr

/-- A system with the values reached so far and the number of completed sweeps. -/
structure Solver (R : Type) where
  system : LinearSystem R
  approximation : Approximation R
  sweeps : Nat

namespace Solver

variable {R : Type} [Scalar R]

/-- Starts from zeros, on a system with one equation for each variable. -/
def start (s : LinearSystem R) : Except SolverError (Solver R) :=
  if s.IsSquare then .ok ⟨s, .zeros s.symbols, 0⟩
  else .error (.system (.structural s.equations.length s.symbols.length))

/-- A coefficient times the value that its variable has. -/
def product? (values : List R) (term : Variable × R) : Option R :=
  (values[term.1.index]?).map (term.2 * ·)

/-- What all variables but the one at `position` contribute to the left-hand side of a row, added in
term order. None when one of them has no value. -/
def others? (row : Row R) (position : Nat) (values : List R) : Option R :=
  let others : List (Variable × R) := row.filter fun term => term.1.index != position
  (others.mapM (product? values)).map Scalar.sum

/-- The value that equation `position` gives its own variable. -/
def next (s : Solver R) (position : Nat) : Except SolverError R :=
  match s.system.symbols[position]?, s.system.rows[position]?, s.system.constant? position with
  | none, _, _ => .error (.noSuchPosition position s.system.symbols.length)
  | some symbol, some row, some constant =>
    let diagonal := row.coefficient position
    if Scalar.isZero diagonal then .error (.zeroDiagonal symbol position (s.sweeps + 1))
    else match others? row position s.approximation.values with
      | some others => .ok ((constant - others) / diagonal)
      | none => .error (.incomplete position)
  | _, _, _ => .error (.incomplete position)

/-- The state with another value at a position. -/
def store (s : Solver R) (position : Nat) (value : R) : Solver R :=
  { s with approximation.values := s.approximation.values.set position value }

/-- Solves equation `position` for its own variable. -/
def update (s : Solver R) (position : Nat) : Except SolverError R × Solver R :=
  match s.next position with
  | .ok value => (.ok value, s.store position value)
  | .error e => (.error e, s)

/-- Updates some positions one after the other, up to the first that cannot be updated. -/
def updateAll (s : Solver R) : List Nat → Except SolverError Unit × Solver R
  | [] => (.ok (), s)
  | position :: rest =>
    match s.update position with
    | (.ok _, s) => s.updateAll rest
    | (.error e, s) => (.error e, s)

/-- Updates every variable once, in canonical order. -/
def sweep (s : Solver R) : Except SolverError (Snapshot R) × Solver R :=
  match s.updateAll (List.range s.system.symbols.length) with
  | (.ok (), s) =>
    (.ok ⟨s.sweeps + 1, s.approximation⟩, { s with sweeps := s.sweeps + 1 })
  | (.error e, s) => (.error e, s)

/-- How far the values are from a solution. -/
def residuals (s : Solver R) : Except SystemError (List R) :=
  s.system.residuals s.approximation.values

end Solver

end Seidel
