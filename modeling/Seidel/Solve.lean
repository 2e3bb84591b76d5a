import Seidel.Solver
import Seidel.System.Text

/-!
Whole runs of the iteration: a number of sweeps is chosen beforehand, and every completed sweep
gives a snapshot.
-/

namespace Seidel

variable {R : Type} [Scalar R]

/-- A run: the snapshots of the sweeps that were completed, and how it ended. -/
structure Run (R : Type) where
  snapshots : List (Snapshot R)
  result : Except SolverError (Approximation R)

/-- Runs a number of sweeps, or as many as succeed. -/
def Solver.run (s : Solver R) : Nat → Run R
  | 0 => ⟨[], .ok s.approximation⟩
  | n + 1 =>
    match s.sweep with
    | (.ok snapshot, s) =>
      let rest := s.run n
      { rest with snapshots := snapshot :: rest.snapshots }
    | (.error e, _) => ⟨[], .error e⟩

namespace LinearSystem

/-- Runs a number of sweeps from zeros. -/
def run (s : LinearSystem R) (iterations : Nat) : Run R :=
  match Solver.start s with
  | .ok solver => solver.run iterations
  | .error e => ⟨[], .error e⟩

/-- The snapshots of a run in which every sweep succeeds. -/
def solve (s : LinearSystem R) (iterations : Nat) : Except SolverError (List (Snapshot R)) :=
  let run := s.run iterations
  run.result.map fun _ => run.snapshots

end LinearSystem

/-- Reads equations and solves their system. -/
def solveSources (sources : List String) (iterations : Nat) :
    Except SolverError (List (Snapshot Float)) :=
  ((LinearSystem.parse sources).mapError .system).bind (·.solve iterations)

end Seidel
