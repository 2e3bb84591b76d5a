import Seidel.Command.Arguments
import Seidel.Problem.File
import Seidel.Solve

/-!
What a command prints, and how it ends. What was printed before a failure stays printed.
-/

namespace Seidel

/-- Why a command failed. -/
inductive Failure
  /-- The arguments were misused. -/
  | usage
  | problem (cause : ProblemError)
  | system (cause : SystemError)
  | solver (cause : SolverError)
  /-- Standard input could not be read as text. -/
  | input (fault : FileFault)
  deriving DecidableEq, Repr

/-- What a command printed, and why it failed if it did. -/
structure Outcome where
  output : String
  failure : Option Failure
  deriving DecidableEq, Repr

/-- Misuse has a status of its own, and so has a system that is too large to be numbered. -/
def Failure.status : Failure → Nat
  | .usage => 2
  | .system .tooManyVariables => 101
  | _ => 1

/-- The exit status. -/
def Outcome.status (o : Outcome) : Nat :=
  (o.failure.map Failure.status).getD 0

/-- One line. -/
def line (s : String) : String := s ++ "\n"

namespace Report

/-- The residuals at the end of a run, and the verdict on them. -/
def summary (s : LinearSystem Float) (values : List Float) : Except SystemError String := do
  let residuals ← s.residuals values
  let satisfied ← s.isSolvedBy values Tolerance.standard
  .ok (line ("Max residual: " ++ String.ofList (Decimal.scaled.format (largestMagnitude residuals)))
    ++ line (if satisfied then "All equations satisfied within tolerance"
      else "Not yet converged; try more iterations"))

/-- A line for each sweep, and the summary of a run that succeeds. -/
def solveText (s : LinearSystem Float) (iterations : Nat) : Outcome :=
  let run := s.run iterations
  let sweeps := String.join (run.snapshots.map fun snapshot => line snapshot.text)
  match run.result with
  | .error cause => ⟨sweeps, some (.solver cause)⟩
  | .ok last =>
    match summary s last.values with
    | .error cause => ⟨sweeps, some (.system cause)⟩
    | .ok summary => ⟨sweeps ++ summary, none⟩

/-- An array of the sweeps, also of a run that fails. -/
def solveJson (s : LinearSystem Float) (iterations : Nat) : Outcome :=
  let run := s.run iterations
  let sweeps := line (Json.array (run.snapshots.map Snapshot.json)).pretty
  match run.result with
  | .error cause => ⟨sweeps, some (.solver cause)⟩
  | .ok _ => ⟨sweeps, none⟩

/-- The parts of a system, and whether there is one equation for each variable. -/
def check (p : Problem) (s : LinearSystem Float) : Outcome :=
  let name := match p.name with
    | some name => line ("Problem: " ++ name)
    | none => ""
  let parts := name ++ line ("Variables: " ++ ", ".intercalate s.symbols) ++ s.text
  match s.validate with
  | .error cause => ⟨parts, some (.system cause)⟩
  | .ok () =>
    ⟨parts ++ line ("✓ " ++ s.equations.length.repr ++ " equations for "
      ++ s.symbols.length.repr ++ " variables, " ++ p.iterations.toNat.repr ++ " sweeps"), none⟩

end Report

namespace Command

/-- Where the equations come from. -/
def file? : Command → Option String
  | .solve file _ _ => file
  | .check file => file

/-- What is printed before standard input is read. -/
def prompt : String :=
  line ("Enter, one by one, each of the equations of the system of equations you would like to "
    ++ "solve. Press return to exit.")

/-- What is printed before the equations are read. -/
def preamble (c : Command) : String :=
  if c.file?.isNone then prompt else ""

/-- The problem in a file, or the one on standard input. -/
def problem (c : Command) (content : Except FileFault ByteArray) : Except Failure Problem :=
  match c.file? with
  | some file => (Problem.load file.toUTF8 content).mapError .problem
  | none => do
    let p ← (content.bind Problem.ofLines).mapError .input
    p.checked.mapError .problem

/-- What is printed about a problem. -/
def report (c : Command) (p : Problem) (s : LinearSystem Float) : Outcome :=
  match c with
  | .solve _ iterations .text => Report.solveText s (iterations.getD p.iterations.toNat)
  | .solve _ iterations .json => Report.solveJson s (iterations.getD p.iterations.toNat)
  | .check _ => Report.check p s

/-- What is printed after the equations have been read, given the bytes they were read from. -/
def continuation (c : Command) (content : Except FileFault ByteArray) : Outcome :=
  match c.problem content with
  | .error failure => ⟨"", some failure⟩
  | .ok p =>
    match p.system with
    | .error cause => ⟨"", some (.system cause)⟩
    | .ok s => c.report p s

/-- All that a command prints. -/
def run (c : Command) (content : Except FileFault ByteArray) : Outcome :=
  let rest := c.continuation content
  { rest with output := c.preamble ++ rest.output }

end Command

/-- Runs a command line, given standard input and the files. -/
def runArguments (arguments : List String) (input : ByteArray)
    (files : String → Except FileFault ByteArray) : Outcome :=
  match Command.ofArguments? arguments with
  | none => ⟨"", some .usage⟩
  | some c =>
    match c.file? with
    | some file => c.run (files file)
    | none => c.run (.ok input)

end Seidel
