import Seidel.Main
import Seidel.Proofs.Binary64.Comparison
import Seidel.Proofs.Binary64.Distance
import Seidel.Proofs.Binary64.Order
import Seidel.Proofs.Binary64.Products
import Seidel.Proofs.Binary64.Rounding
import Seidel.Proofs.Binary64.Special
import Seidel.Proofs.Command.Admission
import Seidel.Proofs.Command.Formats
import Seidel.Proofs.Command.Input
import Seidel.Proofs.Command.Prediction
import Seidel.Proofs.Decimal.Expansion
import Seidel.Proofs.Decimal.Printing
import Seidel.Proofs.Decimal.Reading
import Seidel.Proofs.Equation.Faults
import Seidel.Proofs.Equation.Grammar
import Seidel.Proofs.Equation.Hyphens
import Seidel.Proofs.Equation.Prefixes
import Seidel.Proofs.Equation.Reading
import Seidel.Proofs.Equation.Repetition
import Seidel.Proofs.Equation.RoundTrip
import Seidel.Proofs.Exact.Contraction
import Seidel.Proofs.Exact.Dense
import Seidel.Proofs.Exact.FixedPoints
import Seidel.Proofs.Exact.Sums
import Seidel.Proofs.Json.Numbers
import Seidel.Proofs.Problem.JsonFile
import Seidel.Proofs.Problem.YamlFile
import Seidel.Proofs.Solver.Alike
import Seidel.Proofs.Solver.Blocks
import Seidel.Proofs.Solver.Calls
import Seidel.Proofs.Solver.Continuation
import Seidel.Proofs.Solver.Interruption
import Seidel.Proofs.Solver.Locality
import Seidel.Proofs.Solver.Outcome
import Seidel.Proofs.Solver.Renaming
import Seidel.Proofs.Solver.Settling
import Seidel.Proofs.Solver.Sweeping
import Seidel.Proofs.Solver.Trajectory
import Seidel.Proofs.System.Blocks
import Seidel.Proofs.System.Coefficients
import Seidel.Proofs.System.Magnitude
import Seidel.Proofs.System.Mentioned
import Seidel.Proofs.System.Printed
import Seidel.Proofs.System.Symbols
import Seidel.Proofs.System.Terms
import Seidel.Proofs.System.Tolerances
import Seidel.Proofs.System.Verdict
import Seidel.Proofs.Text.Words
