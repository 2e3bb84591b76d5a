import Seidel.Command.Report
import Seidel.Proofs.Solver.Outcome

/-!
# Checking predicts solving

Both commands read the same problem in the same way, and a failure up to there is the same failure.
After that a check looks at the shape of the system only. So it says in advance how a solve without
sweeps ends, and of one with sweeps it leaves open nothing but a zero on the diagonal
(`check_predicts_solve`).
-/

namespace Seidel

theorem Failure.status_ne_zero (f : Failure) : f.status ≠ 0 := by
  unfold status
  split <;> decide

theorem Outcome.status_eq_zero_iff {o : Outcome} : o.status = 0 ↔ o.failure = none := by
  unfold status
  cases o.failure with
  | none => simp
  | some f => simpa using f.status_ne_zero

/-! ## How a run ends -/

/-- A run is refused for the shape of the system, or for the first zero on its diagonal, or it
completes. -/
theorem LinearSystem.run_cases (s : LinearSystem Float) (n : Nat) :
    (¬ s.IsSquare ∧ s.run n
      = ⟨[], .error (.system (.structural s.equations.length s.symbols.length))⟩) ∨
    (s.IsSquare ∧ 0 < n ∧ ∃ i symbol, FirstZero s.equations s.symbols i symbol ∧
      s.run n = ⟨[], .error (.zeroDiagonal symbol i 1)⟩) ∨
    (s.IsSquare ∧ (n = 0 ∨ s.Regular) ∧ ∃ snapshots last residuals,
      s.run n = ⟨snapshots, .ok last⟩ ∧ s.residuals last.values = .ok residuals) := by
  by_cases square : s.IsSquare
  · by_cases completes : n = 0 ∨ s.Regular
    · obtain ⟨snapshots, last, run, _, residuals, computed⟩ := run_of_regular square completes
      exact .inr (.inr ⟨square, completes, snapshots, last, residuals, run, computed⟩)
    · obtain ⟨positive, singular⟩ := not_or.mp completes
      have zero : ∃ p ∈ s.equations.zip s.symbols, p.1.hasPivot p.2 = false := by
        simpa [Regular] using singular
      obtain ⟨i, symbol, first⟩ := exists_firstZero zero
      have positive : 0 < n := Nat.pos_of_ne_zero positive
      exact .inr (.inl ⟨square, positive, i, symbol, first, first.run_eq square positive⟩)
  · exact .inl ⟨square, run_of_not_square square⟩

/-! ## What can go wrong before a run -/

theorem mapError_eq_error {ε ε' α : Type} {f : ε → ε'} {x : Except ε α} {e : ε'}
    (h : x.mapError f = .error e) : ∃ cause, x = .error cause ∧ e = f cause := by
  cases x with
  | error cause =>
    cases h
    exact ⟨cause, rfl, rfl⟩
  | ok a => cases h

theorem parseEquations_error {sources : List String} {index : Nat} {cause : SystemError}
    (h : parseEquations index sources = .error cause) : ∃ i fault, cause = .parse i fault := by
  induction sources generalizing index with
  | nil => cases h
  | cons source rest ih =>
    rw [parseEquations] at h
    cases read : Equation.parse source with
    | error fault =>
      rw [read] at h
      cases h
      exact ⟨index, fault, rfl⟩
    | ok e =>
      rw [read] at h
      cases later : parseEquations (index + 1) rest with
      | error cause' =>
        rw [later] at h
        cases h
        exact ih later
      | ok equations =>
        rw [later] at h
        cases h

theorem LinearSystem.parse_error {sources : List String} {cause : SystemError}
    (h : parse sources = .error cause) :
    (∃ i fault, cause = .parse i fault) ∨ cause = .tooManyVariables := by
  rw [parse] at h
  cases read : parseEquations 0 sources with
  | error cause' =>
    rw [read] at h
    cases h
    exact .inl (parseEquations_error read)
  | ok equations =>
    rw [read] at h
    change ofEquations equations = .error cause at h
    unfold ofEquations at h
    split at h
    · cases h
    · cases h
      exact .inr rfl

/-! ## Reports -/

namespace Report

variable {s : LinearSystem Float}

theorem failure_check (p : Problem) (s : LinearSystem Float) :
    (check p s).failure = if s.IsSquare then none
      else some (.system (.structural s.equations.length s.symbols.length)) := by
  unfold check LinearSystem.validate
  by_cases square : s.IsSquare
  · simp only [square, ↓reduceIte]
  · simp only [square, ↓reduceIte]

theorem exists_summary {values residuals : List Float} (h : s.residuals values = .ok residuals) :
    ∃ text, summary s values = .ok text := by
  simp only [summary, LinearSystem.isSolvedBy, h]
  exact ⟨_, rfl⟩

/-- In either format, a solve fails as its run does. -/
theorem failure_solve (s : LinearSystem Float) (n : Nat) (format : ReportFormat) :
    (match format with | .text => solveText s n | .json => solveJson s n).failure
      = match (s.run n).result with | .error cause => some (.solver cause) | .ok _ => none := by
  rcases s.run_cases n with ⟨_, run⟩ | ⟨_, _, _, _, _, run⟩ | ⟨_, _, _, last, _, run, residuals⟩
  · cases format <;> simp only [solveText, solveJson, run]
  · cases format <;> simp only [solveText, solveJson, run]
  · obtain ⟨text, shown⟩ := exists_summary residuals
    cases format <;> simp only [solveText, solveJson, run, shown]

/-- A text report of a run that is refused at once is empty. -/
theorem solveText_of_refused {n : Nat} {cause : SolverError} (h : s.run n = ⟨[], .error cause⟩) :
    solveText s n = ⟨"", some (.solver cause)⟩ := by
  simp only [solveText, h]
  rfl

end Report

/-! ## Commands -/

namespace Command

/-- The bytes that a command reads. -/
def source (c : Command) (input : ByteArray) (files : String → Except FileFault ByteArray) :
    Except FileFault ByteArray :=
  match c.file? with
  | some file => files file
  | none => .ok input

theorem runArguments_eq {arguments : List String} {c : Command}
    (h : ofArguments? arguments = some c) (input : ByteArray)
    (files : String → Except FileFault ByteArray) :
    runArguments arguments input files = c.run (c.source input files) := by
  simp only [runArguments, h, source]
  cases c.file? <;> rfl

/-- What a problem is read from decides the problem; what is done with it does not matter. -/
theorem problem_congr {c c' : Command} (same : c.file? = c'.file?)
    (content : Except FileFault ByteArray) : c.problem content = c'.problem content := by
  simp only [problem, same]

theorem continuation_cases (c : Command) (content : Except FileFault ByteArray) :
    (∃ failure, c.problem content = .error failure ∧
      c.continuation content = ⟨"", some failure⟩) ∨
    (∃ p cause, c.problem content = .ok p ∧ p.system = .error cause ∧
      c.continuation content = ⟨"", some (.system cause)⟩) ∨
    ∃ p s, c.problem content = .ok p ∧ p.system = .ok s ∧
      c.continuation content = c.report p s := by
  unfold continuation
  cases c.problem content with
  | error failure => exact .inl ⟨failure, rfl, rfl⟩
  | ok p =>
    cases system : p.system with
    | error cause => exact .inr (.inl ⟨p, cause, rfl, system, by simp only [system]⟩)
    | ok s => exact .inr (.inr ⟨p, s, rfl, system, by simp only [system]⟩)

/-- A solve of a system that can be assembled fails as its run does. -/
theorem failure_solve (file : Option String) (iterations : Option Nat) (format : ReportFormat)
    (p : Problem) (s : LinearSystem Float) :
    ((solve file iterations format).report p s).failure
      = match (s.run (iterations.getD p.iterations.toNat)).result with
        | .error cause => some (.solver cause)
        | .ok _ => none := by
  rw [← Report.failure_solve s _ format]
  cases format <;> rfl

section Prediction

variable {file : Option String} {content : Except FileFault ByteArray}

/-- What a check has accepted: a problem, and a square system of its equations. -/
theorem exists_of_check (accepted : ((check file).run content).failure = none) :
    ∃ p s, (check file).problem content = .ok p ∧ p.system = .ok s ∧ s.IsSquare := by
  change ((check file).continuation content).failure = none at accepted
  rcases continuation_cases (check file) content with
    ⟨_, _, eq⟩ | ⟨_, _, _, _, eq⟩ | ⟨p, s, read, assembled, eq⟩
  · rw [eq] at accepted
    cases accepted
  · rw [eq] at accepted
    cases accepted
  · rw [eq, report, Report.failure_check] at accepted
    refine ⟨p, s, read, assembled, ?_⟩
    by_contra uneven
    rw [if_neg uneven] at accepted
    cases accepted

/-- Reading a problem fails as such, and not for the shape of its system. -/
theorem problem_error {c : Command} {failure : Failure} (h : c.problem content = .error failure) :
    (∃ cause, failure = .problem cause) ∨ ∃ fault, failure = .input fault := by
  cases source : c.file? with
  | some file =>
    simp only [problem, source] at h
    obtain ⟨cause, _, rfl⟩ := mapError_eq_error h
    exact .inl ⟨cause, rfl⟩
  | none =>
    simp only [problem, source] at h
    cases read : (content.bind Problem.ofLines).mapError Failure.input with
    | error failure' =>
      rw [read] at h
      cases h
      obtain ⟨fault, _, rfl⟩ := mapError_eq_error read
      exact .inr ⟨fault, rfl⟩
    | ok p =>
      rw [read] at h
      obtain ⟨cause, _, rfl⟩ := mapError_eq_error (x := p.checked) h
      exact .inl ⟨cause, rfl⟩

/-- What a check refuses, a solve refuses for the same cause; only the shape of the system is
refused by the solver instead. -/
theorem failure_solve_of_check {failure : Failure}
    (refused : ((check file).run content).failure = some failure) (iterations : Option Nat)
    (format : ReportFormat) :
    ((solve file iterations format).run content).failure
      = some (match failure with
        | .system (.structural equations unknowns) =>
          .solver (.system (.structural equations unknowns))
        | other => other) := by
  change ((check file).continuation content).failure = some failure at refused
  change ((solve file iterations format).continuation content).failure = _
  have same : (solve file iterations format).problem content = (check file).problem content :=
    problem_congr rfl content
  rcases continuation_cases (check file) content with
    ⟨f, read, eq⟩ | ⟨p, cause, read, assembled, eq⟩ | ⟨p, s, read, assembled, eq⟩
  · obtain rfl : f = failure := by simpa [eq] using refused
    simp only [continuation, same, read]
    rcases problem_error read with ⟨_, rfl⟩ | ⟨_, rfl⟩ <;> rfl
  · obtain rfl : .system cause = failure := by simpa [eq] using refused
    simp only [continuation, same, read, assembled]
    rcases LinearSystem.parse_error assembled with ⟨_, _, rfl⟩ | rfl <;> rfl
  · rw [eq, report, Report.failure_check] at refused
    simp only [continuation, same, read, assembled, failure_solve]
    split at refused
    · cases refused
    · rename_i uneven
      obtain rfl := Option.some.inj refused
      rw [LinearSystem.run_of_not_square uneven]

/-- A solve of a square system with sweeps to run fails exactly for a zero on the diagonal, and then
nothing has been printed of a text report. -/
theorem solve_of_square {p : Problem} {s : LinearSystem Float}
    (read : (check file).problem content = .ok p) (assembled : p.system = .ok s)
    (square : s.IsSquare) (iterations : Option Nat) (format : ReportFormat) :
    (((solve file iterations format).run content).failure = none ∧
      (iterations.getD p.iterations.toNat = 0 ∨ s.Regular)) ∨
    (0 < iterations.getD p.iterations.toNat ∧ ¬ s.Regular ∧
      (∃ i symbol, ((solve file iterations format).run content).failure
        = some (.solver (.zeroDiagonal symbol i 1))) ∧
      (format = .text → ((solve file iterations format).run content).output
        = (check file).preamble)) := by
  have reported : (solve file iterations format).continuation content
      = (solve file iterations format).report p s := by
    have same : (solve file iterations format).problem content = .ok p :=
      (problem_congr rfl content).trans read
    simp only [continuation, same, assembled]
  have failure : ((solve file iterations format).run content).failure
      = ((solve file iterations format).report p s).failure := by
    rw [← reported]
    rfl
  rw [failure, failure_solve]
  rcases s.run_cases (iterations.getD p.iterations.toNat) with
    ⟨uneven, _⟩ | ⟨_, positive, i, symbol, first, run⟩ | ⟨_, completes, _, last, _, run, _⟩
  · exact absurd square uneven
  · right
    refine ⟨positive, ?_, ⟨i, symbol, by rw [run]⟩, ?_⟩
    · intro regular
      exact regular.not_zeroDiagonal square first.position_lt first.zeroDiagonal
    · rintro rfl
      change (check file).preamble ++ ((solve file iterations .text).continuation content).output
        = (check file).preamble
      rw [reported, report, Report.solveText_of_refused run, String.append_empty]
  · left
    exact ⟨by rw [run], completes⟩

end Prediction

/-- **Checking predicts solving.** Take any arguments that ask for a check and any that ask for a
solve of the same source. The check succeeds exactly if a solve without sweeps does. What a check
refuses, the solve refuses too and for the same cause, whatever its number of sweeps; only that not
every variable has its equation is then found by the solver. After a check that succeeds, a solve
with sweeps fails exactly if some equation has no coefficient other than zero for its own variable;
the solver finds that, and before any sweep is printed. -/
theorem check_predicts_solve {checking solving : List String} {file : Option String}
    {iterations : Option Nat} {format : ReportFormat}
    (isCheck : ofArguments? checking = some (.check file))
    (isSolve : ofArguments? solving = some (.solve file iterations format)) (input : ByteArray)
    (files : String → Except FileFault ByteArray) :
    let checked := runArguments checking input files
    let solved := runArguments solving input files
    (iterations = some 0 → (checked.status = 0 ↔ solved.status = 0)) ∧
    (∀ failure, checked.failure = some failure → solved.status ≠ 0 ∧
      ((∀ equations unknowns, failure ≠ .system (.structural equations unknowns)) →
        solved.failure = some failure) ∧
      ∀ equations unknowns, failure = .system (.structural equations unknowns) →
        solved.failure = some (.solver (.system (.structural equations unknowns)))) ∧
    (checked.status = 0 → ∃ p s,
      (check file).problem ((check file).source input files) = .ok p ∧ p.system = .ok s ∧
      (0 < iterations.getD p.iterations.toNat →
        (solved.status ≠ 0 ↔ ∃ q ∈ s.equations.zip s.symbols, q.1.hasPivot q.2 = false) ∧
        ∀ failure, solved.failure = some failure → (∃ cause, failure = .solver cause) ∧
          (format = .text → solved.output = (check file).preamble))) := by
  intro checked solved
  have checkedEq : checked = (check file).run ((check file).source input files) :=
    runArguments_eq isCheck input files
  have solvedEq : solved
      = (solve file iterations format).run ((check file).source input files) :=
    runArguments_eq isSolve input files
  simp only [ne_eq, Outcome.status_eq_zero_iff, checkedEq, solvedEq]
  refine ⟨?_, ?_, ?_⟩
  · rintro rfl
    constructor
    · intro accepted
      obtain ⟨p, s, read, assembled, square⟩ := exists_of_check accepted
      rcases solve_of_square read assembled square (some 0) format with ⟨none, _⟩ | ⟨positive, _⟩
      · exact none
      · exact absurd positive (Nat.lt_irrefl 0)
    · intro solves
      cases refused : ((check file).run ((check file).source input files)).failure with
      | none => rfl
      | some failure =>
        rw [failure_solve_of_check refused] at solves
        cases solves
  · intro failure refused
    rw [failure_solve_of_check refused]
    refine ⟨Option.some_ne_none _, fun other => ?_, ?_⟩
    · split
      · exact absurd rfl (other _ _)
      · rfl
    · rintro _ _ rfl
      rfl
  · intro accepted
    obtain ⟨p, s, read, assembled, square⟩ := exists_of_check accepted
    have irregular : ¬ s.Regular ↔ ∃ q ∈ s.equations.zip s.symbols, q.1.hasPivot q.2 = false := by
      simp [LinearSystem.Regular]
    refine ⟨p, s, read, assembled, fun positive => ?_⟩
    rw [← irregular]
    rcases solve_of_square read assembled square iterations format with
      ⟨none, completes⟩ | ⟨_, singular, ⟨i, symbol, refused⟩, output⟩
    · have regular : s.Regular := completes.resolve_left (Nat.ne_of_gt positive)
      simp [none, regular]
    · refine ⟨by simp [refused, singular], fun failure found => ⟨?_, output⟩⟩
      rw [refused] at found
      exact ⟨_, (Option.some.inj found).symm⟩

/-- `x + y = 1` and `x = 2`: of two equations for two variables, the second leaves out `y`. -/
theorem unpivoted_check_predicts_solve :
    let input := "x + y = 1\nx = 2\n".toUTF8
    let files := fun _ => .error .notFound
    (runArguments ["check"] input files).status = 0 ∧
    (runArguments ["solve", "-n=3", "--format", "text"] input files).status ≠ 0 ∧
    (runArguments ["solve", "-n=3", "--format", "text"] input files).output = prompt := by
  intro input files
  have isCheck : ofArguments? ["check"] = some (.check none) := by decide +kernel
  have isSolve : ofArguments? ["solve", "-n=3", "--format", "text"]
      = some (.solve none (some 3) .text) := by decide +kernel
  have accepted : (runArguments ["check"] input files).status = 0 := by decide +kernel
  obtain ⟨_, _, sweeps⟩ := check_predicts_solve isCheck isSolve input files
  obtain ⟨p, s, read, assembled, sweeps⟩ := sweeps accepted
  have expected : (check none).problem (.ok input)
      = .ok { equations := ["x + y = 1", "x = 2"] } := by decide +kernel
  obtain rfl : { equations := ["x + y = 1", "x = 2"] } = p :=
    Except.ok.inj (expected.symm.trans read)
  have zero : (Problem.system { equations := ["x + y = 1", "x = 2"] }).toOption.any
      (fun s => (s.equations.zip s.symbols).any fun q => !q.1.hasPivot q.2) = true := by
    decide +kernel
  rw [assembled] at zero
  have zero : ∃ q ∈ s.equations.zip s.symbols, q.1.hasPivot q.2 = false := by
    simpa [Except.toOption] using zero
  obtain ⟨fails, quiet⟩ := sweeps (by decide)
  have fails := fails.mpr zero
  obtain ⟨failure, found⟩ := Option.ne_none_iff_exists'.mp (mt Outcome.status_eq_zero_iff.mpr fails)
  exact ⟨accepted, fails, (quiet failure found).2 rfl⟩

end Command

end Seidel
