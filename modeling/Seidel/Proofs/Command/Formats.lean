import Seidel.Proofs.Command.Prediction
import Seidel.Proofs.Command.Shown

/-!
# Both formats report the same run

The text of a solve is printed sweep by sweep and ends in a summary, while the array in JSON is
printed at once, also when the solve fails. Still they say the same: the commands fail alike, and
the lines of the text and the items of the array show the same sweeps (`formats_agree`).
-/

namespace Seidel

/-! ## The lines of a report -/

/-- What stands on the lines that were printed. -/
def Outcome.lines (o : Outcome) : List (List Char) :=
  o.output.toList.splitOn '\n'

/-- The line of a sweep. -/
def isIteration (line : List Char) : Bool :=
  "Iteration ".toList.isPrefixOf line

/-- What is said of the equations in the end. -/
def verdicts : List (List Char) :=
  ["All equations satisfied within tolerance".toList,
    "Not yet converged; try more iterations".toList]

/-- A line of the summary. -/
def isSummary (line : List Char) : Bool :=
  "Max residual: ".toList.isPrefixOf line || verdicts.contains line

def Outcome.iterationLines (o : Outcome) : List (List Char) :=
  o.lines.filter isIteration

def Outcome.summaryLines (o : Outcome) : List (List Char) :=
  o.lines.filter isSummary

/-- The two lines of a summary: the largest residual and the verdict. -/
def IsSummary (lines : List (List Char)) : Prop :=
  ∃ residual, ∃ verdict ∈ verdicts, lines = ["Max residual: ".toList ++ residual, verdict]

/-- Lines of some kind. -/
structure AreLines (lines : List (List Char)) (iteration summary : Bool) : Prop where
  isLine : ∀ line ∈ lines, IsLine line
  isIteration_eq : ∀ line ∈ lines, isIteration line = iteration
  isSummary_eq : ∀ line ∈ lines, isSummary line = summary

theorem filter_lines {o : Outcome} {opening sweeps summary : List (List Char)}
    (output : o.output.toList = (opening ++ (sweeps ++ summary)).flatMap (· ++ ['\n']))
    (isOpening : AreLines opening false false) (areSweeps : AreLines sweeps true false)
    (areSummary : AreLines summary false true) :
    o.iterationLines = sweeps ∧ o.summaryLines = summary := by
  have lines : o.lines = opening ++ (sweeps ++ summary) ++ [[]] := by
    rw [Outcome.lines, output]
    apply splitOn_lines
    simp only [List.forall_mem_append]
    exact ⟨isOpening.isLine, areSweeps.isLine, areSummary.isLine⟩
  have kept {kind : List Char → Bool} {ls : List (List Char)} (h : ∀ l ∈ ls, kind l = true) :
      ls.filter kind = ls := List.filter_eq_self.mpr h
  have dropped {kind : List Char → Bool} {ls : List (List Char)} (h : ∀ l ∈ ls, kind l = false) :
      ls.filter kind = [] := List.filter_eq_nil_iff.mpr fun l hl => Bool.eq_false_iff.mp (h l hl)
  constructor
  · rw [Outcome.iterationLines, lines, List.filter_append, List.filter_append, List.filter_append,
      dropped isOpening.isIteration_eq, kept areSweeps.isIteration_eq,
      dropped areSummary.isIteration_eq]
    simp [isIteration]
  · rw [Outcome.summaryLines, lines, List.filter_append, List.filter_append, List.filter_append,
      dropped isOpening.isSummary_eq, dropped areSweeps.isSummary_eq, kept areSummary.isSummary_eq]
    simp [isSummary, verdicts]

/-! ## What the lines are -/

theorem toList_line (s : String) : (line s).toList = s.toList ++ ['\n'] := by
  rw [line, String.toList_append]
  rfl

theorem areLines_nil (iteration summary : Bool) : AreLines [] iteration summary :=
  ⟨nofun, nofun, nofun⟩

/-- The prompt, where there is one. -/
theorem Command.exists_opening (c : Command) :
    ∃ opening, c.preamble.toList = opening.flatMap (· ++ ['\n']) ∧ AreLines opening false false := by
  unfold preamble
  split
  · refine ⟨[prompt.toList.dropLast], by decide +kernel, ?_, ?_, ?_⟩
    · rw [List.forall_mem_singleton]
      decide +kernel
    · rw [List.forall_mem_singleton]
      decide +kernel
    · rw [List.forall_mem_singleton]
      decide +kernel
  · exact ⟨[], rfl, areLines_nil _ _⟩

theorem Snapshot.areLines_text {snapshots : List (Snapshot Float)}
    (letters : ∀ s ∈ snapshots, ∀ symbol ∈ s.approximation.symbols, Lettered symbol) :
    AreLines (snapshots.map (·.text.toList)) true false := by
  constructor
  · rw [List.forall_mem_map]
    exact fun s mem => isLine_text (letters s mem)
  · rw [List.forall_mem_map]
    intro s _
    rw [toList_text]
    exact List.isPrefixOf_iff_prefix.mpr (List.prefix_append _ _)
  · rw [List.forall_mem_map]
    intro s _
    rw [toList_text]
    rfl

theorem IsSummary.areLines {summary : List (List Char)} (h : IsSummary summary)
    (isLine : ∀ line ∈ summary, IsLine line) : AreLines summary false true := by
  obtain ⟨residual, verdict, mem, rfl⟩ := h
  have known : ∀ verdict ∈ verdicts, isIteration verdict = false ∧ isSummary verdict = true := by
    decide
  refine ⟨isLine, ?_, ?_⟩
  · rw [List.forall_mem_cons, List.forall_mem_singleton]
    exact ⟨rfl, (known verdict mem).1⟩
  · rw [List.forall_mem_cons, List.forall_mem_singleton]
    refine ⟨?_, (known verdict mem).2⟩
    rw [isSummary, List.isPrefixOf_iff_prefix.mpr (List.prefix_append _ _), Bool.true_or]

namespace Report

variable {s : LinearSystem Float}

theorem exists_summary_lines {values residuals : List Float}
    (h : s.residuals values = .ok residuals) :
    ∃ text lines, summary s values = .ok text ∧ text.toList = lines.flatMap (· ++ ['\n']) ∧
      IsSummary lines ∧ ∀ line ∈ lines, IsLine line := by
  obtain ⟨satisfied, text⟩ : ∃ satisfied : Bool, summary s values
      = .ok (line ("Max residual: " ++ String.ofList (Decimal.scaled.format
          (largestMagnitude residuals)))
        ++ line (if satisfied then "All equations satisfied within tolerance"
          else "Not yet converged; try more iterations")) := by
    simp only [summary, LinearSystem.isSolvedBy, h]
    exact ⟨_, rfl⟩
  generalize shown : (if satisfied then "All equations satisfied within tolerance"
    else "Not yet converged; try more iterations") = verdict at text
  have known : verdict.toList ∈ verdicts := by
    rw [← shown]
    cases satisfied <;> decide
  have isVerdict : ∀ verdict ∈ verdicts, IsLine verdict := by decide
  have residual : IsLine (Decimal.scaled.format (largestMagnitude residuals)) :=
    fun mem => absurd (Decimal.mem_format mem) (by decide)
  refine ⟨_, ["Max residual: ".toList ++ Decimal.scaled.format (largestMagnitude residuals),
    verdict.toList], text, ?_, ⟨_, _, known, rfl⟩, ?_⟩
  · simp [line]
  · rw [List.forall_mem_cons, List.forall_mem_singleton, isLine_append]
    exact ⟨⟨by decide, residual⟩, isVerdict _ known⟩

theorem solveText_lines (s : LinearSystem Float) (n : Nat) :
    ∃ summary, (solveText s n).output.toList
        = ((s.run n).snapshots.map (·.text.toList) ++ summary).flatMap (· ++ ['\n']) ∧
      ((solveText s n).failure = none ∧ IsSummary summary ∧ AreLines summary false true ∨
        (solveText s n).failure ≠ none ∧ summary = []) := by
  rcases s.run_cases n with ⟨_, run⟩ | ⟨_, _, _, _, _, run⟩ | ⟨_, _, _, last, _, run, residuals⟩
  · rw [solveText_of_refused run, run]
    exact ⟨[], rfl, .inr ⟨nofun, rfl⟩⟩
  · rw [solveText_of_refused run, run]
    exact ⟨[], rfl, .inr ⟨nofun, rfl⟩⟩
  · obtain ⟨text, lines, shown, toList, isSummary, areLines⟩ := exists_summary_lines residuals
    refine ⟨lines, ?_, .inl ⟨?_, isSummary, isSummary.areLines areLines⟩⟩
    · simp only [solveText, run, shown]
      rw [String.toList_append, toList, String.toList_join, List.flatMap_append, List.flatMap_map,
        List.flatMap_map]
      simp only [toList_line]
    · simp only [solveText, run, shown]

theorem output_solveJson (s : LinearSystem Float) (n : Nat) :
    (solveJson s n).output = line (Json.array ((s.run n).snapshots.map Snapshot.json)).pretty := by
  unfold solveJson
  dsimp only
  split <;> rfl

end Report

namespace Command

/-- What a report shows has words of letters for symbols. -/
theorem letters_of_run {p : Problem} {s : LinearSystem Float} (assembled : p.system = .ok s)
    (n : Nat) : ∀ snapshot ∈ (s.run n).snapshots,
      ∀ symbol ∈ snapshot.approximation.symbols, Lettered symbol := by
  intro snapshot mem symbol
  rw [((s.snapshots_run n).2 snapshot mem).1]
  exact LinearSystem.letters_of_parse assembled

section Reports

variable {file : Option String} {iterations : Option Nat} {content : Except FileFault ByteArray}

/-- A failure before the system is assembled leaves nothing but the prompt. -/
theorem lines_of_refused {c : Command} {failure : Failure}
    (refused : c.continuation content = ⟨"", some failure⟩) :
    (c.run content).failure ≠ none ∧ (c.run content).iterationLines = [] ∧
      (c.run content).summaryLines = [] := by
  obtain ⟨opening, prompt, isOpening⟩ := c.exists_opening
  have failed : (c.run content).failure = some failure := congrArg Outcome.failure refused
  refine ⟨by simp [failed], filter_lines ?_ isOpening (areLines_nil _ _) (areLines_nil _ _)⟩
  rw [run, refused, String.append_empty, prompt, List.append_nil, List.append_nil]

/-- Once the system is assembled there is a line for each sweep, whether the solve fails or not. -/
theorem lines_of_assembled {p : Problem} {s : LinearSystem Float}
    (read : (solve file iterations .text).problem content = .ok p)
    (assembled : p.system = .ok s) :
    let o := (solve file iterations .text).run content
    o.iterationLines
      = (s.run (iterations.getD p.iterations.toNat)).snapshots.map (·.text.toList) ∧
    (o.failure = none ∧ IsSummary o.summaryLines ∨ o.failure ≠ none ∧ o.summaryLines = []) := by
  intro o
  generalize count : iterations.getD p.iterations.toNat = n
  obtain ⟨opening, prompt, isOpening⟩ := (solve file iterations .text).exists_opening
  obtain ⟨summary, output, ends⟩ := Report.solveText_lines s n
  have report : (solve file iterations .text).continuation content = Report.solveText s n := by
    rw [← count]
    simp only [continuation, read, assembled]
    rfl
  have failure : o.failure = (Report.solveText s n).failure := by
    rw [← report]
    rfl
  have areSweeps := Snapshot.areLines_text (letters_of_run assembled n)
  have areSummary : AreLines summary false true := by
    rcases ends with ⟨_, _, areSummary⟩ | ⟨_, rfl⟩
    · exact areSummary
    · exact areLines_nil _ _
  have printed : o.output.toList
      = (opening ++ ((s.run n).snapshots.map (·.text.toList) ++ summary)).flatMap (· ++ ['\n']) := by
    rw [List.flatMap_append, ← prompt, ← output, ← report]
    exact String.toList_append
  obtain ⟨sweeps, lines⟩ := filter_lines printed isOpening areSweeps areSummary
  refine ⟨sweeps, ?_⟩
  rw [lines, failure]
  rcases ends with ⟨succeeds, isSummary, _⟩ | fails
  · exact .inl ⟨succeeds, isSummary⟩
  · exact .inr fails

/-- There is a summary exactly if the solve succeeds. -/
theorem summary_cases (file : Option String) (iterations : Option Nat)
    (content : Except FileFault ByteArray) :
    let o := (solve file iterations .text).run content
    o.failure = none ∧ IsSummary o.summaryLines ∨ o.failure ≠ none ∧ o.summaryLines = [] := by
  intro o
  rcases continuation_cases (solve file iterations .text) content with
    ⟨_, _, refused⟩ | ⟨_, _, _, _, refused⟩ | ⟨_, _, read, assembled, _⟩
  · obtain ⟨fails, _, silent⟩ := lines_of_refused refused
    exact .inr ⟨fails, silent⟩
  · obtain ⟨fails, _, silent⟩ := lines_of_refused refused
    exact .inr ⟨fails, silent⟩
  · exact (lines_of_assembled read assembled).2

/-- The format has no part in whether a solve fails, and why. -/
theorem failure_format (format : ReportFormat) :
    ((solve file iterations format).run content).failure
      = ((solve file iterations .text).run content).failure := by
  have same : (solve file iterations format).problem content
      = (solve file iterations .text).problem content := problem_congr rfl content
  change ((solve file iterations format).continuation content).failure
    = ((solve file iterations .text).continuation content).failure
  unfold continuation
  rw [same]
  cases (solve file iterations .text).problem content with
  | error failure => rfl
  | ok p =>
    dsimp only
    cases p.system with
    | error cause => rfl
    | ok s =>
      dsimp only
      rw [failure_solve, failure_solve]

/-- The array of the sweeps is there whether the solve fails or not. -/
theorem output_json {p : Problem} {s : LinearSystem Float}
    (read : (solve file iterations .text).problem content = .ok p)
    (assembled : p.system = .ok s) :
    let sweeps := Json.array
      ((s.run (iterations.getD p.iterations.toNat)).snapshots.map Snapshot.json)
    ((solve file iterations .json).run content).output
        = (solve file iterations .text).preamble ++ line sweeps.pretty ∧
      Json.parse? (sweeps.print (.indented 0)) = some sweeps := by
  intro sweeps
  have same : (solve file iterations .json).problem content = .ok p :=
    (problem_congr rfl content).trans read
  constructor
  · change (solve file iterations .json).preamble
      ++ ((solve file iterations .json).continuation content).output = _
    rw [← Report.output_solveJson]
    simp only [continuation, same, assembled]
    rfl
  · apply Json.parse?_print
    refine .array ?_
    rw [List.forall_mem_map]
    exact fun snapshot _ => snapshot.printable_json

end Reports

/-- **Both formats report the same run.** Take any arguments that ask for a solve with a report in
text, and any that ask for a report in JSON of the same source with the same number of sweeps. The
commands end with the same status and for the same cause, and there are the two lines of the summary
if the status is zero, and none otherwise. Once the system is assembled, whether its solve fails or
not, JSON is an array with as many items as the text has lines of sweeps. Read back, the lines are
the sweeps of the run, and so are the items, but for values that are not finite. The sweeps are
numbered from one and show a value for each variable of the system, in its order. -/
theorem formats_agree {texting jsoning : List String} {file : Option String}
    {iterations : Option Nat} (asText : ofArguments? texting = some (.solve file iterations .text))
    (asJson : ofArguments? jsoning = some (.solve file iterations .json)) (input : ByteArray)
    (files : String → Except FileFault ByteArray) :
    let c := solve file iterations .text
    let t := runArguments texting input files
    let j := runArguments jsoning input files
    t.status = j.status ∧ t.failure = j.failure ∧
    (t.status = 0 → IsSummary t.summaryLines) ∧ (t.status ≠ 0 → t.summaryLines = []) ∧
    ∀ p s, c.problem (c.source input files) = .ok p → p.system = .ok s →
      let snapshots := (s.run (iterations.getD p.iterations.toNat)).snapshots
      (∃ array items, j.output = c.preamble ++ line (String.ofList array) ∧
        Json.parse? array = some (.array items) ∧ items.length = t.iterationLines.length ∧
        items.mapM Snapshot.ofJson? = some (snapshots.map Snapshot.finite)) ∧
      t.iterationLines.mapM Snapshot.ofText? = some snapshots ∧
      snapshots.map Snapshot.iteration = List.range' 1 snapshots.length ∧
      ∀ snapshot ∈ snapshots, snapshot.approximation.symbols = s.symbols ∧
        snapshot.approximation.values.length = s.symbols.length := by
  intro c t j
  have textEq : t = c.run (c.source input files) := runArguments_eq asText input files
  have jsonEq : j = (solve file iterations .json).run (c.source input files) :=
    runArguments_eq asJson input files
  have failure : t.failure = j.failure := by
    rw [textEq, jsonEq]
    exact (failure_format .json).symm
  have cases := summary_cases file iterations (c.source input files)
  rw [← textEq] at cases
  rw [ne_eq, Outcome.status_eq_zero_iff]
  refine ⟨by rw [Outcome.status, Outcome.status, failure], failure, ?_, ?_, ?_⟩
  · intro succeeds
    rcases cases with ⟨_, isSummary⟩ | ⟨fails, _⟩
    · exact isSummary
    · exact absurd succeeds fails
  · intro fails
    rcases cases with ⟨succeeds, _⟩ | ⟨_, silent⟩
    · exact absurd succeeds fails
    · exact silent
  · intro p s read assembled snapshots
    obtain ⟨numbers, complete⟩ := s.snapshots_run (iterations.getD p.iterations.toNat)
    have total : ∀ snapshot ∈ snapshots, snapshot.IsTotal := fun snapshot mem =>
      (congrArg List.length (complete snapshot mem).1).trans (complete snapshot mem).2.symm
    have letters := letters_of_run assembled (iterations.getD p.iterations.toNat)
    obtain ⟨shown, _⟩ := lines_of_assembled read assembled
    obtain ⟨output, parsed⟩ := output_json read assembled
    rw [← textEq] at shown
    rw [← jsonEq] at output
    refine ⟨⟨_, _, output, parsed, ?_, ?_⟩, ?_, numbers, complete⟩
    · rw [shown, List.length_map, List.length_map]
    · rw [mapM_eq_some_iff, List.forall₂_map_left_iff, List.forall₂_map_right_iff,
        List.forall₂_same]
      exact fun snapshot mem => snapshot.ofJson?_json (total snapshot mem)
    · rw [shown, mapM_eq_some_iff, List.forall₂_map_left_iff, List.forall₂_same]
      exact fun snapshot mem => Snapshot.ofText?_text (total snapshot mem) (letters snapshot mem)

/-- `x` keeps its value, and `y` is beyond the largest float. -/
theorem overflowing_formats_agree :
    let input := "2x = 5\n0.1y = 1e308\n".toUTF8
    let files := fun _ => .error .notFound
    let t := runArguments ["solve", "-n", "1"] input files
    let j := runArguments ["solve", "--format=json", "-n1"] input files
    t.output = prompt ++ "Iteration 1 is \x7bx: 2.5, y: inf\x7d\nMax residual: inf\n"
      ++ "Not yet converged; try more iterations\n" ∧
    t.status = 0 ∧ j.status = 0 ∧
    ∃ array items, j.output = prompt ++ line (String.ofList array) ∧
      Json.parse? array = some (.array items) ∧ items.length = 1 ∧
      items.mapM Snapshot.ofJson? = some [⟨1, ["x", "y"], [some 2.5, none]⟩] := by
  intro input files t j
  have asText : ofArguments? ["solve", "-n", "1"] = some (.solve none (some 1) .text) := by
    decide +kernel
  have asJson : ofArguments? ["solve", "--format=json", "-n1"]
      = some (.solve none (some 1) .json) := by
    decide +kernel
  have output : t.output = prompt ++ "Iteration 1 is \x7bx: 2.5, y: inf\x7d\nMax residual: inf\n"
      ++ "Not yet converged; try more iterations\n" := by
    decide +kernel
  have succeeds : t.status = 0 := by decide +kernel
  have read : (solve none (some 1) .text).problem (.ok input)
      = .ok { equations := ["2x = 5", "0.1y = 1e308"] } := by
    decide +kernel
  have shown : (t.iterationLines.mapM Snapshot.ofText?).map (·.map Snapshot.finite)
      = some [⟨1, ["x", "y"], [some 2.5, none]⟩] := by
    rw [Outcome.iterationLines, Outcome.lines, output]
    decide +kernel
  obtain ⟨status, _, _, _, sweeps⟩ := formats_agree asText asJson input files
  cases assembled : Problem.system { equations := ["2x = 5", "0.1y = 1e308"] } with
  | error cause =>
    have square : (Problem.system { equations := ["2x = 5", "0.1y = 1e308"] }).toOption.isSome := by
      decide +kernel
    rw [assembled] at square
    cases square
  | ok s =>
    obtain ⟨⟨array, items, printed, parsed, _, same⟩, lines, _⟩ := sweeps _ s read assembled
    rw [lines] at shown
    have same := same.trans shown
    have length : items.length = 1 := (mapM_eq_some_iff.mp same).length_eq
    exact ⟨output, succeeds, status.symm.trans succeeds, array, items, printed, parsed, length,
      same⟩

end Command

end Seidel
