import Seidel.Proofs.Command.Prediction
import Seidel.Proofs.Problem.Files
import Seidel.Proofs.Problem.Lines

/-!
# Standard input is a plain file

A command does with standard input what it does with a plain text file that holds the same bytes;
only the prompt comes first (`input_as_plain_file`). Where the bytes are not text, both ways fail,
but the failure says which way it was.
-/

namespace Seidel

/-- The name of a plain text file: its extension is `txt`, or it has none. -/
def IsPlainName (file : String) : Prop :=
  extension? file.toUTF8.data.toList = none ∨
    extension? file.toUTF8.data.toList = some "txt".toUTF8.data.toList

instance (file : String) : Decidable (IsPlainName file) :=
  inferInstanceAs (Decidable (_ ∨ _))

theorem FileKind.ofPath_plain {file : String} (plain : IsPlainName file) :
    ofPath file.toUTF8.data.toList = .plain := by
  rcases plain with h | h
  · rw [ofPath, h]
    rfl
  · have text : String.fromUTF8? ⟨"txt".toUTF8.data.toList.toArray⟩ = some "txt" :=
      fromUTF8?_toUTF8 "txt"
    rw [ofPath, h, Option.bind_some, text]
    decide

theorem Problem.exists_ofLines_iff {bytes : ByteArray} :
    (∃ p, ofLines bytes = .ok p) ↔ ∀ line ∈ Lines.leading bytes, Lines.IsText line := by
  rw [← Lines.equations?_isSome_iff, ofLines]
  cases Lines.equations? bytes with
  | none => simp
  | some equations => simp

theorem Problem.ofLines_error {bytes : ByteArray} {fault : FileFault}
    (h : ofLines bytes = .error fault) : fault = .notUtf8 := by
  rw [ofLines] at h
  split at h
  · cases h
    rfl
  · cases h

namespace Command

/-- The same command for the problem in a file. -/
def reading (file : String) : Command → Command
  | .solve _ iterations format => .solve (some file) iterations format
  | .check _ => .check (some file)

variable {c : Command} {file : String} {bytes : ByteArray}

theorem file?_reading (file : String) (c : Command) : (c.reading file).file? = some file := by
  cases c <;> rfl

theorem report_reading (file : String) (c : Command) : (c.reading file).report = c.report := by
  cases c with
  | check => rfl
  | solve source iterations format => cases format <;> rfl

/-- What is printed depends on the problem and on what is wanted of it. -/
theorem continuation_congr {c c' : Command} {content content' : Except FileFault ByteArray}
    (problem : c.problem content = c'.problem content') (report : c.report = c'.report) :
    c.continuation content = c'.continuation content' := by
  rw [continuation, continuation, problem, report]

theorem problem_input (fromInput : c.file? = none) :
    c.problem (.ok bytes) = match Problem.ofLines bytes with
      | .ok p => p.checked.mapError .problem
      | .error fault => .error (.input fault) := by
  simp only [problem, fromInput, Except.bind]
  cases Problem.ofLines bytes <;> rfl

theorem problem_reading (plain : IsPlainName file) :
    (c.reading file).problem (.ok bytes) = match Problem.ofLines bytes with
      | .ok p => p.checked.mapError .problem
      | .error fault => .error (.problem (.file fault)) := by
  simp only [problem, file?_reading, Problem.load, FileKind.ofPath_plain plain, Except.bind]
  cases Problem.ofLines bytes <;> rfl

theorem continuation_reading (plain : IsPlainName file) (fromInput : c.file? = none)
    (text : ∀ line ∈ Lines.leading bytes, Lines.IsText line) :
    c.continuation (.ok bytes) = (c.reading file).continuation (.ok bytes) := by
  obtain ⟨p, read⟩ := Problem.exists_ofLines_iff.mpr text
  apply continuation_congr
  · rw [problem_input fromInput, problem_reading plain, read]
  · exact (report_reading file c).symm

theorem continuation_garbled (plain : IsPlainName file) (fromInput : c.file? = none)
    (garbled : ¬ ∀ line ∈ Lines.leading bytes, Lines.IsText line) :
    c.continuation (.ok bytes) = ⟨"", some (.input .notUtf8)⟩ ∧
      (c.reading file).continuation (.ok bytes) = ⟨"", some (.problem (.file .notUtf8))⟩ := by
  cases read : Problem.ofLines bytes with
  | ok p => exact absurd (Problem.exists_ofLines_iff.mp ⟨p, read⟩) garbled
  | error fault =>
    obtain rfl := Problem.ofLines_error read
    constructor
    · rw [continuation, problem_input fromInput, read]
    · rw [continuation, problem_reading plain, read]

/-- **Standard input is a plain file.** Take any arguments that ask for a command on standard input,
and any that ask for the same command on a file whose name has the extension `txt` or none. If both
hold the same bytes, the commands end with the same status, and the first prints the prompt and then
what the second prints. If every line before the first blank one is text, a failure is the same
failure; if not, neither prints anything more, and each names its own source as unreadable. -/
theorem input_as_plain_file {piped named : List String}
    (isPiped : ofArguments? piped = some c) (fromInput : c.file? = none)
    (isNamed : ofArguments? named = some (c.reading file)) (plain : IsPlainName file)
    {files : String → Except FileFault ByteArray} (holds : files file = .ok bytes)
    (input : ByteArray) (others : String → Except FileFault ByteArray) :
    let onInput := runArguments piped bytes others
    let onFile := runArguments named input files
    onInput.status = onFile.status ∧ onInput.output = prompt ++ onFile.output ∧
    ((∀ line ∈ Lines.leading bytes, Lines.IsText line) → onInput.failure = onFile.failure) ∧
    ((∃ line ∈ Lines.leading bytes, ¬ Lines.IsText line) →
      onInput = ⟨prompt, some (.input .notUtf8)⟩ ∧
      onFile = ⟨"", some (.problem (.file .notUtf8))⟩) := by
  intro onInput onFile
  have onInputEq : onInput
      = { c.continuation (.ok bytes) with
          output := prompt ++ (c.continuation (.ok bytes)).output } := by
    simp only [onInput, runArguments_eq isPiped, source, fromInput, run, preamble,
      Option.isNone_none, ↓reduceIte]
  have onFileEq : onFile = (c.reading file).continuation (.ok bytes) := by
    simp only [onFile, runArguments_eq isNamed, source, file?_reading, holds, run, preamble,
      Option.isNone_some, Bool.false_eq_true, ↓reduceIte, String.empty_append]
  rw [onInputEq, onFileEq]
  by_cases text : ∀ line ∈ Lines.leading bytes, Lines.IsText line
  · rw [← continuation_reading plain fromInput text]
    refine ⟨rfl, rfl, fun _ => rfl, ?_⟩
    rintro ⟨line, mem, garbled⟩
    exact absurd (text line mem) garbled
  · obtain ⟨eq, eq'⟩ := continuation_garbled plain fromInput text
    rw [eq, eq']
    exact ⟨rfl, rfl, fun h => absurd h text, fun _ => ⟨rfl, rfl⟩⟩

/-- A carriage return before the line feed, and after the blank line a byte that is no text. -/
theorem trailing_input_as_plain_file :
    let bytes := "2x = 4\r\n \n".toUTF8.push 0xFF
    let files := fun name => if name = "one.eq.txt" then .ok bytes else .error .notFound
    let onInput := runArguments ["solve", "-n", "2"] bytes files
    let onFile := runArguments ["solve", "--file=one.eq.txt", "-n2"] ByteArray.empty files
    onInput.status = 0 ∧ onFile.status = 0 ∧ onInput.output = prompt ++ onFile.output ∧
      onInput.failure = onFile.failure := by
  intro bytes files onInput onFile
  have isPiped : ofArguments? ["solve", "-n", "2"] = some (.solve none (some 2) .text) := by
    decide +kernel
  have isNamed : ofArguments? ["solve", "--file=one.eq.txt", "-n2"]
      = some (reading "one.eq.txt" (.solve none (some 2) .text)) := by
    decide +kernel
  have plain : IsPlainName "one.eq.txt" := by decide +kernel
  have text : ∀ line ∈ Lines.leading bytes, Lines.IsText line :=
    Lines.equations?_isSome_iff.mp (by decide +kernel)
  have holds : files "one.eq.txt" = .ok bytes := rfl
  have succeeds : onInput.status = 0 := by decide +kernel
  obtain ⟨status, output, failure, _⟩ :=
    input_as_plain_file isPiped rfl isNamed plain holds ByteArray.empty files
  exact ⟨succeeds, status.symm.trans succeeds, output, failure text⟩

end Command

end Seidel
