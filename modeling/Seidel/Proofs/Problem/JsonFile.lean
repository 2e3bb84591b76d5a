import Seidel.Proofs.Json.Reading
import Seidel.Proofs.Problem.Files
import Seidel.Proofs.System.Rows

/-!
# Problems survive JSON files

What is saved is the text of an object with a member for each part of the problem. It is loaded as
the same problem, also by a file name that ends in `.json` (`saveAs_json_loads`). A name that is
nothing but `.json` has no extension, and its file is read as plain text
(`hidden_json_is_plain`).
-/

namespace Seidel.Problem

open Json

/-! ## The parts of a problem -/

theorem textOfJson?_ofString (s : String) : textOfJson? (ofString s) = some s := by
  simp [textOfJson?, ofString, unescape?_escape]

theorem nameOfJson?_ofString (s : String) : nameOfJson? (ofString s) = some (some s) := by
  have text := textOfJson?_ofString s
  unfold ofString at text ⊢
  simp only [nameOfJson?, text, Option.map_some]

theorem iterationsOfJson?_ofNat (n : UInt64) : iterationsOfJson? (ofNat n.toNat) = some n := by
  have digits : (Nat.toDigits 10 n.toNat).all Char.isDigit = true :=
    List.all_eq_true.mpr (Decimal.toDigits_isDigit _)
  simp only [iterationsOfJson?, ofNat, Decimal.natOfDigits_toDigits]
  rw [if_pos ⟨digits, n.toNat_lt⟩, UInt64.ofNat_toNat]

theorem equationsOfJson?_ofStrings (equations : List String) :
    equationsOfJson? (.array (equations.map ofString)) = some equations := by
  apply mapM_eq_some_iff.mpr
  rw [List.forall₂_map_left_iff, List.forall₂_same]
  exact fun s _ => textOfJson?_ofString s

/-- Names without escapes stand for themselves. -/
theorem ofJson?_object {members : List (List Char × Json)}
    (plain : ∀ m ∈ members, unescape? m.1 = some m.1) :
    ofJson? (.object members) = ofMembers? (members.map fun m => (String.ofList m.1, m.2)) := by
  have opened : ofJson? (.object members) = (members.mapM fun m =>
      (unescape? m.1).map fun name => (String.ofList name, m.2)).bind ofMembers? := rfl
  have named : (members.mapM fun m => (unescape? m.1).map fun name => (String.ofList name, m.2))
      = some (members.map fun m => (String.ofList m.1, m.2)) := by
    apply mapM_eq_some_iff.mpr
    rw [List.forall₂_map_right_iff, List.forall₂_same]
    intro m mem
    rw [plain m mem, Option.map_some]
  rw [opened, named, Option.bind_some]

/-- The members are found by their names, and a missing name stays missing. -/
theorem ofJson?_toJson (p : Problem) : ofJson? p.toJson = some p := by
  obtain ⟨name, iterations, equations⟩ := p
  have knownIterations := iterationsOfJson?_ofNat iterations
  have knownEquations := equationsOfJson?_ofStrings equations
  have plainIterations : unescape? "iterations".toList = some "iterations".toList := by decide
  have plainEquations : unescape? "equations".toList = some "equations".toList := by decide
  cases name with
  | none =>
    refine (ofJson?_object ?_).trans ?_
    · rintro m (_ | ⟨_, _ | ⟨_, ⟨⟩⟩⟩) <;> assumption
    · simp [ofMembers?, member?, nameOfJson?, knownIterations, knownEquations]
  | some name =>
    have plainName : unescape? "name".toList = some "name".toList := by decide
    have knownName := nameOfJson?_ofString name
    refine (ofJson?_object ?_).trans ?_
    · rintro m (_ | ⟨_, _ | ⟨_, _ | ⟨_, ⟨⟩⟩⟩⟩) <;> assumption
    · simp [ofMembers?, member?, knownName, knownIterations, knownEquations]

theorem printable_toJson (p : Problem) : Printable p.toJson := by
  have quotable {name : List Char} (plain : escape name = name) : IsQuotable name :=
    plain ▸ isQuotable_escape name
  have strings : ∀ item ∈ p.equations.map ofString, Printable item := by
    intro item mem
    obtain ⟨e, _, rfl⟩ := List.mem_map.mp mem
    exact printable_ofString e
  have texts := Printable.array strings
  have count := printable_ofNat p.iterations.toNat
  have iterations : IsQuotable "iterations".toList := quotable (by decide)
  have equations : IsQuotable "equations".toList := quotable (by decide)
  have name : IsQuotable "name".toList := quotable (by decide)
  unfold toJson
  cases p.name with
  | none =>
    refine .object ?_ ?_ <;> rintro m (_ | ⟨_, _ | ⟨_, ⟨⟩⟩⟩) <;> assumption
  | some s =>
    have called := printable_ofString s
    refine .object ?_ ?_ <;> rintro m (_ | ⟨_, _ | ⟨_, _ | ⟨_, ⟨⟩⟩⟩⟩) <;> assumption

theorem parseJson?_printJson (p : Problem) : parseJson? p.printJson = some p := by
  unfold parseJson? printJson Json.pretty
  rw [String.toList_ofList, parse?_print p.printable_toJson]
  exact ofJson?_toJson p

/-! ## Files -/

theorem ofPath_json {path stem : List UInt8}
    (name : fileName? path = some (stem ++ ".json".toUTF8.data.toList)) (named : stem ≠ []) :
    FileKind.ofPath path = .formatted .json := by
  have bytes : ".json".toUTF8.data.toList = 0x2E :: "json".toUTF8.data.toList := by decide
  rw [bytes] at name
  have found := extension?_of_fileName name named (by decide +kernel)
  have text : String.fromUTF8? ⟨"json".toUTF8.data.toList.toArray⟩ = some "json" :=
    fromUTF8?_toUTF8 "json"
  unfold FileKind.ofPath
  rw [found, Option.bind_some, text]
  decide

/-- **JSON files keep problems.** A valid problem can be saved over anything, and what is saved is
loaded as the same problem, as JSON and by every file name that ends in `.json` after something
else. An invalid problem is refused, and the file stays as it was. -/
theorem saveAs_json_loads (p : Problem) (content : Option ByteArray) :
    match p.validate with
    | .ok () => ∃ bytes, p.saveAs .json content = (.ok (), some bytes)
        ∧ loadAs .json (.ok bytes) = .ok p
        ∧ ∀ path stem, fileName? path.data.toList = some (stem ++ ".json".toUTF8.data.toList) →
            stem ≠ [] → load path (.ok bytes) = .ok p
    | .error cause => p.saveAs .json content = (.error cause, content) := by
  have saved := saveAs_loads .json (fun _ => p.parseJson?_printJson) content
  cases valid : p.validate with
  | error => rwa [valid] at saved
  | ok =>
    rw [valid] at saved
    obtain ⟨bytes, written, loaded⟩ := saved
    refine ⟨bytes, written, loaded, fun path stem name named => ?_⟩
    unfold load
    rw [ofPath_json name named]
    exact loaded

/-- The name `.json` has no extension: the first line of what was saved there is taken for an
equation. -/
theorem hidden_json_is_plain :
    let p : Problem := { equations := ["x = 1"] }
    p.saveAs .json none = (.ok (), some p.printJson.toUTF8)
      ∧ fileName? ".json".toUTF8.data.toList = some ".json".toUTF8.data.toList
      ∧ load ".json".toUTF8 (.ok p.printJson.toUTF8) ≠ .ok p := by
  decide +kernel

end Seidel.Problem
