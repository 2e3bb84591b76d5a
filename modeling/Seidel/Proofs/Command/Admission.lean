import Seidel.Command.Report
import Seidel.Proofs.System.Printed

/-!
# Which problems are admitted

A problem is checked wherever it is read, so whatever has been loaded states an equation and has no
blank one (`Loaded.posed`). The check does not ask whether the equations can be read, but it refuses
none that can: a text of nothing but white space is no equation (`loaded_admitted`).
-/

namespace Seidel

theorem mapError_eq_ok_iff {ε ε' α : Type} {f : ε → ε'} {x : Except ε α} {a : α} :
    x.mapError f = .ok a ↔ x = .ok a := by
  cases x <;> simp [Except.mapError]

/-! ## Blank text -/

namespace Text

theorem isBlankText_iff {s : String} : isBlankText s = true ↔ ∀ c ∈ s.toList, isBlank c = true := by
  rw [isBlankText, beq_iff_eq, trim_eq_nil_iff]

end Text

/-- An equation needs a word, if only for the equals sign. -/
theorem Equation.not_blank_of_parse {source : String} {e : Equation Float}
    (h : Equation.parse source = .ok e) : Text.isBlankText source = false := by
  obtain ⟨w, words, _⟩ := exists_of_parse h
  apply Bool.eq_false_iff.mpr
  intro blank
  rw [Text.words_of_blank (Text.isBlankText_iff.mp blank)] at words
  simp [WrittenEquation.words] at words

namespace Problem

/-! ## What is checked -/

/-- There is something to solve: at least one equation, and none that is only white space. -/
structure Posed (p : Problem) : Prop where
  equations_ne_nil : p.equations ≠ []
  not_blank : ∀ e ∈ p.equations, ∃ c ∈ e.toList, Text.isBlank c = false

theorem validate_eq_ok_iff {p : Problem} : p.validate = .ok () ↔ p.Posed := by
  have blank (e : String) :
      Text.isBlankText e = false ↔ ∃ c ∈ e.toList, Text.isBlank c = false := by
    rw [← Bool.not_eq_true, Text.isBlankText_iff]
    simp
  unfold validate
  split
  · rename_i none
    exact ⟨nofun, fun posed => absurd none posed.equations_ne_nil⟩
  · rename_i some
    cases found : p.equations.findIdx? Text.isBlankText with
    | none =>
      refine ⟨fun _ => ⟨some, fun e he => (blank e).mp ?_⟩, fun _ => rfl⟩
      exact List.findIdx?_eq_none_iff.mp found e he
    | some i =>
      refine ⟨nofun, fun posed => ?_⟩
      have shown : p.equations.findIdx? Text.isBlankText = Option.none :=
        List.findIdx?_eq_none_iff.mpr fun e he => (blank e).mpr (posed.not_blank e he)
      rw [found] at shown
      cases shown

theorem checked_eq_ok_iff {p q : Problem} : p.checked = .ok q ↔ p = q ∧ p.Posed := by
  rw [← validate_eq_ok_iff]
  unfold checked
  cases p.validate with
  | error cause => simp
  | ok => simp

/-! ## What is loaded -/

/-- A problem that was read: from a file by its name, from a file in a given format, or by a command
from a file or from standard input. -/
inductive Loaded : Problem → Prop
  | file {path : ByteArray} {content : Except FileFault ByteArray} {p : Problem}
    (h : load path content = .ok p) : Loaded p
  | formatted {format : FileFormat} {content : Except FileFault ByteArray} {p : Problem}
    (h : loadAs format content = .ok p) : Loaded p
  | command {c : Command} {content : Except FileFault ByteArray} {p : Problem}
    (h : c.problem content = .ok p) : Loaded p

variable {p : Problem} {content : Except FileFault ByteArray}

theorem posed_of_checked {q : Problem} (h : q.checked = .ok p) : p.Posed := by
  obtain ⟨rfl, posed⟩ := checked_eq_ok_iff.mp h
  exact posed

theorem posed_of_loadAs {format : FileFormat} (h : loadAs format content = .ok p) : p.Posed := by
  unfold loadAs at h
  cases content with
  | error fault => cases h
  | ok bytes =>
    simp only [Except.mapError, bind, Except.bind] at h
    split at h
    · cases h
    · split at h
      · cases h
      · exact posed_of_checked h

theorem posed_of_load {path : ByteArray} (h : load path content = .ok p) : p.Posed := by
  unfold load at h
  split at h
  · exact posed_of_loadAs h
  · cases read : (content.bind ofLines).mapError ProblemError.file with
    | error cause =>
      rw [read] at h
      cases h
    | ok q =>
      rw [read] at h
      exact posed_of_checked h
  · cases h

theorem posed_of_command {c : Command} (h : c.problem content = .ok p) : p.Posed := by
  unfold Command.problem at h
  split at h
  · exact posed_of_load (mapError_eq_ok_iff.mp h)
  · cases read : (content.bind ofLines).mapError Failure.input with
    | error failure =>
      rw [read] at h
      cases h
    | ok q =>
      rw [read] at h
      exact posed_of_checked (mapError_eq_ok_iff.mp h)

/-- Nothing is loaded unchecked. -/
theorem Loaded.posed (h : Loaded p) : p.Posed := by
  cases h with
  | file h => exact posed_of_load h
  | formatted h => exact posed_of_loadAs h
  | command h => exact posed_of_command h

/-! ## What can be assembled -/

/-- The equations that were read have terms, so their system has variables. -/
theorem nontrivial_of_system {s : LinearSystem Float} (assembled : p.system = .ok s)
    (stated : p.equations ≠ []) : s.equations ≠ [] ∧ s.symbols ≠ [] := by
  have read := LinearSystem.equations_of_parse assembled
  obtain ⟨source, sources, eq⟩ := List.exists_cons_of_ne_nil stated
  rw [eq] at read
  obtain ⟨e, rest, first, _, equations⟩ := List.forall₂_cons_left_iff.mp read
  have mem : e ∈ s.equations := equations ▸ List.mem_cons_self
  obtain ⟨t, terms, written⟩ :=
    List.exists_cons_of_ne_nil (Equation.readable_of_parse first).terms_ne_nil
  have symbol : t.symbol ∈ s.symbols := by
    refine (s.canonicalOrder.mem_iff _).mpr ⟨e, mem, List.mem_map.mpr ⟨t, ?_, rfl⟩⟩
    exact written ▸ List.mem_cons_self
  exact ⟨List.ne_nil_of_mem mem, List.ne_nil_of_mem symbol⟩

theorem posed_of_system {s : LinearSystem Float} (assembled : p.system = .ok s)
    (stated : p.equations ≠ []) : p.Posed := by
  refine ⟨stated, fun source mem => ?_⟩
  have shown : Text.isBlankText source = false :=
    forall_mem_of_forall₂ (LinearSystem.equations_of_parse assembled).flip (p := fun _ => True)
      (fun _ _ => trivial) (fun _ _ _ parsed => Equation.not_blank_of_parse parsed) source mem
  rw [← Bool.not_eq_true, Text.isBlankText_iff] at shown
  simpa using shown

/-- **What is admitted.** Whatever has been loaded, in any way and from any content, has at least one
equation and none that is only white space, so a system that is assembled from it has an equation
and a variable. And of the problems with an equation, none is refused that can be assembled: it is
valid, and can be saved in every format and over anything. -/
theorem loaded_admitted :
    (∀ p, Loaded p → p.Posed ∧
      ∀ s, p.system = .ok s → s.equations ≠ [] ∧ s.symbols ≠ []) ∧
    ∀ (p : Problem) (s : LinearSystem Float), p.equations ≠ [] → p.system = .ok s →
      p.validate = .ok () ∧ ∀ (format : FileFormat) content,
        p.saveAs format content = (.ok (), some (format.print p).toUTF8) := by
  constructor
  · intro p loaded
    exact ⟨loaded.posed, fun s assembled =>
      nontrivial_of_system assembled loaded.posed.equations_ne_nil⟩
  · intro p s stated assembled
    have valid := validate_eq_ok_iff.mpr (posed_of_system assembled stated)
    refine ⟨valid, fun format content => ?_⟩
    unfold saveAs
    rw [valid]

/-- The second line ends with a carriage return, and what follows the blank line is no equation. -/
theorem lines_admitted :
    let input := "2x - y = 3\n y = 1\r\n\n = =\n".toUTF8
    ∃ p, (Command.check none).problem (.ok input) = .ok p ∧ p.Posed ∧
      ∃ s, p.system = .ok s ∧ s.equations ≠ [] ∧ s.symbols ≠ [] ∧ p.validate = .ok () ∧
        p.saveAs .json none = (.ok (), some p.printJson.toUTF8) := by
  intro input
  have read : (Command.check none).problem (.ok input)
      = .ok { equations := ["2x - y = 3", "y = 1"] } := by decide +kernel
  have assembles : (Problem.system { equations := ["2x - y = 3", "y = 1"] }).toOption.isSome
      = true := by decide +kernel
  obtain ⟨posed, nontrivial⟩ := loaded_admitted.1 _ (.command read)
  refine ⟨_, read, posed, ?_⟩
  cases assembled : Problem.system { equations := ["2x - y = 3", "y = 1"] } with
  | error cause =>
    rw [assembled] at assembles
    cases assembles
  | ok s =>
    obtain ⟨equations, symbols⟩ := nontrivial s assembled
    obtain ⟨valid, saved⟩ := loaded_admitted.2 _ s posed.equations_ne_nil assembled
    exact ⟨s, rfl, equations, symbols, valid, saved .json none⟩

end Problem

end Seidel
