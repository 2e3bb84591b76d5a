import Mathlib.Data.List.TakeDrop
import Seidel.Problem.File
import Seidel.Proofs.Text.Bytes

/-!
# What a save leaves behind

A valid problem replaces what the file held, and is loaded again where its format reads what it
prints (`saveAs_loads`). The format of a file is the one of the last point of its name, unless the
name begins there (`extension?_of_fileName`).
-/

namespace Seidel

/-- What follows the last point is the extension, whatever stands before the point. -/
theorem extension?_of_fileName {path stem extension : List UInt8}
    (name : fileName? path = some (stem ++ 0x2E :: extension)) (named : stem ≠ [])
    (pointless : ∀ b ∈ extension, b ≠ 0x2E) : extension? path = some extension := by
  have run : ∀ b ∈ extension.reverse, (b != 0x2E) = true :=
    fun b hb => bne_iff_ne.mpr (pointless b (List.mem_reverse.mp hb))
  have split : (stem ++ 0x2E :: extension).reverse.span (· != 0x2E)
      = (extension.reverse, 0x2E :: stem.reverse) := by
    rw [List.reverse_append, List.reverse_cons, List.append_assoc, List.span_eq_takeWhile_dropWhile,
      List.takeWhile_append_of_pos run, List.dropWhile_append_of_pos run]
    simp
  unfold extension?
  rw [name, Option.bind_some, split]
  obtain ⟨b, before, eq⟩ := List.exists_cons_of_ne_nil (List.reverse_ne_nil_iff.mpr named)
  rw [eq]
  exact congrArg some (List.reverse_reverse extension)

namespace Problem

theorem checked_of_valid {p : Problem} (valid : p.validate = .ok ()) : p.checked = .ok p := by
  unfold checked
  rw [valid]

/-- What a format prints and reads back is loaded as the same problem. -/
theorem loadAs_print {format : FileFormat} {p : Problem}
    (read : format.parse? (format.print p) = some p) (valid : p.validate = .ok ()) :
    loadAs format (.ok (format.print p).toUTF8) = .ok p := by
  simp only [loadAs, Except.mapError, bind, Except.bind, fromUTF8?_toUTF8, read,
    checked_of_valid valid]

/-- A save either leaves a file that is loaded as the problem, or refuses the problem and leaves the
file as it was. -/
theorem saveAs_loads (format : FileFormat) {p : Problem}
    (read : p.validate = .ok () → format.parse? (format.print p) = some p)
    (content : Option ByteArray) :
    match p.validate with
    | .ok () => ∃ bytes, p.saveAs format content = (.ok (), some bytes)
        ∧ loadAs format (.ok bytes) = .ok p
    | .error cause => p.saveAs format content = (.error cause, content) := by
  cases valid : p.validate with
  | ok =>
    refine ⟨(format.print p).toUTF8, ?_, loadAs_print (read valid) valid⟩
    unfold saveAs
    rw [valid]
  | error cause =>
    unfold saveAs
    rw [valid]

end Problem

end Seidel
