import Seidel.Proofs.Binary64.Decoding

/-!
# Comparing floats

Floats that compare as equal are both finite or neither, and the same unless they are zeros. A
float below zero is the negation of its absolute value, and any other finite one equals its
absolute value.
-/

namespace Seidel.Binary64

open Float.Model

theorem isNaN_iff {x : Float} : x.isNaN = true ↔ decode x = .notANumber :=
  UnpackedFloat.isNaN_iff

theorem isNaN_eq_false_iff {x : Float} : x.isNaN = false ↔ decode x ≠ .notANumber := by
  rw [← Bool.not_eq_true, ne_eq, isNaN_iff]

theorem isInf_iff {x : Float} : x.isInf = true ↔ ∃ s, decode x = .infinity s := by
  change (decode x).isInf = true ↔ _
  cases decode x <;> simp [UnpackedFloat.isInf]

theorem isFinite_iff {x : Float} :
    x.isFinite = true ↔ (∃ s, decode x = .zero s) ∨ ∃ s m e h, decode x = .finite s m e h := by
  change (decode x).isFinite = true ↔ _
  cases decode x <;> simp [UnpackedFloat.isFinite, *]

theorem isFinite_eq_false_iff {x : Float} :
    x.isFinite = false ↔ x.isInf = true ∨ x.isNaN = true := by
  change (decode x).isFinite = false ↔ (decode x).isInf = true ∨ (decode x).isNaN = true
  cases decode x <;> simp [UnpackedFloat.isFinite, UnpackedFloat.isInf, UnpackedFloat.isNaN]

theorem decode_zero : decode (.ofBits 0) = .zero .positive :=
  decode_ofBits 0

/-! ## Equality -/

theorem beq_self {x : Float} (h : x.isFinite = true) : (x == x) = true := by
  rw [Float.beq_self_iff]
  rintro rfl
  exact absurd h (by decide)

theorem isFinite_of_beq {x y : Float} (h : (x == y) = true) (hx : x.isFinite = true) :
    y.isFinite = true := by
  rcases (Float.beq_iff_ne_nan_and_eq.mp h).2.2 with rfl | ⟨_, rfl⟩ | ⟨_, rfl⟩
  · exact hx
  · decide
  · decide

/-- Only zero has a second float that equals it. -/
theorem eq_of_beq {x y : Float} (h : (x == y) = true) (hy : (y == .ofBits 0) = false) :
    x = y := by
  rcases (Float.beq_iff_ne_nan_and_eq.mp h).2.2 with rfl | ⟨_, rfl⟩ | ⟨_, rfl⟩
  · rfl
  · exact absurd hy (by decide)
  · exact absurd hy (by decide)

/-! ## Order -/

theorem lt_iff {x y : Float} : x < y ↔ (decode x).compare (decode y) = some .lt := by
  change decide (((decode x).compare (decode y) == some .lt) = true) = true ↔ _
  rw [decide_eq_true_eq, beq_iff_eq]

theorem le_iff {x y : Float} :
    x ≤ y ↔ ∃ o, (decode x).compare (decode y) = some o ∧ o.isLE = true := by
  change decide (((decode x).compare (decode y)).any (·.isLE) = true) = true ↔ _
  rw [decide_eq_true_eq, Option.any_eq_true]

protected theorem le_of_lt {x y : Float} (h : x < y) : x ≤ y :=
  le_iff.mpr ⟨.lt, lt_iff.mp h, rfl⟩

theorem negative_of_lt_zero {x : Float} (h : x < .ofBits 0) :
    decode x = .infinity .negative ∨ ∃ m e hp, decode x = .finite .negative m e hp := by
  rw [lt_iff, decode_zero] at h
  cases hd : decode x with
  | notANumber => simp [hd, UnpackedFloat.compare] at h
  | infinity s => cases s <;> simp_all [UnpackedFloat.compare]
  | zero s => simp [hd, UnpackedFloat.compare] at h
  | finite s m e hp => cases s <;> simp_all [UnpackedFloat.compare]

theorem neg_abs_of_lt_zero {x : Float} (h : x < .ofBits 0) : -x.abs = x := by
  apply decode_injective
  rw [decode_neg, decode_abs]
  rcases negative_of_lt_zero h with hd | ⟨m, e, hp, hd⟩ <;> rw [hd] <;> rfl

theorem abs_beq_of_not_lt_zero {x : Float} (h : ¬ x < .ofBits 0) (hf : x.isFinite = true) :
    (x.abs == x) = true := by
  rw [lt_iff, decode_zero] at h
  change ((decode x.abs).beq (decode x)) = true
  rcases isFinite_iff.mp hf with ⟨s, hx⟩ | ⟨s, m, e, hp, hx⟩
  · rw [decode_abs, hx]
    cases s <;> rfl
  · cases s with
    | negative => simp [hx, UnpackedFloat.compare] at h
    | positive =>
      have same : decode x.abs = decode x := by
        rw [decode_abs, hx]
        rfl
      rw [same]
      exact beq_self hf

end Seidel.Binary64
