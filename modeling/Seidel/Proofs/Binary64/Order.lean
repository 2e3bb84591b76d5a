import Seidel.Proofs.Binary64.Special
import Seidel.Tolerance

/-!
# The order of floats

The floats that are numbers are ordered like whole numbers, by `rank`. What is not a number is
below nothing and above nothing, and the larger of two values is never such a value unless both
are.
-/

namespace Seidel.Binary64

open Float.Model

/-! ## Ranks -/

/-- A whole number for each value that is a number; the greater value has the greater one. -/
def rank : UnpackedFloat → Int
  | .infinity s => s.apply (2048 * 2 ^ 53)
  | .finite s m e _ => s.apply ((e + 1075) * 2 ^ 53 + m)
  | _ => 0

theorem some_compare_of_lt {a b : Int} (h : a < b) : some Ordering.lt = some (compare a b) :=
  congrArg some (compare_lt_iff_lt.mpr h).symm

theorem some_compare_of_gt {a b : Int} (h : b < a) : some Ordering.gt = some (compare a b) :=
  congrArg some (compare_gt_iff_gt.mpr h).symm

theorem compare_neg_neg (a b : Int) : compare (-a) (-b) = (compare a b).swap := by
  rw [Int.compare_swap, Int.compare_eq_ite_lt, Int.compare_eq_ite_lt]
  simp

section

variable {m m' : Nat} {e e' : Int} {hp : 0 < m} {hp' : 0 < m'}

theorem rank_positive (h : Canonical (.finite .positive m e hp)) :
    0 < rank (.finite .positive m e hp) ∧ rank (.finite .positive m e hp) < 2048 * 2 ^ 53 := by
  obtain ⟨upper, low, high, _⟩ := h
  simp only [rank, UnpackedFloat.Sign.apply]
  omega

theorem rank_negative (h : Canonical (.finite .negative m e hp)) :
    -(2048 * 2 ^ 53) < rank (.finite .negative m e hp) ∧ rank (.finite .negative m e hp) < 0 := by
  have positive : Canonical (.finite .positive m e hp) := h
  have := rank_positive positive
  simp only [rank, UnpackedFloat.Sign.apply] at this ⊢
  omega

theorem compare_then_mantissas (h : m < 2 ^ 53) (h' : m' < 2 ^ 53) :
    (compare e e').then (compare m m')
      = compare ((e + 1075) * 2 ^ 53 + m) ((e' + 1075) * 2 ^ 53 + m') := by
  rcases lt_trichotomy e e' with lt | rfl | gt
  · have : (e + 1075) * 2 ^ 53 + m < (e' + 1075) * 2 ^ 53 + m' := by omega
    rw [compare_lt_iff_lt.mpr lt, compare_lt_iff_lt.mpr this, Ordering.lt_then]
  · rw [compare_eq_iff_eq.mpr rfl, Ordering.eq_then, Int.compare_eq_ite_lt, Nat.compare_eq_ite_lt]
    simp
  · have : (e' + 1075) * 2 ^ 53 + m' < (e + 1075) * 2 ^ 53 + m := by omega
    rw [compare_gt_iff_gt.mpr gt, compare_gt_iff_gt.mpr this, Ordering.gt_then]

/-- Of two finite values with one sign, the exponents decide, and then the mantissas. -/
theorem compare_finite {s t : UnpackedFloat.Sign} (hu : Canonical (.finite s m e hp))
    (hv : Canonical (.finite t m' e' hp')) :
    (UnpackedFloat.finite s m e hp).compare (.finite t m' e' hp')
      = some (compare (rank (.finite s m e hp)) (rank (.finite t m' e' hp'))) := by
  have same : (compare e e').then (compare m m') = _ := compare_then_mantissas hu.1 hv.1
  cases s with
  | negative =>
    cases t with
    | negative =>
      simp only [rank, UnpackedFloat.Sign.apply, compare_neg_neg, ← same]
      rfl
    | positive => exact some_compare_of_lt (lt_trans (rank_negative hu).2 (rank_positive hv).1)
  | positive =>
    cases t with
    | negative => exact some_compare_of_gt (lt_trans (rank_negative hv).2 (rank_positive hu).1)
    | positive =>
      simp only [rank, UnpackedFloat.Sign.apply, ← same]
      rfl

end

theorem compare_eq_rank {u v : UnpackedFloat} (hu : Canonical u) (hv : Canonical v)
    (un : u ≠ .notANumber) (vn : v ≠ .notANumber) :
    u.compare v = some (compare (rank u) (rank v)) := by
  cases u with
  | notANumber => exact absurd rfl un
  | infinity s =>
    cases v with
    | notANumber => exact absurd rfl vn
    | infinity t => cases s <;> cases t <;> rfl
    | zero t => cases s <;> rfl
    | finite t m e hp =>
      cases s with
      | negative =>
        cases t with
        | negative => exact some_compare_of_lt (rank_negative hv).1
        | positive => exact some_compare_of_lt (lt_trans (by decide) (rank_positive hv).1)
      | positive =>
        cases t with
        | negative => exact some_compare_of_gt (lt_trans (rank_negative hv).2 (by decide))
        | positive => exact some_compare_of_gt (rank_positive hv).2
  | zero s =>
    cases v with
    | notANumber => exact absurd rfl vn
    | infinity t => cases t <;> rfl
    | zero t => rfl
    | finite t m e hp =>
      cases t with
      | negative => exact some_compare_of_gt (rank_negative hv).2
      | positive => exact some_compare_of_lt (rank_positive hv).1
  | finite s m e hp =>
    cases v with
    | notANumber => exact absurd rfl vn
    | infinity t =>
      cases t with
      | negative =>
        cases s with
        | negative => exact some_compare_of_gt (rank_negative hu).1
        | positive => exact some_compare_of_gt (lt_trans (by decide) (rank_positive hu).1)
      | positive =>
        cases s with
        | negative => exact some_compare_of_lt (lt_trans (rank_negative hu).2 (by decide))
        | positive => exact some_compare_of_lt (rank_positive hu).2
    | zero t =>
      cases s with
      | negative => exact some_compare_of_lt (rank_negative hu).2
      | positive => exact some_compare_of_gt (rank_positive hu).1
    | finite t m' e' hp' => exact compare_finite hu hv

/-! ## The order -/

variable {x y z : Float}

theorem compare_decode (hx : x.isNaN = false) (hy : y.isNaN = false) :
    (decode x).compare (decode y) = some (compare (rank (decode x)) (rank (decode y))) :=
  compare_eq_rank (canonical_decode x) (canonical_decode y) (isNaN_eq_false_iff.mp hx)
    (isNaN_eq_false_iff.mp hy)

theorem lt_iff_rank (hx : x.isNaN = false) (hy : y.isNaN = false) :
    x < y ↔ rank (decode x) < rank (decode y) := by
  rw [lt_iff, compare_decode hx hy, Option.some.injEq, compare_lt_iff_lt]

theorem le_iff_rank (hx : x.isNaN = false) (hy : y.isNaN = false) :
    x ≤ y ↔ rank (decode x) ≤ rank (decode y) := by
  rw [le_iff, compare_decode hx hy, ← Int.isLE_compare]
  simp

/-- Only numbers are compared. -/
theorem numbers_of_le (h : x ≤ y) : x.isNaN = false ∧ y.isNaN = false := by
  simp only [isNaN_eq_false_iff]
  exact ⟨fun nan => not_nan_le nan h, fun nan => not_le_nan nan h⟩

protected theorem le_refl (hx : x.isNaN = false) : x ≤ x :=
  (le_iff_rank hx hx).mpr (Int.le_refl _)

protected theorem le_trans (h : x ≤ y) (h' : y ≤ z) : x ≤ z := by
  obtain ⟨hx, hy⟩ := numbers_of_le h
  have hz := (numbers_of_le h').2
  rw [le_iff_rank hx hy] at h
  rw [le_iff_rank hy hz] at h'
  exact (le_iff_rank hx hz).mpr (Int.le_trans h h')

protected theorem le_of_not_lt (hx : x.isNaN = false) (hy : y.isNaN = false) (h : ¬ x < y) :
    y ≤ x := by
  rw [lt_iff_rank hx hy] at h
  exact (le_iff_rank hy hx).mpr (Int.not_lt.mp h)

/-! ## The larger of two values -/

theorem larger_of_lt (h : x < y) : larger x y = y := by
  simp only [larger, h, decide_true, Bool.true_or, ↓reduceIte]

theorem larger_of_not_lt (hx : x.isNaN = false) (h : ¬ x < y) : larger x y = x := by
  simp only [larger, h, hx, decide_false, Bool.or_self, Bool.false_eq_true, ↓reduceIte]

theorem larger_cases (hx : x.isNaN = false) :
    larger x y = x ∨ larger x y = y ∧ y.isNaN = false := by
  by_cases lt : x < y
  · exact Or.inr ⟨larger_of_lt lt, (numbers_of_le (Binary64.le_of_lt lt)).2⟩
  · exact Or.inl (larger_of_not_lt hx lt)

theorem le_larger_left (hx : x.isNaN = false) : x ≤ larger x y := by
  by_cases lt : x < y
  · rw [larger_of_lt lt]
    exact Binary64.le_of_lt lt
  · rw [larger_of_not_lt hx lt]
    exact Binary64.le_refl hx

theorem le_larger_right (hx : x.isNaN = false) (hy : y.isNaN = false) : y ≤ larger x y := by
  by_cases lt : x < y
  · rw [larger_of_lt lt]
    exact Binary64.le_refl hy
  · rw [larger_of_not_lt hx lt]
    exact Binary64.le_of_not_lt hx hy lt

end Seidel.Binary64
