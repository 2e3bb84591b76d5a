import Seidel.Proofs.Binary64.Distance
import Seidel.Proofs.Binary64.Products
import Seidel.Proofs.System.Verdict

/-!
# Larger tolerances

Two values are compared alike in either order, and a larger tolerance admits whatever a smaller one
admits. The relative bound is a rounded product, which keeps the order of the tolerances; it is not
a number where an infinity is scaled by zero, and then it admits nothing under the smaller
tolerance.
-/

namespace Seidel

open Binary64 Float.Model

namespace Tolerance

/-- Neither bound of `t` is negative or above that of `t'`. -/
structure Within (t t' : Tolerance) : Prop where
  abs_nonneg : .ofBits 0 ≤ t.abs
  abs_le : t.abs ≤ t'.abs
  rel_nonneg : .ofBits 0 ≤ t.rel
  rel_le : t.rel ≤ t'.rel

theorem admits_comm (t : Tolerance) (a b : Float) : t.admits a b = t.admits b a := by
  unfold admits
  rw [Binary64.abs_sub_comm, larger_abs_comm]

section

variable {x z c d : Float}

/-- What a scaled magnitude bounds, a larger scale bounds too. Only scaled by infinity a zero is no
number, and no zero bounds what is positive. -/
theorem le_scaled (nonneg : .ofBits 0 ≤ c) (le : c ≤ d) (h : x ≤ c * z.abs) :
    x ≤ d * z.abs ∨ x ≤ .ofBits 0 := by
  have number := (numbers_of_le h).1
  have hz : z.isNaN = false := by
    rw [← isNaN_abs, isNaN_eq_false_iff]
    exact fun nan => not_le_nan (nan_mul_right nan) h
  rcases cases_of_nonneg (nonneg_abs hz) with infinite | ⟨s, zero⟩ | ⟨m, e, hm, finite⟩
  · left
    rcases cases_of_nonneg (Binary64.le_trans nonneg le) with hd | ⟨t, hd⟩ | ⟨n, f, hn, hd⟩
    · exact le_infinity number (infinity_mul_infinity hd infinite)
    · obtain ⟨t', hc⟩ := zero_of_le_zero nonneg le hd
      exact absurd h (not_le_nan (zero_mul_infinity hc infinite))
    · exact le_infinity number (finite_mul_infinity hd infinite)
  · right
    rcases infinite_or_finite nonneg with hc | hc
    · exact absurd h (not_le_nan (infinity_mul_zero hc zero))
    · obtain ⟨_, product⟩ := mul_zero_of_isFinite hc zero
      exact le_zero_of_le h product
  · exact .inl (Binary64.le_trans h (Binary64.mul_le_mul_right finite nonneg le))

end

theorem admits_of_within {t t' : Tolerance} {a b : Float} (within : t.Within t')
    (h : t.admits a b = true) : t'.admits a b = true := by
  obtain ⟨z, hz⟩ := exists_larger_abs a b
  rw [admits_iff, hz] at h ⊢
  rcases h with bound | bound
  · exact .inl (Binary64.le_trans bound within.abs_le)
  · rcases le_scaled within.rel_nonneg within.rel_le bound with bound | zero
    · exact .inr bound
    · exact .inl (Binary64.le_trans zero (Binary64.le_trans within.abs_nonneg within.abs_le))

end Tolerance

namespace LinearSystem

theorem isSolvedBy_of_within {s : LinearSystem Float} {values : List Float} {t t' : Tolerance}
    (within : t.Within t') (h : s.isSolvedBy values t = .ok true) :
    s.isSolvedBy values t' = .ok true := by
  cases hr : s.residuals values with
  | error e =>
    unfold isSolvedBy at h
    rw [hr] at h
    cases h
  | ok residuals =>
    rw [isSolvedBy_eq_true_iff hr] at h ⊢
    intro p hp
    exact Tolerance.admits_of_within within (h p hp)

/-- **The order of two values does not matter, and larger tolerances admit more.** Neither finite
values nor finite tolerances are needed. -/
theorem comparison_symmetric_monotone :
    (∀ (t : Tolerance) (a b : Float), t.admits a b = t.admits b a) ∧
    ∀ t t' : Tolerance, t.Within t' →
      (∀ a b : Float, t.admits a b = true → t'.admits a b = true) ∧
      ∀ (s : LinearSystem Float) (values : List Float),
        s.isSolvedBy values t = .ok true → s.isSolvedBy values t' = .ok true := by
  refine ⟨Tolerance.admits_comm, fun t t' within => ⟨fun a b h => ?_, fun s values h => ?_⟩⟩
  · exact Tolerance.admits_of_within within h
  · exact isSolvedBy_of_within within h

/-- The system `2.5x = 1e308`. -/
def steep : LinearSystem Float :=
  (ofEquations? [⟨[⟨"x", .ofBits 0x4004000000000000⟩], .ofBits 0x7FE1CCF385EBC8A0,
    by decide⟩]).get (by decide +kernel)

/-- With `x = 6e307` its left-hand side is `1.5e308`, which half of that admits beside `1e308`.
Under a fourfold tolerance the bound overflows and admits it all the same. -/
theorem steep_comparison_symmetric_monotone :
    let half : Tolerance := ⟨.ofBits 0, .ofBits 0x3FE0000000000000⟩
    let fourfold : Tolerance := ⟨.ofBits 0, .ofBits 0x4010000000000000⟩
    half.Within fourfold ∧
    steep.isSolvedBy [.ofBits 0x7FD55C576D815726] half = .ok true ∧
    steep.isSolvedBy [.ofBits 0x7FD55C576D815726] fourfold = .ok true ∧
    (fourfold.rel * .ofBits 0x7FE1CCF385EBC8A0).isFinite = false := by
  have within : Tolerance.Within ⟨.ofBits 0, .ofBits 0x3FE0000000000000⟩
      ⟨.ofBits 0, .ofBits 0x4010000000000000⟩ :=
    ⟨by decide, by decide, by decide, by decide⟩
  have solved : steep.isSolvedBy [.ofBits 0x7FD55C576D815726]
      ⟨.ofBits 0, .ofBits 0x3FE0000000000000⟩ = .ok true := by decide +kernel
  exact ⟨within, solved,
    (comparison_symmetric_monotone.2 _ _ within).2 steep _ solved, by decide +kernel⟩

end LinearSystem

end Seidel
