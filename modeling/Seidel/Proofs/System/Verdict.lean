import Seidel.Proofs.Binary64.Order
import Seidel.Proofs.System.Rows

/-!
# The verdict on a candidate that overflows

A residual that is not a number is never within tolerance. An infinite residual is exactly when
the relative tolerance is positive: the gap is infinite, but so is the bound, which is scaled by
the larger of the two values compared.
-/

namespace Seidel

open Binary64

namespace Tolerance

variable {t : Tolerance} {k r : Float}

theorem admits_iff {a b : Float} :
    t.admits a b = true ↔ (a - b).abs ≤ t.abs ∨ (a - b).abs ≤ t.rel * larger a.abs b.abs := by
  simp only [admits, Bool.or_eq_true, decide_eq_true_eq]

theorem not_admits_nan (hr : r.isNaN = true) : t.admits (k + r) k = false := by
  have gap : decode ((k + r) - k).abs = .notANumber := by
    rw [decode_abs, nan_sub (nan_add_right (isNaN_iff.mp hr))]
    rfl
  apply Bool.eq_false_iff.mpr
  rw [ne_eq, admits_iff]
  rintro (h | h)
  · exact not_nan_le gap h
  · exact not_nan_le gap h

/-- An infinite value is the larger of any two that it is compared with. -/
theorem larger_of_infinity {a b : Float} (ha : decode a = .infinity .positive)
    (hb : b.isFinite = true) : larger a b = a := by
  have number : a.isNaN = false := by
    rw [isNaN_eq_false_iff, ha]
    simp
  exact larger_of_not_lt number (not_infinity_lt ha hb)

theorem admits_infinite_iff (hk : k.isFinite = true) (habs : t.abs.isFinite = true)
    (hrel : t.rel.isFinite = true) (nonneg : .ofBits 0 ≤ t.rel) (hr : r.isInf = true) :
    t.admits (k + r) k = true ↔ .ofBits 0 < t.rel := by
  obtain ⟨s, hr⟩ := isInf_iff.mp hr
  have sum := add_infinity hk hr
  have gap : decode ((k + r) - k).abs = .infinity .positive := by
    rw [decode_abs, infinity_sub sum hk]
    rfl
  have size : decode (k + r).abs = .infinity .positive := by
    rw [decode_abs, sum]
    rfl
  rw [admits_iff, larger_of_infinity size (by rw [isFinite_abs]; exact hk), lt_iff, decode_zero]
  constructor
  · rintro (h | h)
    · exact absurd h (not_infinity_le gap habs)
    · rcases isFinite_iff.mp hrel with ⟨p, hz⟩ | ⟨p, m, e, hp, hf⟩
      · exact absurd h (not_le_nan (zero_mul_infinity hz size))
      · rw [le_iff, decode_zero, hf] at nonneg
        rw [hf]
        cases p with
        | positive => rfl
        | negative =>
          obtain ⟨o, ho, le⟩ := nonneg
          cases ho
          cases le
  · intro positive
    right
    rcases isFinite_iff.mp hrel with ⟨p, hz⟩ | ⟨p, m, e, hp, hf⟩
    · rw [hz] at positive
      cases positive
    · cases p with
      | positive => exact infinity_le_infinity gap (finite_mul_infinity hf size)
      | negative =>
        rw [hf] at positive
        cases positive

end Tolerance

namespace LinearSystem

variable {s : LinearSystem Float} {values residuals : List Float} {t : Tolerance}

theorem isSolvedBy_eq_true_iff (h : s.residuals values = .ok residuals) :
    s.isSolvedBy values t = .ok true ↔
      ∀ p ∈ residuals.zip s.constants, t.admits (p.2 + p.1) p.2 = true := by
  simp only [isSolvedBy, h, Except.map, Except.ok.injEq, List.all_eq_true]

theorem length_residuals (h : s.residuals values = .ok residuals)
    (hv : values.length = s.symbols.length) : residuals.length = s.constants.length := by
  rw [s.residuals_eq hv] at h
  cases h
  rw [List.length_zipWith, length_matrix, length_constants, Nat.min_self]

theorem exists_constant (h : residuals.length = s.constants.length) {r : Float}
    (hr : r ∈ residuals) : ∃ k, (r, k) ∈ residuals.zip s.constants := by
  rw [← List.map_fst_zip (Nat.le_of_eq h)] at hr
  obtain ⟨⟨_, k⟩, hp, rfl⟩ := List.mem_map.mp hr
  exact ⟨k, hp⟩

/-- The system `10x = 1`. -/
def tenfold : LinearSystem Float :=
  (ofEquations? [⟨[⟨"x", .ofBits 0x4024000000000000⟩], .ofBits 0x3FF0000000000000,
    by decide⟩]).get (by decide +kernel)

/-- **When a candidate that overflows is taken for a solution.** Exactly when the relative
tolerance is not zero, some residual is infinite and every other equation is satisfied by a finite
one; a residual that is not a number always prevents it. -/
theorem overflow_satisfies_iff (s : LinearSystem Float) (values : List Float) (t : Tolerance)
    (hv : values.length = s.symbols.length) (hk : ∀ k ∈ s.constants, k.isFinite = true)
    (habs : t.abs.isFinite = true) (hrel : t.rel.isFinite = true)
    (nonneg : .ofBits 0 ≤ t.rel) :
    ∃ residuals, s.residuals values = .ok residuals ∧
      (s.isSolvedBy values t = .ok true ∧ (∃ r ∈ residuals, r.isFinite = false) ↔
        .ofBits 0 < t.rel ∧ (∃ r ∈ residuals, r.isInf = true) ∧
          ∀ p ∈ residuals.zip s.constants,
            p.1.isInf = true ∨ p.1.isFinite = true ∧ t.admits (p.2 + p.1) p.2 = true) := by
  refine ⟨_, s.residuals_eq hv, ?_⟩
  generalize hr : List.zipWith _ _ _ = residuals
  have h : s.residuals values = .ok residuals := by rw [← hr]; exact s.residuals_eq hv
  have len := length_residuals h hv
  have finiteConstant : ∀ p ∈ residuals.zip s.constants, p.2.isFinite = true :=
    fun p hp => hk p.2 (List.of_mem_zip hp).2
  rw [isSolvedBy_eq_true_iff h]
  constructor
  · rintro ⟨admitted, r, hr, notFinite⟩
    -- an equation that is admitted has no residual that is not a number
    have cases_of (p) (hp : p ∈ residuals.zip s.constants) (hf : p.1.isFinite = false) :
        p.1.isInf = true := by
      rcases isFinite_eq_false_iff.mp hf with inf | nan
      · exact inf
      · have := admitted p hp
        rw [Tolerance.not_admits_nan nan] at this
        cases this
    obtain ⟨k, hp⟩ := exists_constant len hr
    have inf := cases_of (r, k) hp notFinite
    refine ⟨?_, ⟨r, hr, inf⟩, fun p hp => ?_⟩
    · exact (Tolerance.admits_infinite_iff (finiteConstant _ hp) habs hrel nonneg inf).mp
        (admitted _ hp)
    · cases hf : p.1.isFinite
      · exact Or.inl (cases_of p hp hf)
      · exact Or.inr ⟨rfl, admitted p hp⟩
  · rintro ⟨positive, ⟨r, hr, inf⟩, each⟩
    refine ⟨fun p hp => ?_, r, hr, isFinite_eq_false_iff.mpr (Or.inl inf)⟩
    rcases each p hp with inf | ⟨_, admits⟩
    · exact (Tolerance.admits_infinite_iff (finiteConstant p hp) habs hrel nonneg inf).mpr
        positive
    · exact admits

/-- With `x = 1e308`, the left-hand side of `10x = 1` is infinite and within the standard
tolerance of one. -/
theorem tenfold_overflow_satisfies :
    (∀ row ∈ tenfold.rows, ∀ p ∈ row, p.2.isFinite = true) ∧
    (∀ k ∈ tenfold.constants, k.isFinite = true) ∧
    (Float.ofBits 0x7FE1CCF385EBC8A0).isFinite = true ∧
    Tolerance.standard.abs.isFinite = true ∧ .ofBits 0 ≤ Tolerance.standard.abs ∧
    .ofBits 0 ≤ Tolerance.standard.rel ∧ Tolerance.standard.rel < .ofBits 0x3FF0000000000000 ∧
    tenfold.isSolvedBy [.ofBits 0x7FE1CCF385EBC8A0] .standard = .ok true ∧
    tenfold.residuals [.ofBits 0x7FE1CCF385EBC8A0] = .ok [.ofBits 0x7FF0000000000000] ∧
    (Float.ofBits 0x7FF0000000000000).isFinite = false := by
  decide +kernel

theorem tenfold_overflow_satisfies_iff :
    tenfold.constants.all Float.isFinite = true ∧ Tolerance.standard.rel.isFinite = true ∧
    ∃ residuals, tenfold.residuals [.ofBits 0x7FE1CCF385EBC8A0] = .ok residuals ∧
      (tenfold.isSolvedBy [.ofBits 0x7FE1CCF385EBC8A0] .standard = .ok true ∧
          (∃ r ∈ residuals, r.isFinite = false) ↔
        .ofBits 0 < Tolerance.standard.rel ∧ (∃ r ∈ residuals, r.isInf = true) ∧
          ∀ p ∈ residuals.zip tenfold.constants, p.1.isInf = true ∨
            p.1.isFinite = true ∧ Tolerance.standard.admits (p.2 + p.1) p.2 = true) :=
  ⟨by decide +kernel, by decide +kernel,
    overflow_satisfies_iff tenfold [.ofBits 0x7FE1CCF385EBC8A0] .standard rfl
      (by decide +kernel) (by decide +kernel) (by decide +kernel) (by decide +kernel)⟩

end LinearSystem

end Seidel
