import Seidel.Proofs.Binary64.Order
import Seidel.Proofs.Solver.Outcome

/-!
# The largest residual of a run

The largest magnitude of some values bounds those that are numbers and passes over the others. For
the residuals of a run this shows when the values have run away to infinity: each value takes part
in every residual, so none is finite then. The largest is infinite, unless no residual is a number;
in that case it is zero.
-/

namespace Seidel

open Binary64

variable {x y m : Float} {xs : List Float}

/-! ## The greatest magnitude -/

/-- The greatest absolute value among those of `xs` that are numbers, zero if there are none. -/
structure GreatestMagnitude (xs : List Float) (m : Float) : Prop where
  isNaN_eq : m.isNaN = false
  bound : ∀ x ∈ xs, x.isNaN = false → x.abs ≤ m
  attained : m = .ofBits 0 ∨ ∃ x ∈ xs, x.isNaN = false ∧ x.abs = m

namespace GreatestMagnitude

theorem nil : GreatestMagnitude [] (.ofBits 0) :=
  ⟨by decide +kernel, by simp, Or.inl rfl⟩

theorem snoc (h : GreatestMagnitude xs m) (x : Float) :
    GreatestMagnitude (xs ++ [x]) (larger m x.abs) where
  isNaN_eq := (numbers_of_le (le_larger_left h.isNaN_eq)).2
  bound := by
    intro y hy number
    rcases List.mem_append.mp hy with old | new
    · exact Binary64.le_trans (h.bound y old number) (le_larger_left h.isNaN_eq)
    · obtain rfl := List.mem_singleton.mp new
      exact le_larger_right h.isNaN_eq (by rw [isNaN_abs, number])
  attained := by
    rcases larger_cases (y := x.abs) h.isNaN_eq with eq | ⟨eq, number⟩
    · rw [eq]
      rcases h.attained with zero | ⟨y, hy, attains⟩
      · exact Or.inl zero
      · exact Or.inr ⟨y, List.mem_append_left _ hy, attains⟩
    · rw [isNaN_abs] at number
      exact Or.inr ⟨x, by simp, number, eq.symm⟩

/-- An infinite value is the only thing that makes the greatest magnitude infinite. -/
theorem isFinite_iff (h : GreatestMagnitude xs m) :
    m.isFinite = true ↔ ∀ x ∈ xs, x.isInf = false := by
  constructor
  · intro finite x hx
    apply Bool.eq_false_iff.mpr
    intro inf
    obtain ⟨s, infinite⟩ := isInf_iff.mp inf
    have number : x.isNaN = false := by
      rw [isNaN_eq_false_iff, infinite]
      simp
    have size : decode x.abs = .infinity .positive := by
      rw [decode_abs, infinite]
      rfl
    exact not_infinity_le size finite (h.bound x hx number)
  · intro none
    rcases h.attained with rfl | ⟨x, hx, number, rfl⟩
    · decide +kernel
    · rw [isFinite_abs, ← Bool.not_eq_false, isFinite_eq_false_iff, none x hx, number]
      simp

theorem eq_infinity (h : GreatestMagnitude xs m) (infinite : m.isFinite = false) :
    m = .ofBits 0x7FF0000000000000 := by
  rcases h.attained with rfl | ⟨x, _, number, rfl⟩
  · exact absurd infinite (by decide +kernel)
  · rw [isFinite_abs, isFinite_eq_false_iff, number] at infinite
    obtain ⟨s, hx⟩ := isInf_iff.mp (infinite.resolve_right Bool.noConfusion)
    apply decode_injective
    rw [decode_abs, hx, decode_ofBits]
    rfl

theorem eq_zero (h : GreatestMagnitude xs m) (special : ∀ x ∈ xs, x.isFinite = false)
    (finite : m.isFinite = true) : m = .ofBits 0 ∧ ∀ x ∈ xs, x.isNaN = true := by
  have nan : ∀ x ∈ xs, x.isNaN = true := by
    intro x hx
    have notInfinite := h.isFinite_iff.mp finite x hx
    exact (isFinite_eq_false_iff.mp (special x hx)).resolve_left (by rw [notInfinite]; simp)
  refine ⟨h.attained.resolve_right ?_, nan⟩
  rintro ⟨x, hx, number, _⟩
  rw [nan x hx] at number
  cases number

end GreatestMagnitude

theorem greatestMagnitude_largestMagnitude (xs : List Float) :
    GreatestMagnitude xs (largestMagnitude xs) := by
  induction xs using List.reverseRecOn with
  | nil => exact .nil
  | append_singleton xs x ih =>
    rw [largestMagnitude, List.foldl_concat]
    exact ih.snoc x

/-! ## Values that ran away -/

theorem foldl_add_not_finite {p : Float} {ps : List Float}
    (h : ∃ q ∈ p :: ps, q.isFinite = false) : (ps.foldl (· + ·) p).isFinite = false := by
  induction ps generalizing p with
  | nil => simpa using h
  | cons q ps ih =>
    rw [List.foldl_cons]
    apply ih
    simp only [List.exists_mem_cons_iff] at h ⊢
    rcases h with hp | hq | later
    · exact Or.inl (add_not_finite (Or.inl hp))
    · exact Or.inl (add_not_finite (Or.inr hq))
    · exact Or.inr later

theorem dotProduct_not_finite {coefficients values : List Float}
    (length : coefficients.length = values.length) (h : ∃ v ∈ values, v.isFinite = false) :
    (dotProduct coefficients values).isFinite = false := by
  have product : ∃ q ∈ List.zipWith (· * ·) coefficients values, q.isFinite = false := by
    obtain ⟨v, hv, away⟩ := h
    obtain ⟨i, hi, rfl⟩ := List.getElem_of_mem hv
    refine ⟨coefficients[i] * values[i], ?_, mul_not_finite away⟩
    apply List.mem_of_getElem? (i := i)
    simp [hi, length]
  unfold dotProduct
  split
  · rename_i none
    simp [none] at product
  · rename_i p ps products
    rw [products] at product
    exact foldl_add_not_finite product

namespace LinearSystem

variable {s : LinearSystem Float} {values residuals : List Float}

theorem residuals_not_finite (h : s.residuals values = .ok residuals)
    (away : ∃ v ∈ values, v.isFinite = false) : ∀ r ∈ residuals, r.isFinite = false := by
  unfold LinearSystem.residuals at h
  split at h
  · rename_i length
    cases h
    intro r hr
    obtain ⟨i, hi, rfl⟩ := List.getElem_of_mem hr
    rw [List.getElem_zipWith]
    apply sub_not_finite
    apply dotProduct_not_finite _ away
    simp only [matrix, List.getElem_map, Row.length_dense, length]
  · cases h

/-- A run that ends without an error leaves values whose residuals can be computed. -/
theorem exists_residuals_of_run {n : Nat} {x : Approximation Float}
    (h : (s.run n).result = .ok x) : ∃ residuals, s.residuals x.values = .ok residuals := by
  by_cases square : s.IsSquare
  · by_cases regular : n = 0 ∨ s.Regular
    · obtain ⟨snapshots, last, run, _, residuals⟩ := run_of_regular square regular
      rw [run] at h
      cases h
      exact residuals
    · obtain ⟨positive, irregular⟩ := not_or.mp regular
      have zero : ∃ p ∈ s.equations.zip s.symbols, p.1.hasPivot p.2 = false := by
        simpa [Regular] using irregular
      obtain ⟨i, symbol, first⟩ := exists_firstZero zero
      rw [first.run_eq square (Nat.pos_of_ne_zero positive)] at h
      cases h
  · rw [run_of_not_square square] at h
    cases h

/-- The system `x = 1e308`, `10x + y = 0`, whose second variable overflows in the first sweep. -/
def escaping : LinearSystem Float :=
  (ofEquations? [⟨[⟨"x", .ofBits 0x3FF0000000000000⟩], .ofBits 0x7FE1CCF385EBC8A0, by decide⟩,
    ⟨[⟨"x", .ofBits 0x4024000000000000⟩, ⟨"y", .ofBits 0x3FF0000000000000⟩], .ofBits 0,
      by decide⟩]).get (by decide +kernel)

/-- Its values after one sweep: `1e308`, and an infinity. -/
def escaped : Approximation Float where
  symbols := ["x", "y"]
  values := [.ofBits 0x7FE1CCF385EBC8A0, .ofBits 0xFFF0000000000000]

/-- **What the largest residual of a run says.** It bounds every residual that is a number. It is
finite and yet no bound for all of them exactly when some residual is not a number and none is
infinite. Once a value is not finite, the largest residual is infinite, or zero because no residual
is a number. -/
theorem run_largestResidual (s : LinearSystem Float) (n : Nat) (x : Approximation Float)
    (h : (s.run n).result = .ok x) :
    ∃ residuals, s.residuals x.values = .ok residuals ∧
      GreatestMagnitude residuals (largestMagnitude residuals) ∧
      ((largestMagnitude residuals).isFinite = true ∧
          (∃ r ∈ residuals, ¬ (r.isNaN = false ∧ r.abs ≤ largestMagnitude residuals)) ↔
        (∃ r ∈ residuals, r.isNaN = true) ∧ ∀ r ∈ residuals, r.isInf = false) ∧
      ((∃ v ∈ x.values, v.isFinite = false) →
        largestMagnitude residuals = .ofBits 0x7FF0000000000000 ∨
        largestMagnitude residuals = .ofBits 0 ∧ ∀ r ∈ residuals, r.isNaN = true) := by
  obtain ⟨residuals, computed⟩ := exists_residuals_of_run h
  have greatest := greatestMagnitude_largestMagnitude residuals
  refine ⟨residuals, computed, greatest, ⟨?_, ?_⟩, fun away => ?_⟩
  · rintro ⟨finite, r, hr, unbounded⟩
    refine ⟨⟨r, hr, ?_⟩, greatest.isFinite_iff.mp finite⟩
    cases number : r.isNaN with
    | true => rfl
    | false => exact absurd ⟨number, greatest.bound r hr number⟩ unbounded
  · rintro ⟨⟨r, hr, nan⟩, none⟩
    refine ⟨greatest.isFinite_iff.mpr none, r, hr, ?_⟩
    rw [nan]
    rintro ⟨⟨⟩, _⟩
  · have nowhere := residuals_not_finite computed away
    cases finite : (largestMagnitude residuals).isFinite with
    | true => exact Or.inr (greatest.eq_zero nowhere finite)
    | false => exact Or.inl (greatest.eq_infinity finite)

theorem escaping_largestResidual :
    (escaping.run 1).result = .ok escaped ∧
    ∃ residuals, escaping.residuals escaped.values = .ok residuals ∧
      GreatestMagnitude residuals (largestMagnitude residuals) ∧
      ((largestMagnitude residuals).isFinite = true ∧
          (∃ r ∈ residuals, ¬ (r.isNaN = false ∧ r.abs ≤ largestMagnitude residuals)) ↔
        (∃ r ∈ residuals, r.isNaN = true) ∧ ∀ r ∈ residuals, r.isInf = false) ∧
      ((∃ v ∈ escaped.values, v.isFinite = false) →
        largestMagnitude residuals = .ofBits 0x7FF0000000000000 ∨
        largestMagnitude residuals = .ofBits 0 ∧ ∀ r ∈ residuals, r.isNaN = true) :=
  ⟨by decide +kernel, run_largestResidual escaping 1 escaped (by decide +kernel)⟩

/-- Neither of its residuals is a number then, and the largest is zero. -/
theorem escaping_largestResidual_eq_zero :
    escaping.IsSquare ∧ (escaping.run 1).result = .ok escaped ∧
    escaping.residuals escaped.values
      = .ok [.ofBits 0x7FF8000000000000, .ofBits 0x7FF8000000000000] ∧
    largestMagnitude [.ofBits 0x7FF8000000000000, .ofBits 0x7FF8000000000000] = .ofBits 0 ∧
    (Float.ofBits 0).isFinite = true ∧ (Float.ofBits 0x7FF8000000000000).isNaN = true := by
  decide +kernel

end LinearSystem

end Seidel
