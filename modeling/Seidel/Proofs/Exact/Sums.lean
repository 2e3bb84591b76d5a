import Mathlib.Algebra.BigOperators.Group.Finset.Basic
import Mathlib.Algebra.BigOperators.Group.List.Basic
import Mathlib.Algebra.BigOperators.Ring.Finset
import Mathlib.Algebra.Order.Ring.Rat
import Seidel.Proofs.Solver.Steps

/-!
# Sums over a row

In exact arithmetic the order of a sum does not matter. A sum over the entries of a sparse row is
a sum over all positions, with zero where the row has no entry.
-/

namespace Seidel

open Finset

theorem Scalar.sum_eq (xs : List Rat) : Scalar.sum xs = xs.sum :=
  List.sum_eq_foldl.symm

theorem dotProduct_eq (coefficients values : List Rat) :
    dotProduct coefficients values = (List.zipWith (· * ·) coefficients values).sum := by
  unfold dotProduct
  split
  · rename_i h
    have h : List.zipWith (· * ·) coefficients values = [] := h
    rw [h]
    rfl
  · rename_i p ps h
    have h : List.zipWith (· * ·) coefficients values = p :: ps := h
    have first := @List.foldl_assoc Rat (· + ·) _ ps p 0
    rw [add_zero] at first
    rw [h, List.sum_cons, List.sum_eq_foldl]
    exact first

theorem sum_zipWith_eq {as bs : List Rat} {n : Nat} (ha : as.length = n) (hb : bs.length = n) :
    (List.zipWith (· * ·) as bs).sum = ∑ j ∈ range n, (as[j]?).getD 0 * (bs[j]?).getD 0 := by
  change _ = ((List.range n).map fun j => (as[j]?).getD 0 * (bs[j]?).getD 0).sum
  congr 1
  apply List.ext_getElem
  · simp [ha, hb]
  · intro j h _
    have : j < as.length ∧ j < bs.length := by simpa using h
    simp [this]

namespace Row

theorem coefficient_cons (v : Variable) (c : Rat) (rest : Row Rat) (j : Nat) :
    Row.coefficient ((v, c) :: rest) j
      = if v.index = j then c else Row.coefficient rest j := by
  by_cases h : v.index = j
  · simp [coefficient, h]
  · simp [coefficient, h]

theorem coefficient_of_not_mem {row : Row Rat} {j : Nat} (h : j ∉ row.positions) :
    row.coefficient j = 0 := by
  have : row.find? (·.1.index == j) = none := by
    apply List.find?_eq_none.mpr
    intro p hp eq
    exact h (List.mem_map.mpr ⟨p, hp, beq_iff_eq.mp eq⟩)
  rw [coefficient, this]
  rfl

/-- Terms that vanish with their coefficient can be summed over a row or over all positions. -/
theorem sum_map_eq {row : Row Rat} (distinct : row.positions.Nodup) {n : Nat}
    (bound : ∀ p ∈ row, p.1.index < n) {f : Nat → Rat → Rat} (hf : ∀ j, f j 0 = 0) :
    (row.map fun p => f p.1.index p.2).sum = ∑ j ∈ range n, f j (row.coefficient j) := by
  induction row with
  | nil =>
    symm
    apply sum_eq_zero
    intro j _
    exact hf j
  | cons p rest ih =>
    obtain ⟨v, c⟩ := p
    obtain ⟨fresh, distinct⟩ := List.nodup_cons.mp distinct
    have hv : v.index < n := bound (v, c) List.mem_cons_self
    have split (j : Nat) : f j (coefficient ((v, c) :: rest) j)
        = (if v.index = j then f j c else 0) + f j (coefficient rest j) := by
      rw [coefficient_cons]
      split
      · rename_i h
        subst h
        rw [coefficient_of_not_mem fresh, hf, add_zero]
      · rw [zero_add]
    rw [List.map_cons, List.sum_cons, ih distinct fun p hp => bound p (List.mem_cons_of_mem _ hp)]
    simp only [split, sum_add_distrib, sum_ite_eq, mem_range, hv, if_true]

end Row

end Seidel
