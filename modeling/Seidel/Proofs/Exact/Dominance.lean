import Mathlib.Algebra.Order.BigOperators.Group.Finset
import Mathlib.Algebra.Order.Field.Basic
import Mathlib.Algebra.Order.Field.Rat
import Mathlib.Algebra.Order.Group.Unbundled.Abs
import Seidel.Proofs.Exact.Sums

/-!
# Strict diagonal dominance

The quantities that decide how fast the exact iteration converges: the absolute values beside the
diagonal of each row, their ratio to the diagonal, and the greatest distance between two lists of
values.
-/

namespace Seidel

open Finset

/-! ## The greatest of some values -/

/-- The greatest of some values that are not negative, zero for none. -/
def greatest (xs : List Rat) : Rat := xs.foldr max 0

theorem greatest_nonneg (xs : List Rat) : 0 ≤ greatest xs := by
  induction xs with
  | nil => exact le_refl _
  | cons x xs ih => exact le_max_of_le_right ih

theorem le_greatest {xs : List Rat} {x : Rat} (h : x ∈ xs) : x ≤ greatest xs := by
  induction xs with
  | nil => cases h
  | cons y xs ih =>
    rcases List.mem_cons.mp h with rfl | h
    · exact le_max_left _ _
    · exact le_max_of_le_right (ih h)

theorem greatest_le {xs : List Rat} {bound : Rat} (nonneg : 0 ≤ bound)
    (h : ∀ x ∈ xs, x ≤ bound) : greatest xs ≤ bound := by
  induction xs with
  | nil => exact nonneg
  | cons x xs ih =>
    exact max_le (h x List.mem_cons_self) (ih fun y hy => h y (List.mem_cons_of_mem _ hy))

theorem greatest_lt {xs : List Rat} {bound : Rat} (pos : 0 < bound)
    (h : ∀ x ∈ xs, x < bound) : greatest xs < bound := by
  induction xs with
  | nil => exact pos
  | cons x xs ih =>
    exact max_lt (h x List.mem_cons_self) (ih fun y hy => h y (List.mem_cons_of_mem _ hy))

/-! ## Distances -/

/-- The value at a position, zero beyond the last. -/
def valueAt (xs : List Rat) (i : Nat) : Rat := (xs[i]?).getD 0

/-- The greatest absolute value. -/
def magnitude (xs : List Rat) : Rat := greatest (xs.map (|·|))

/-- The greatest difference between two lists of values, position by position. -/
def distance (xs ys : List Rat) : Rat := greatest (List.zipWith (fun x y => |x - y|) xs ys)

theorem abs_sub_le_distance {xs ys : List Rat} (lengths : xs.length = ys.length) (i : Nat) :
    |valueAt xs i - valueAt ys i| ≤ distance xs ys := by
  rcases Nat.lt_or_ge i xs.length with lt | ge
  · apply le_greatest
    have lt' : i < ys.length := lengths ▸ lt
    apply List.mem_iff_getElem.mpr
    refine ⟨i, by simpa using ⟨lt, lt'⟩, ?_⟩
    simp [valueAt, lt, lt']
  · have same : valueAt xs i - valueAt ys i = 0 := by
      simp [valueAt, ge, lengths ▸ ge]
    rw [same, abs_zero]
    exact greatest_nonneg _

theorem distance_le {xs ys : List Rat} {bound : Rat} (nonneg : 0 ≤ bound)
    (h : ∀ i < xs.length, |valueAt xs i - valueAt ys i| ≤ bound) : distance xs ys ≤ bound := by
  apply greatest_le nonneg
  intro d hd
  obtain ⟨i, hi, rfl⟩ := List.mem_iff_getElem.mp hd
  have lt : i < xs.length ∧ i < ys.length := by simpa using hi
  have := h i lt.1
  simpa [valueAt, lt] using this

theorem distance_zeros {ys : List Rat} {n : Nat} (h : ys.length = n) :
    distance (List.replicate n 0) ys = magnitude ys := by
  subst h
  unfold distance magnitude
  congr 1
  apply List.ext_getElem
  · simp
  · intro i _ _
    simp

/-! ## Dominance -/

namespace LinearSystem

variable (s : LinearSystem Rat)

/-- The entry of the matrix in row `i` and column `j`. -/
def entry (i j : Nat) : Rat := ((s.matrix[i]?).bind (·[j]?)).getD 0

/-- What row `i` holds beside its diagonal, in absolute value. -/
def offDiagonal (i : Nat) : Rat :=
  ∑ j ∈ (range s.symbols.length).erase i, |s.entry i j|

/-- Every diagonal entry outweighs the rest of its row. -/
def StrictlyDominant : Prop :=
  ∀ i < s.symbols.length, s.offDiagonal i < |s.entry i i|

instance : Decidable s.StrictlyDominant :=
  inferInstanceAs (Decidable (∀ i < s.symbols.length, s.offDiagonal i < |s.entry i i|))

/-- The factor by which a sweep brings the values closer to a solution. -/
def rate : Rat :=
  greatest ((List.range s.symbols.length).map fun i => s.offDiagonal i / |s.entry i i|)

/-- The left-hand side of every equation is its constant at these values. -/
def Solves (values : List Rat) : Prop :=
  values.length = s.symbols.length ∧ s.matrix.map (dotProduct · values) = s.constants

instance (values : List Rat) : Decidable (s.Solves values) :=
  inferInstanceAs (Decidable (_ ∧ _))

variable {s}

theorem diagonal_pos (dominant : s.StrictlyDominant) {i : Nat} (hi : i < s.symbols.length) :
    0 < |s.entry i i| :=
  lt_of_le_of_lt (sum_nonneg fun _ _ => abs_nonneg _) (dominant i hi)

theorem rate_lt_one (dominant : s.StrictlyDominant) : s.rate < 1 := by
  apply greatest_lt one_pos
  intro r hr
  obtain ⟨i, hi, rfl⟩ := List.mem_map.mp hr
  have hi := List.mem_range.mp hi
  rw [div_lt_one (diagonal_pos dominant hi)]
  exact dominant i hi

theorem offDiagonal_le (dominant : s.StrictlyDominant) {i : Nat} (hi : i < s.symbols.length) :
    s.offDiagonal i ≤ s.rate * |s.entry i i| := by
  rw [← div_le_iff₀ (diagonal_pos dominant hi)]
  exact le_greatest (List.mem_map_of_mem (List.mem_range.mpr hi))

theorem entry_eq {i j : Nat} {row : Row Rat} (hrow : s.rows[i]? = some row)
    (distinct : row.positions.Nodup) (hj : j < s.symbols.length) :
    s.entry i j = row.coefficient j := by
  simp [entry, matrix, hrow, Row.getElem?_dense distinct hj]

end LinearSystem

end Seidel
