import Mathlib.Algebra.Order.Ring.Pow
import Mathlib.Tactic.Ring
import Seidel.Proofs.Exact.Dominance

/-!
# The exact iteration contracts

With exact arithmetic on a strictly dominant system, an update brings a value within `rate` times
the distance that the other values had from the solution. Inside a sweep the positions already
updated are that close and the rest have not moved (`Swept`), which every update carries one
position further.
-/

namespace Seidel

open Finset

namespace LinearSystem

variable {s : LinearSystem Rat}

/-! ## One row -/

theorem row_distinct {i : Nat} {e : Equation Rat} {row : Row Rat}
    (he : s.equations[i]? = some e) (hrow : s.rows[i]? = some row) : row.positions.Nodup :=
  Row.positions_nodup s.inverse (s.row_match he hrow) e.distinct

theorem solves_row {solution : List Rat} (solves : s.Solves solution) {i : Nat} {e : Equation Rat}
    {row : Row Rat} (he : s.equations[i]? = some e) (hrow : s.rows[i]? = some row) :
    ∑ j ∈ range s.symbols.length, s.entry i j * valueAt solution j = e.constant := by
  have distinct := row_distinct he hrow
  have same := congrArg (·[i]?) solves.2
  simp only [matrix, constants, List.getElem?_map, hrow, he, Option.map_some,
    Option.some.injEq] at same
  rw [← same, dotProduct_eq, sum_zipWith_eq (Row.length_dense row _) solves.1]
  apply sum_congr rfl
  intro j hj
  have hj := mem_range.mp hj
  rw [entry_eq hrow distinct hj, Row.getElem?_dense distinct hj]
  rfl

theorem coefficient_otherTerms_self (row : Row Rat) (i : Nat) :
    (Solver.otherTerms row i).coefficient i = 0 := by
  apply Row.coefficient_of_not_mem
  intro mem
  obtain ⟨p, hp, eq⟩ := List.mem_map.mp mem
  simp [Solver.otherTerms, eq] at hp

theorem coefficient_otherTerms (row : Row Rat) {i j : Nat} (ne : j ≠ i) :
    (Solver.otherTerms row i).coefficient j = row.coefficient j := by
  unfold Row.coefficient Solver.otherTerms
  rw [List.find?_filter]
  congr 3
  funext p
  grind

/-- What an update subtracts from the constant. -/
theorem sum_otherTerms {i : Nat} {e : Equation Rat} {row : Row Rat}
    (he : s.equations[i]? = some e) (hrow : s.rows[i]? = some row) (value : Nat → Rat) :
    ((Solver.otherTerms row i).map fun p => p.2 * value p.1.index).sum
      = ∑ j ∈ (range s.symbols.length).erase i, s.entry i j * value j := by
  have distinct := row_distinct he hrow
  have kept : ((Solver.otherTerms row i).positions).Nodup :=
    distinct.sublist (List.filter_sublist.map _)
  have bound : ∀ p ∈ Solver.otherTerms row i, p.1.index < s.symbols.length := by
    intro p hp
    exact Row.position_lt s.inverse (s.row_match he hrow) p (List.mem_of_mem_filter hp)
  have self : (Solver.otherTerms row i).coefficient i * value i = 0 := by
    rw [coefficient_otherTerms_self, zero_mul]
  rw [Row.sum_map_eq kept bound (f := fun j c => c * value j) fun _ => zero_mul _,
    ← sum_erase (f := fun j => (Solver.otherTerms row i).coefficient j * value j) _ self]
  apply sum_congr rfl
  intro j hj
  obtain ⟨ne, hj⟩ := mem_erase.mp hj
  rw [entry_eq hrow distinct (mem_range.mp hj), coefficient_otherTerms row ne]

/-- An update of a dominant system succeeds, and its error is a weighted mean of the errors that
it reads. -/
theorem next_eq_of_dominant (dominant : s.StrictlyDominant) {solution : List Rat}
    (solves : s.Solves solution) {t : Solver Rat} (ready : t.Ready) (same : t.system = s) {i : Nat}
    (hi : i < s.symbols.length) :
    ∃ value, t.next i = .ok value ∧
      (value - valueAt solution i) * s.entry i i
        = ∑ j ∈ (range s.symbols.length).erase i,
            s.entry i j * (valueAt solution j - valueAt t.approximation.values j) := by
  subst same
  obtain ⟨e, row, he, hrow⟩ := exists_row ready.square hi
  have diagonal : row.coefficient i ≠ 0 := by
    rw [← entry_eq hrow (row_distinct he hrow) hi]
    exact abs_pos.mp (diagonal_pos dominant hi)
  have hsymbol := List.getElem?_eq_getElem hi
  have next := Solver.next_eq ready hsymbol hrow he
  have nonzero : Scalar.isZero (row.coefficient i) = false := decide_eq_false diagonal
  rw [nonzero, if_neg Bool.false_ne_true] at next
  rw [Scalar.sum_eq] at next
  have others := sum_otherTerms he hrow (valueAt t.approximation.values)
  have cancel := div_mul_cancel₀ (e.constant - ((Solver.otherTerms row i).map fun p =>
    p.2 * valueAt t.approximation.values p.1.index).sum) diagonal
  have constant := solves_row solves he hrow
  rw [← add_sum_erase _ _ (mem_range.mpr hi), entry_eq hrow (row_distinct he hrow) hi] at constant
  refine ⟨_, next, ?_⟩
  rw [entry_eq hrow (row_distinct he hrow) hi, sub_mul]
  refine (congrArg (· - _) cancel).trans ?_
  simp only [mul_sub, sum_sub_distrib]
  rw [others, ← constant]
  ring

/-- One update brings a value closer than all the values that it reads. -/
theorem next_close (dominant : s.StrictlyDominant) {solution : List Rat}
    (solves : s.Solves solution) {t : Solver Rat} (ready : t.Ready) (same : t.system = s) {i : Nat}
    (hi : i < s.symbols.length) {bound : Rat}
    (close : ∀ j < s.symbols.length,
      |valueAt t.approximation.values j - valueAt solution j| ≤ bound) :
    ∃ value, t.next i = .ok value ∧ |value - valueAt solution i| ≤ s.rate * bound := by
  obtain ⟨value, next, error⟩ := next_eq_of_dominant dominant solves ready same hi
  refine ⟨value, next, ?_⟩
  have pos := diagonal_pos dominant hi
  have nonneg : 0 ≤ bound := (abs_nonneg _).trans (close i hi)
  apply le_of_mul_le_mul_right _ pos
  calc |value - valueAt solution i| * |s.entry i i|
    _ = |∑ j ∈ (range s.symbols.length).erase i,
          s.entry i j * (valueAt solution j - valueAt t.approximation.values j)| := by
      rw [← abs_mul, error]
    _ ≤ ∑ j ∈ (range s.symbols.length).erase i,
          |s.entry i j * (valueAt solution j - valueAt t.approximation.values j)| :=
      abs_sum_le_sum_abs _ _
    _ ≤ ∑ j ∈ (range s.symbols.length).erase i, |s.entry i j| * bound := by
      apply sum_le_sum
      intro j hj
      rw [abs_mul, abs_sub_comm]
      exact mul_le_mul_of_nonneg_left (close j (mem_range.mp (mem_of_mem_erase hj))) (abs_nonneg _)
    _ = s.offDiagonal i * bound := (sum_mul ..).symm
    _ ≤ s.rate * |s.entry i i| * bound :=
      mul_le_mul_of_nonneg_right (offDiagonal_le dominant hi) nonneg
    _ = s.rate * bound * |s.entry i i| := by ring

/-! ## One sweep -/

/-- The middle of a sweep: every value is within `bound` of the solution, and the first `p` are
already closer. -/
structure Swept (s : LinearSystem Rat) (solution : List Rat) (bound : Rat) (p : Nat)
    (t : Solver Rat) : Prop where
  ready : t.Ready
  system_eq : t.system = s
  close : ∀ j < s.symbols.length, |valueAt t.approximation.values j - valueAt solution j| ≤ bound
  closer : ∀ j < p, |valueAt t.approximation.values j - valueAt solution j| ≤ s.rate * bound

theorem valueAt_set {xs : List Rat} {i : Nat} (hi : i < xs.length) (value : Rat) (j : Nat) :
    valueAt (xs.set i value) j = if j = i then value else valueAt xs j := by
  unfold valueAt
  split
  · rename_i h
    subst h
    simp [hi]
  · rename_i h
    rw [List.getElem?_set_ne (Ne.symm h)]

theorem Swept.step (dominant : s.StrictlyDominant) {solution : List Rat}
    (solves : s.Solves solution) {bound : Rat} {i : Nat} {t : Solver Rat}
    (hi : i < s.symbols.length) (h : s.Swept solution bound i t) :
    ∃ value, t.next i = .ok value ∧ s.Swept solution bound (i + 1) (t.store i value) := by
  obtain ⟨value, next, error⟩ := next_close dominant solves h.ready h.system_eq hi h.close
  have lt : i < t.approximation.values.length := by
    rw [h.ready.values_length, h.system_eq]
    exact hi
  have nonneg : 0 ≤ bound := (abs_nonneg _).trans (h.close i hi)
  have shrink : s.rate * bound ≤ bound :=
    mul_le_of_le_one_left nonneg (le_of_lt (rate_lt_one dominant))
  refine ⟨value, next, h.ready.store i value, h.system_eq, ?_, ?_⟩
  · intro j hj
    rw [Solver.store, valueAt_set lt]
    split
    · rename_i eq
      exact eq ▸ error.trans shrink
    · exact h.close j hj
  · intro j hj
    rw [Solver.store, valueAt_set lt]
    split
    · rename_i eq
      exact eq ▸ error
    · exact h.closer j (by omega)

/-- A sweep brings the values closer to the solution by the rate of the system. -/
theorem sweep_close (dominant : s.StrictlyDominant) {solution : List Rat}
    (solves : s.Solves solution) {t : Solver Rat} (ready : t.Ready) (same : t.system = s) :
    ∃ snapshot t', t.sweep = (.ok snapshot, t') ∧ snapshot.approximation = t'.approximation ∧
      t'.Ready ∧ t'.system = s ∧
      distance t'.approximation.values solution
        ≤ s.rate * distance t.approximation.values solution := by
  have lengths : t.approximation.values.length = solution.length := by
    rw [ready.values_length, same, solves.1]
  have first : s.Swept solution (distance t.approximation.values solution) 0 t :=
    ⟨ready, same, fun j _ => abs_sub_le_distance lengths j, fun j hj => absurd hj (Nat.not_lt_zero j)⟩
  obtain ⟨t', last, eq⟩ := Solver.sweep_induction
    (s.Swept solution (distance t.approximation.values solution))
    (fun i t hi h => h.step dominant solves (same ▸ hi)) first
  refine ⟨_, _, eq, rfl, ⟨last.ready.square, last.ready.values_length⟩, last.system_eq, ?_⟩
  apply distance_le
  · exact mul_nonneg (greatest_nonneg _) (greatest_nonneg _)
  · intro j hj
    apply last.closer j
    have := last.ready.values_length
    rw [last.system_eq] at this
    rw [same, ← this]
    exact hj

/-! ## Runs -/

theorem after_close (dominant : s.StrictlyDominant) {solution : List Rat}
    (solves : s.Solves solution) {t : Solver Rat} (ready : t.Ready) (same : t.system = s) (k : Nat) :
    (t.after k).Ready ∧ (t.after k).system = s ∧
      distance (t.after k).approximation.values solution
        ≤ s.rate ^ k * distance t.approximation.values solution := by
  induction k with
  | zero => exact ⟨ready, same, by rw [pow_zero, one_mul]; exact le_refl _⟩
  | succ k ih =>
    obtain ⟨ready, same, close⟩ := ih
    obtain ⟨snapshot, t', eq, _, ready', same', closer⟩ := sweep_close dominant solves ready same
    rw [Solver.after_succ, eq]
    refine ⟨ready', same', closer.trans ?_⟩
    rw [pow_succ', mul_assoc]
    exact mul_le_mul_of_nonneg_left close (greatest_nonneg _)

theorem after_sweep (dominant : s.StrictlyDominant) {solution : List Rat}
    (solves : s.Solves solution) {t : Solver Rat} (ready : t.Ready) (same : t.system = s) (k : Nat) :
    (∃ snapshot, (t.after k).sweep.1 = .ok snapshot) ∧
      distance (t.after (k + 1)).approximation.values solution
        ≤ distance (t.after k).approximation.values solution := by
  obtain ⟨ready, same, _⟩ := after_close dominant solves ready same k
  obtain ⟨snapshot, t', eq, _, _, _, closer⟩ := sweep_close dominant solves ready same
  rw [Solver.after_succ, eq]
  refine ⟨⟨snapshot, rfl⟩, closer.trans ?_⟩
  exact mul_le_of_le_one_left (greatest_nonneg _) (le_of_lt (rate_lt_one dominant))

/-- **Convergence.** On a square, strictly dominant system exact sweeps always succeed. Each brings
the values closer to the solution by a factor below one, from wherever it starts, so a run from
zeros approaches the solution geometrically and never moves away from it. -/
theorem converges_of_strictlyDominant (square : s.IsSquare) (dominant : s.StrictlyDominant)
    {solution : List Rat} (solves : s.Solves solution) :
    s.rate < 1 ∧
    (∀ t : Solver Rat, t.system = s → t.approximation.values.length = s.symbols.length →
      ∃ snapshot t', t.sweep = (.ok snapshot, t') ∧ snapshot.approximation = t'.approximation ∧
        t'.system = s ∧ t'.approximation.values.length = s.symbols.length ∧
        distance t'.approximation.values solution
          ≤ s.rate * distance t.approximation.values solution) ∧
    ∀ n, ∃ snapshots, s.solve n = .ok snapshots ∧ snapshots.length = n ∧
      (∀ k x, snapshots[k]? = some x →
        x.approximation.values.length = s.symbols.length ∧
        distance x.approximation.values solution ≤ s.rate ^ (k + 1) * magnitude solution) ∧
      ∀ k x y, snapshots[k]? = some x → snapshots[k + 1]? = some y →
        distance y.approximation.values solution ≤ distance x.approximation.values solution := by
  refine ⟨rate_lt_one dominant, ?_, ?_⟩
  · intro t same length
    have ready : t.Ready := ⟨same ▸ square, same ▸ length⟩
    obtain ⟨snapshot, t', eq, shows, ready', same', closer⟩ :=
      sweep_close dominant solves ready same
    exact ⟨snapshot, t', eq, shows, same', same' ▸ ready'.values_length, closer⟩
  · intro n
    have start : Solver.start s = .ok ⟨s, .zeros s.symbols, 0⟩ := if_pos square
    have ready := Solver.start_ready start
    have run := Solver.run_eq (n := n) fun k _ => (after_sweep dominant solves ready rfl k).1
    refine ⟨_, by simp only [solve, LinearSystem.run, start, run]; rfl, by simp, ?_, ?_⟩
    · intro k x hx
      obtain ⟨ready', same', close⟩ := after_close dominant solves ready rfl (k + 1)
      have zeros := distance_zeros solves.1
      obtain ⟨hk, rfl⟩ := List.getElem?_eq_some_iff.mp hx
      simp only [List.getElem_map, List.getElem_range]
      refine ⟨?_, zeros ▸ close⟩
      have := ready'.values_length
      rwa [same'] at this
    · intro k x y hx hy
      obtain ⟨hk, rfl⟩ := List.getElem?_eq_some_iff.mp hx
      obtain ⟨hk', rfl⟩ := List.getElem?_eq_some_iff.mp hy
      simp only [List.getElem_map, List.getElem_range]
      exact (after_sweep dominant solves ready rfl (k + 1)).2

/-- `2x + y = 3` and `x + 3y = 4`. -/
def coupled : LinearSystem Rat :=
  (ofEquations? [⟨[⟨"x", 2⟩, ⟨"y", 1⟩], 3, by decide⟩, ⟨[⟨"x", 1⟩, ⟨"y", 3⟩], 4, by decide⟩]).get
    (by decide +kernel)

theorem coupled_converges :
    coupled.IsSquare ∧ coupled.StrictlyDominant ∧ coupled.Solves [1, 1] ∧
    coupled.rate = 1 / 2 ∧
    ∀ n, ∃ snapshots, coupled.solve n = .ok snapshots ∧ snapshots.length = n ∧
      ∀ k x, snapshots[k]? = some x → distance x.approximation.values [1, 1] ≤ (1 / 2) ^ (k + 1) := by
  have square : coupled.IsSquare := by decide +kernel
  have dominant : coupled.StrictlyDominant := by decide +kernel
  have solves : coupled.Solves [1, 1] := by decide +kernel
  have rate : coupled.rate = 1 / 2 := by decide +kernel
  have one : magnitude [1, 1] = 1 := by decide +kernel
  refine ⟨square, dominant, solves, rate, fun n => ?_⟩
  obtain ⟨snapshots, eq, length, close, _⟩ :=
    (converges_of_strictlyDominant square dominant solves).2.2 n
  refine ⟨snapshots, eq, length, fun k x hx => ?_⟩
  have := (close k x hx).2
  rwa [rate, one, mul_one] at this

end LinearSystem

end Seidel
