import Mathlib.Tactic.Ring
import Seidel.Proofs.Exact.Dominance
import Seidel.Proofs.Solver.Sweeping

/-!
# Fixed points are solutions

With exact arithmetic, three things are the same: a sweep changes nothing, every residual is zero,
every equation holds as it is written. The residual comes from the dense row and the equation from
its terms, but both add the same products (`residuals_eq_map`). A sweep that changes nothing has
read, at every position, the values it started from, so each equation gave back the value of its
own variable; the converse needs no second induction, because a sweep has one outcome only
(`values_eq_iff`).
-/

namespace Seidel

open Finset

/-! ## The left-hand side of an equation -/

/-- The sum of the terms of an equation when each symbol has a value. -/
def Equation.leftHandSide (e : Equation Rat) (value : String → Rat) : Rat :=
  (e.terms.map fun t => t.coefficient * value t.symbol).sum

/-- The terms on all symbols are the term on one of them and the others. -/
theorem Equation.leftHandSide_eq (e : Equation Rat) (value : String → Rat) (symbol : String) :
    e.leftHandSide value = (e.coefficient? symbol).getD 0 * value symbol
      + ((e.others symbol).map fun t => t.coefficient * value t.symbol).sum := by
  obtain ⟨terms, constant, distinct⟩ := e
  unfold leftHandSide coefficient? others
  induction terms with
  | nil => simp
  | cons t rest ih =>
    obtain ⟨fresh, distinct⟩ := List.nodup_cons.mp distinct
    by_cases h : t.symbol = symbol
    · have absent : ∀ u ∈ rest, (u.symbol != symbol) = true := by
        intro u hu
        rw [bne_iff_ne]
        rintro rfl
        exact fresh (List.mem_map.mpr ⟨u, hu, h.symm⟩)
      simp [h, List.filter_eq_self.mpr absent]
    · simp only [List.map_cons, List.sum_cons, ih distinct]
      simp [h]
      ring

namespace LinearSystem

variable {s : LinearSystem Rat}

/-- The value of a symbol among the values of a system. -/
def valueOfSymbol (s : LinearSystem Rat) (values : List Rat) (symbol : String) : Rat :=
  valueAt values (s.symbols.idxOf symbol)

/-! ## Residuals -/

theorem dotProduct_dense {e : Equation Rat} {row : Row Rat}
    (h : Row.ofTerms? s.positions e.terms = some row) {values : List Rat}
    (length : values.length = s.symbols.length) :
    dotProduct (row.dense s.symbols.length) values = e.leftHandSide (s.valueOfSymbol values) := by
  have distinct := Row.positions_nodup s.inverse h e.distinct
  calc dotProduct (row.dense s.symbols.length) values
    _ = ∑ j ∈ range s.symbols.length, row.coefficient j * valueAt values j := by
      rw [dotProduct_eq, sum_zipWith_eq (Row.length_dense row _) length]
      apply sum_congr rfl
      intro j hj
      rw [Row.getElem?_dense distinct (mem_range.mp hj)]
      rfl
    _ = (row.map fun p => p.2 * valueAt values p.1.index).sum :=
      (Row.sum_map_eq distinct (Row.position_lt s.inverse h) (f := fun j c => c * valueAt values j)
        fun _ => zero_mul _).symm
    _ = e.leftHandSide (s.valueOfSymbol values) := by
      rw [Row.map_positions s.inverse h fun c j => c * valueAt values j]
      rfl

/-- The residuals of the dense rows are those of the equations as they are written. -/
theorem residuals_eq_map {values : List Rat} (length : values.length = s.symbols.length) :
    s.residuals values
      = .ok (s.equations.map fun e => e.leftHandSide (s.valueOfSymbol values) - e.constant) := by
  rw [residuals_eq s length, matrix, constants, List.zipWith_map]
  congr 1
  have matched := s.rows_match
  generalize s.equations = equations at matched ⊢
  generalize s.rows = rows at matched ⊢
  induction matched with
  | nil => rfl
  | cons head _ ih =>
    rw [List.zipWith_cons_cons, List.map_cons, ih, dotProduct_dense head length]

/-! ## Sweeps that change nothing -/

/-- Equation `i` gives back the value of its own variable exactly when it holds. -/
theorem solved?_eq_iff {i : Nat} {e : Equation Rat} {symbol : String}
    (he : s.equations[i]? = some e) (hsymbol : s.symbols[i]? = some symbol)
    (regular : ¬ s.ZeroDiagonal i) {values : List Rat}
    (length : values.length = s.symbols.length) :
    values[i]? = s.solved? i (Solver.valueOf values)
      ↔ e.leftHandSide (s.valueOfSymbol values) = e.constant := by
  obtain ⟨hi, hs⟩ := List.getElem?_eq_some_iff.mp hsymbol
  have value : values[i]? = some (s.valueOfSymbol values symbol) := by
    rw [valueOfSymbol, ← hs, s.canonicalOrder.nodup.idxOf_getElem i hi]
    simp [valueAt, length, hi]
  have diagonal : (e.coefficient? symbol).getD 0 ≠ 0 := by
    intro zero
    apply regular
    simp only [ZeroDiagonal, diagonal?, he, hsymbol]
    exact decide_eq_true zero
  have solved : s.solved? i (Solver.valueOf values)
      = some ((e.constant - ((e.others symbol).map fun t =>
          t.coefficient * s.valueOfSymbol values t.symbol).sum)
            / (e.coefficient? symbol).getD 0) := by
    simp only [solved?, he, hsymbol, Scalar.sum_eq]
    rfl
  rw [value, solved, Option.some.injEq, eq_div_iff diagonal, eq_sub_iff_add_eq,
    e.leftHandSide_eq _ symbol, mul_comm]

theorem solved_iff_holds (square : s.IsSquare)
    (regular : ∀ i < s.symbols.length, ¬ s.ZeroDiagonal i) {values : List Rat}
    (length : values.length = s.symbols.length) :
    (∀ i < values.length, values[i]? = s.solved? i (Solver.valueOf values)) ↔
      ∀ e ∈ s.equations, e.leftHandSide (s.valueOfSymbol values) = e.constant := by
  constructor
  · intro solved e mem
    obtain ⟨i, hi, rfl⟩ := List.getElem_of_mem mem
    have hi' : i < s.symbols.length := square ▸ hi
    exact (solved?_eq_iff (List.getElem?_eq_getElem hi) (List.getElem?_eq_getElem hi')
      (regular i hi') length).mp (solved i (length ▸ hi'))
  · intro holds i hi
    have hi' : i < s.symbols.length := length ▸ hi
    obtain ⟨e, symbol, _, he, hsymbol, _⟩ := exists_equation square hi'
    exact (solved?_eq_iff he hsymbol (regular i hi') length).mpr
      (holds e (List.mem_of_getElem? he))

/-- **Fixed points are solutions.** On a square system without a zero on its diagonal, an exact
sweep from any values succeeds, and it leaves all of them as they are exactly when every residual
is zero, which is when every equation holds as it is written. -/
theorem sweep_fixes_iff_solves (square : s.IsSquare)
    (regular : ∀ i < s.symbols.length, ¬ s.ZeroDiagonal i) (t : Solver Rat) (same : t.system = s)
    (length : t.approximation.values.length = s.symbols.length) :
    ∃ snapshot t' residuals, t.sweep = (.ok snapshot, t') ∧
      snapshot.approximation = t'.approximation ∧
      t.residuals = .ok residuals ∧ residuals.length = s.equations.length ∧
      (t'.approximation.values = t.approximation.values ↔ ∀ r ∈ residuals, r = 0) ∧
      ((∀ r ∈ residuals, r = 0) ↔
        ∀ e ∈ s.equations,
          e.leftHandSide (s.valueOfSymbol t.approximation.values) = e.constant) := by
  subst same
  obtain ⟨t', updated, _, sweep⟩ := Solver.sweep_regular ⟨square, length⟩ regular
  rw [← length] at updated
  have fixed := updated.values_eq_iff.trans (solved_iff_holds square regular length)
  have vanish : (∀ r ∈ t.system.equations.map fun e =>
      e.leftHandSide (t.system.valueOfSymbol t.approximation.values) - e.constant, r = 0) ↔
      ∀ e ∈ t.system.equations,
        e.leftHandSide (t.system.valueOfSymbol t.approximation.values) = e.constant := by
    simp only [List.forall_mem_map, sub_eq_zero]
  exact ⟨_, _, _, sweep, rfl, residuals_eq_map length, List.length_map _,
    fixed.trans vanish.symm, vanish⟩

/-- `2x - y = 1` and `3x + 4y = 18`, where `x` is two and `y` three. -/
def balanced : Solver Rat where
  system := (ofEquations? [⟨[⟨"x", 2⟩, ⟨"y", -1⟩], 1, by decide⟩,
    ⟨[⟨"x", 3⟩, ⟨"y", 4⟩], 18, by decide⟩]).get (by decide +kernel)
  approximation := ⟨["x", "y"], [2, 3]⟩
  sweeps := 5

theorem balanced_sweep_fixes :
    balanced.system.IsSquare ∧
    (∀ i < balanced.system.symbols.length, ¬ balanced.system.ZeroDiagonal i) ∧
    (∀ e ∈ balanced.system.equations,
      e.leftHandSide (balanced.system.valueOfSymbol [2, 3]) = e.constant) ∧
    ∃ snapshot t', balanced.sweep = (.ok snapshot, t') ∧ t'.approximation.values = [2, 3] := by
  have square : balanced.system.IsSquare := by decide +kernel
  have regular : ∀ i < balanced.system.symbols.length, ¬ balanced.system.ZeroDiagonal i := by
    decide +kernel
  have holds : ∀ e ∈ balanced.system.equations,
      e.leftHandSide (balanced.system.valueOfSymbol [2, 3]) = e.constant := by decide +kernel
  obtain ⟨snapshot, t', _, sweep, _, _, _, fixed, solves⟩ :=
    sweep_fixes_iff_solves square regular balanced rfl (by decide +kernel)
  exact ⟨square, regular, holds, snapshot, t', sweep, fixed.mpr (solves.mpr holds)⟩

end LinearSystem

end Seidel
