import Seidel.Proofs.Exact.Contraction
import Seidel.Proofs.Solver.Alike

/-!
# Only the dense system matters

The solver never looks at the matrix: it adds the terms of sparse rows in the order in which they
were written, and finds the diagonal by a search of its own. With exact arithmetic both are
functions of the dense rows (`solved?_eq_entry`), so systems with the same variables, matrix and
constants have the same runs. Terms may be written in another order and zero terms left out
(`Equation.Equivalent`).
-/

namespace Seidel

open Finset

/-- The same constant, and the same terms other than zero in any order. -/
structure Equation.Equivalent (e e' : Equation Rat) : Prop where
  constant_eq : e.constant = e'.constant
  terms_perm : (e.terms.filter fun t => t.coefficient ≠ 0).Perm
    (e'.terms.filter fun t => t.coefficient ≠ 0)

theorem Equation.Equivalent.coefficient_eq {e e' : Equation Rat} (h : e.Equivalent e')
    (symbol : String) : (e.coefficient? symbol).getD 0 = (e'.coefficient? symbol).getD 0 := by
  have same (c : Rat) (hc : c ≠ 0) :
      e.coefficient? symbol = some c ↔ e'.coefficient? symbol = some c := by
    rw [e.coefficient?_eq_some_iff, e'.coefficient?_eq_some_iff]
    simpa [hc] using h.terms_perm.mem_iff (a := ⟨symbol, c⟩)
  by_cases zero : (e.coefficient? symbol).getD 0 = 0
  · rw [zero]
    cases found : e'.coefficient? symbol with
    | none => rfl
    | some c =>
      by_contra nonzero
      rw [(same c (Ne.symm nonzero)).mpr found] at zero
      exact nonzero zero.symm
  · cases found : e.coefficient? symbol with
    | none => simp [found] at zero
    | some c =>
      have nonzero : c ≠ 0 := by simpa [found] using zero
      rw [(same c nonzero).mp found]

namespace LinearSystem

variable {s s' : LinearSystem Rat}

/-! ## Entries of the matrix -/

theorem zeroDiagonal_iff_entry (square : s.IsSquare) {i : Nat} (hi : i < s.symbols.length) :
    s.ZeroDiagonal i ↔ s.entry i i = 0 := by
  obtain ⟨e, symbol, row, he, hsymbol, hrow⟩ := exists_equation square hi
  rw [zeroDiagonal_iff_row he hsymbol hrow, entry_eq hrow (row_distinct he hrow) hi]
  exact decide_eq_true_iff

/-- What an equation gives for its own variable, from the dense row. -/
theorem solved?_eq_entry (square : s.IsSquare) {i : Nat} (hi : i < s.symbols.length)
    (value : Nat → Rat) :
    s.solved? i value = some (((s.constants[i]?).getD 0
      - ∑ j ∈ (range s.symbols.length).erase i, s.entry i j * value j) / s.entry i i) := by
  obtain ⟨e, symbol, row, he, hsymbol, hrow⟩ := exists_equation square hi
  have constant : (s.constants[i]?).getD 0 = e.constant := by
    simp [constants, he]
  rw [solved?_eq_row he hsymbol hrow, Scalar.sum_eq, sum_otherTerms he hrow, constant,
    entry_eq hrow (row_distinct he hrow) hi]

theorem alike_of_dense (symbols : s.symbols = s'.symbols) (matrix : s.matrix = s'.matrix)
    (constants : s.constants = s'.constants) : Alike id s s' := by
  have length : s'.equations.length = s.equations.length := by
    rw [← length_constants, ← constants, length_constants]
  have square' (square : s.IsSquare) : s'.IsSquare := by
    rw [IsSquare, length, ← symbols]
    exact square
  have entry : s'.entry = s.entry := by
    funext i j
    rw [LinearSystem.entry, LinearSystem.entry, matrix]
  refine ⟨by rw [List.map_id, symbols], length, ?_, ?_⟩
  · intro square i hi
    rw [zeroDiagonal_iff_entry square hi, zeroDiagonal_iff_entry (square' square) (symbols ▸ hi),
      entry]
  · intro square i hi
    funext value
    rw [solved?_eq_entry square hi, solved?_eq_entry (square' square) (symbols ▸ hi), entry,
      constants, symbols]

/-! ## The dense form of equations -/

theorem matrix_eq_of_equivalent (symbols : s.symbols = s'.symbols)
    (equivalent : List.Forall₂ Equation.Equivalent s.equations s'.equations) :
    s.matrix = s'.matrix := by
  rw [matrix_eq_map, matrix_eq_map, symbols]
  generalize s.equations = equations at equivalent
  generalize s'.equations = equations' at equivalent
  induction equivalent with
  | nil => rfl
  | cons head _ ih =>
    rw [List.map_cons, List.map_cons, ih]
    congr 1
    apply List.map_congr_left
    intro symbol _
    exact head.coefficient_eq symbol

/-- **Only the dense system matters.** With exact arithmetic, two systems with the same variables,
the same matrix and the same constants have the same runs, whether they complete or not. Equations
that differ in the order of their terms and in terms with coefficient zero have the same matrix and
constants, as long as the variables keep their order. -/
theorem solve_eq_of_dense (symbols : s.symbols = s'.symbols) :
    (s.matrix = s'.matrix → s.constants = s'.constants →
      ∀ n, s.run n = s'.run n ∧ s.solve n = s'.solve n) ∧
    (List.Forall₂ Equation.Equivalent s.equations s'.equations →
      s.matrix = s'.matrix ∧ s.constants = s'.constants ∧
        ∀ n, s.run n = s'.run n ∧ s.solve n = s'.solve n) := by
  have same (matrix : s.matrix = s'.matrix) (constants : s.constants = s'.constants) (n : Nat) :
      s.run n = s'.run n ∧ s.solve n = s'.solve n := by
    have run : s'.run n = s.run n := by
      rw [(alike_of_dense symbols matrix constants).run_eq n, Run.rename_id]
    exact ⟨run.symm, by rw [solve, solve, run]⟩
  refine ⟨same, fun equivalent => ?_⟩
  have matrix := matrix_eq_of_equivalent symbols equivalent
  have constants := constants_eq_of_forall₂ (equivalent.imp fun _ _ h => h.constant_eq.symm)
  exact ⟨matrix, constants.symm, same matrix constants.symm⟩

/-- `4x + y = 5`, `x + 5y = 6` and `5z = 10`. -/
def sorted : LinearSystem Rat :=
  (ofEquations? [⟨[⟨"x", 4⟩, ⟨"y", 1⟩], 5, by decide⟩, ⟨[⟨"x", 1⟩, ⟨"y", 5⟩], 6, by decide⟩,
    ⟨[⟨"z", 5⟩], 10, by decide⟩]).get (by decide +kernel)

/-- `4x + y + 0z = 5`, `5y + x = 6` and `0x + 5z = 10`. -/
def shuffled : LinearSystem Rat :=
  (ofEquations? [⟨[⟨"x", 4⟩, ⟨"y", 1⟩, ⟨"z", 0⟩], 5, by decide⟩,
    ⟨[⟨"y", 5⟩, ⟨"x", 1⟩], 6, by decide⟩,
    ⟨[⟨"x", 0⟩, ⟨"z", 5⟩], 10, by decide⟩]).get (by decide +kernel)

theorem shuffled_solve_eq :
    sorted.symbols = shuffled.symbols ∧ sorted.matrix = shuffled.matrix ∧
    sorted.constants = shuffled.constants ∧
    List.Forall₂ Equation.Equivalent sorted.equations shuffled.equations ∧
    sorted.rows ≠ shuffled.rows ∧ ∀ n, sorted.solve n = shuffled.solve n := by
  have symbols : sorted.symbols = shuffled.symbols := by decide +kernel
  have equivalent : List.Forall₂ Equation.Equivalent sorted.equations shuffled.equations :=
    .cons ⟨rfl, by decide +kernel⟩ (.cons ⟨rfl, by decide +kernel⟩
      (.cons ⟨rfl, by decide +kernel⟩ .nil))
  obtain ⟨matrix, constants, _⟩ := (solve_eq_of_dense symbols).2 equivalent
  have runs := (solve_eq_of_dense symbols).1 matrix constants
  exact ⟨symbols, matrix, constants, equivalent, by decide +kernel, fun n => (runs n).2⟩

end LinearSystem

end Seidel
