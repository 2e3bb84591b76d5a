import Seidel.Proofs.Solver.Trajectory

/-!
# Systems that are solved alike

Of a system, a sweep uses only whether each equation can be solved for its own variable and what
it gives for it. Systems that agree in this have the same runs, except that their variables may
have other names (`Alike.run_eq`).
-/

namespace Seidel

variable {R : Type}

/-! ## Other names -/

section Rename

variable (f : String → String)

def SolverError.rename : SolverError → SolverError
  | .zeroDiagonal symbol equation sweep => .zeroDiagonal (f symbol) equation sweep
  | e => e

def Approximation.rename (a : Approximation R) : Approximation R :=
  ⟨a.symbols.map f, a.values⟩

def Snapshot.rename (x : Snapshot R) : Snapshot R :=
  ⟨x.iteration, x.approximation.rename f⟩

/-- The run with other names for the variables and the same values. -/
def Run.rename (r : Run R) : Run R where
  snapshots := r.snapshots.map (Snapshot.rename f)
  result := (r.result.map (Approximation.rename f)).mapError (SolverError.rename f)

@[simp] theorem SolverError.rename_id (e : SolverError) : e.rename id = e := by
  cases e <;> rfl

@[simp] theorem Approximation.rename_id (a : Approximation R) : a.rename id = a := by
  simp [rename]

@[simp] theorem Snapshot.rename_id (x : Snapshot R) : x.rename id = x := by
  simp [rename]

@[simp] theorem Run.rename_id (r : Run R) : r.rename id = r := by
  obtain ⟨snapshots, result⟩ := r
  have shown : snapshots.map (Snapshot.rename id) = snapshots := by
    simp [List.map_congr_left fun x _ => Snapshot.rename_id x]
  cases result <;> simp [rename, shown, Except.map, Except.mapError]

end Rename

namespace LinearSystem

variable [Scalar R] {f : String → String} {s s' : LinearSystem R}

theorem solve_eq_of_run {n : Nat} (h : s'.run n = (s.run n).rename f) :
    s'.solve n
      = ((s.solve n).map (List.map (Snapshot.rename f))).mapError (SolverError.rename f) := by
  rw [solve, solve, h]
  cases result : (s.run n).result <;> simp [Run.rename, result, Except.map, Except.mapError]

/-- From the same values, both systems give the same values to their variables in order; `f` gives
the names that the variables of the second have. -/
structure Alike (f : String → String) (s s' : LinearSystem R) : Prop where
  symbols_eq : s'.symbols = s.symbols.map f
  length_eq : s'.equations.length = s.equations.length
  zeroDiagonal_iff : s.IsSquare → ∀ i < s.symbols.length, s'.ZeroDiagonal i ↔ s.ZeroDiagonal i
  solved?_eq : s.IsSquare → ∀ i < s.symbols.length, s'.solved? i = s.solved? i

namespace Alike

theorem length_symbols (h : Alike f s s') : s'.symbols.length = s.symbols.length := by
  rw [h.symbols_eq, List.length_map]

theorem isSquare_iff (h : Alike f s s') : s'.IsSquare ↔ s.IsSquare := by
  rw [IsSquare, IsSquare, h.length_eq, h.length_symbols]

theorem advances (h : Alike f s s') (square : s.IsSquare) {old new : List R}
    (advances : s.Advances old new) : s'.Advances old new := by
  constructor
  · rw [advances.length_eq, h.length_symbols]
  · intro i hi
    have hi : i < s.symbols.length := h.length_symbols ▸ hi
    rw [h.solved?_eq square i hi]
    exact advances.solved i hi

theorem regular (h : Alike f s s') (square : s.IsSquare)
    (regular : ∀ i < s.symbols.length, ¬ s.ZeroDiagonal i) :
    ∀ i < s'.symbols.length, ¬ s'.ZeroDiagonal i := by
  intro i hi zero
  have hi : i < s.symbols.length := h.length_symbols ▸ hi
  exact regular i hi ((h.zeroDiagonal_iff square i hi).mp zero)

theorem singularAt (h : Alike f s s') (square : s.IsSquare) {p : Nat} {symbol : String}
    (first : s.SingularAt p symbol) : s'.SingularAt p (f symbol) where
  symbol_eq := by rw [h.symbols_eq, List.getElem?_map, first.symbol_eq, Option.map_some]
  zero := (h.zeroDiagonal_iff square p first.position_lt).mpr first.zero
  first := by
    intro i hi zero
    have hi' : i < s.symbols.length := Nat.lt_trans hi first.position_lt
    exact first.first i hi ((h.zeroDiagonal_iff square i hi').mp zero)

theorem iterate_eq (h : Alike f s s') (square : s.IsSquare)
    (regular : ∀ i < s.symbols.length, ¬ s.ZeroDiagonal i) (k : Nat) :
    s'.iterate k = s.iterate k := by
  induction k with
  | zero => rw [iterate_zero, iterate_zero, h.length_symbols]
  | succ k ih =>
    have next' := iterate_advances (h.isSquare_iff.mpr square) (h.regular square regular) k
    have next := h.advances square (iterate_advances square regular k)
    rw [ih] at next'
    exact next'.unique next

/-- Systems that are alike have the same runs, up to the names of their variables. -/
theorem run_eq (h : Alike f s s') (n : Nat) : s'.run n = (s.run n).rename f := by
  by_cases square : s.IsSquare
  · have square' := h.isSquare_iff.mpr square
    rcases s.regular_or_singularAt with regular | ⟨p, symbol, first⟩
    · have values := h.iterate_eq square regular
      have regular' := h.regular square regular
      rw [run_eq_iterate square (.inr regular), run_eq_iterate square' (.inr regular')]
      simp [Run.rename, Snapshot.rename, Approximation.rename, Except.map, Except.mapError, values,
        h.symbols_eq]
    · by_cases none : n = 0
      · rw [run_eq_iterate square (.inl none), run_eq_iterate square' (.inl none)]
        subst none
        simp [Run.rename, Approximation.rename, Except.map, Except.mapError, iterate_zero,
          h.symbols_eq]
      · rw [first.run_eq square none, (h.singularAt square first).run_eq square' none]
        rfl
  · rw [run_of_not_square square, run_of_not_square (mt h.isSquare_iff.mp square), h.length_eq,
      h.length_symbols]
    rfl

end Alike

omit [Scalar R] in
theorem constants_eq_of_forall₂
    (same : List.Forall₂ (fun e e' => e'.constant = e.constant) s.equations s'.equations) :
    s'.constants = s.constants := by
  rw [constants, constants, ← List.forall₂_eq_eq_eq, List.forall₂_map_left_iff,
    List.forall₂_map_right_iff]
  exact same.flip

/-- Systems with the same rows and constants are alike, whatever their variables are called. -/
theorem alike_of_rows (symbols : s'.symbols = s.symbols.map f) (rows : s'.rows = s.rows)
    (constants : s'.constants = s.constants) : Alike f s s' := by
  have length : s'.equations.length = s.equations.length := by
    rw [← length_constants, constants, length_constants]
  have square' (square : s.IsSquare) : s'.IsSquare := by
    rw [IsSquare, length, symbols, List.length_map]
    exact square
  refine ⟨symbols, length, fun square i hi => ?_, fun square i hi => ?_⟩
  all_goals
    have hi' : i < s'.symbols.length := by rwa [symbols, List.length_map]
    obtain ⟨e, symbol, row, he, hsymbol, hrow⟩ := exists_equation square hi
    obtain ⟨e', symbol', row', he', hsymbol', hrow'⟩ := exists_equation (square' square) hi'
    obtain rfl : row = row' := Option.some.inj (hrow.symm.trans (rows ▸ hrow'))
  · rw [zeroDiagonal_iff_row he hsymbol hrow, zeroDiagonal_iff_row he' hsymbol' hrow']
  · have constant : e'.constant = e.constant := by
      have same := congrArg (·[i]?) constants
      simpa [LinearSystem.constants, he, he'] using same
    funext value
    rw [solved?_eq_row he hsymbol hrow, solved?_eq_row he' hsymbol' hrow', constant]

end LinearSystem

end Seidel
