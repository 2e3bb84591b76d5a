import Seidel.Proofs.Binary64.Agreement
import Seidel.Proofs.Equation.RoundTrip
import Seidel.Proofs.Solver.Trajectory

/-!
# Systems that compare as equal

Systems whose equations are equal as floats compare have the same variables, and they refuse the
same positions. What the others give agrees where the values they read agree (`solved?_agree`), so
every sweep takes values that agree to values that agree (`Advances.agree`): zeros of different
signs never become different numbers, not even where values overflow or are no numbers any more.
So such systems are solved to the same end (`solve_agrees`).
-/

namespace Seidel

open Binary64

theorem sum_agree {xs ys : List Float} (h : List.Forall₂ Agree xs ys) :
    Agree (Scalar.sum xs) (Scalar.sum ys) :=
  List.rel_foldl (fun _ _ sums _ _ next => sums.add next) (agree_of_eq rfl) h

/-! ## Equations -/

namespace Equation.Same

variable {e e' : Equation Float}

theorem symbols_eq (h : e.Same e') : e.symbols = e'.symbols := by
  rw [symbols, symbols, ← List.forall₂_eq_eq_eq, List.forall₂_map_left_iff,
    List.forall₂_map_right_iff]
  exact h.1.imp fun _ _ same => same.1

/-- A variable is missing in both equations, or it has coefficients that compare as equal. -/
theorem coefficient?_rel (h : e.Same e') (symbol : String) :
    Option.Rel (fun c c' => (c == c') = true) (e.coefficient? symbol) (e'.coefficient? symbol) := by
  have terms := h.1
  unfold coefficient?
  generalize e.terms = ts at terms ⊢
  generalize e'.terms = ts' at terms ⊢
  induction terms with
  | nil => exact .none
  | @cons t t' _ _ same _ ih =>
    rw [List.find?_cons, List.find?_cons, ← same.1]
    cases t.symbol == symbol with
    | true => exact .some same.2
    | false => exact ih

theorem hasPivot_eq (h : e.Same e') (symbol : String) : e.hasPivot symbol = e'.hasPivot symbol := by
  have related := h.coefficient?_rel symbol
  unfold hasPivot
  generalize e.coefficient? symbol = c at related ⊢
  generalize e'.coefficient? symbol = c' at related ⊢
  cases related with
  | none => rfl
  | some same =>
    rcases (Float.beq_iff_ne_nan_and_eq.mp same).2.2 with rfl | ⟨rfl, rfl⟩ | ⟨rfl, rfl⟩
    · rfl
    · decide
    · decide

/-- A coefficient other than zero is the same in both equations. -/
theorem pivot_eq (h : e.Same e') {symbol : String} (pivot : e.hasPivot symbol = true) :
    e.coefficient? symbol = e'.coefficient? symbol := by
  have related := h.coefficient?_rel symbol
  have pivot' := (h.hasPivot_eq symbol).symm.trans pivot
  unfold hasPivot at pivot'
  generalize e.coefficient? symbol = c at related ⊢
  generalize e'.coefficient? symbol = c' at related pivot' ⊢
  cases related with
  | none => rfl
  | some same => exact congrArg some (eq_of_beq same (by simpa [bne] using pivot'))

/-- The terms on other variables, each with a value for its variable. -/
theorem products_agree (h : e.Same e') (symbol : String) {value value' : String → Float}
    (agree : ∀ other, Agree (value other) (value' other)) :
    List.Forall₂ Agree ((e.others symbol).map fun t => t.coefficient * value t.symbol)
      ((e'.others symbol).map fun t => t.coefficient * value' t.symbol) := by
  have others : List.Forall₂ Term.Same (e.others symbol) (e'.others symbol) := by
    refine List.rel_filter (fun t t' same => ?_) h.1
    change (t.symbol != symbol) = true ↔ (t'.symbol != symbol) = true
    rw [same.1]
  refine List.rel_map (fun t t' same => ?_) others
  rw [same.1]
  exact Agree.mul (.inl same.2) (agree t'.symbol)

end Equation.Same

theorem symbolsOf_eq_of_same {es es' : List (Equation Float)}
    (same : List.Forall₂ Equation.Same es es') : symbolsOf es = symbolsOf es' := by
  have symbols : es.map Equation.symbols = es'.map Equation.symbols := by
    rw [← List.forall₂_eq_eq_eq, List.forall₂_map_left_iff, List.forall₂_map_right_iff]
    exact same.imp fun _ _ h => h.symbols_eq
  rw [symbolsOf, symbolsOf, List.flatMap_def, List.flatMap_def, symbols]

/-! ## One equation of a system -/

namespace LinearSystem

variable {s s' : LinearSystem Float}

section Same

variable (same : List.Forall₂ Equation.Same s.equations s'.equations)

include same

theorem symbols_eq_of_same : s.symbols = s'.symbols := by
  rw [s.symbols_eq, s'.symbols_eq, symbolsOf_eq_of_same same]

theorem isSquare_iff_of_same : s.IsSquare ↔ s'.IsSquare := by
  rw [IsSquare, IsSquare, same.length_eq, symbols_eq_of_same same]

theorem exists_same {i : Nat} {e : Equation Float} (he : s.equations[i]? = some e) :
    ∃ e', s'.equations[i]? = some e' ∧ e.Same e' := by
  obtain ⟨hi, rfl⟩ := List.getElem?_eq_some_iff.mp he
  have hi' : i < s'.equations.length := same.length_eq ▸ hi
  exact ⟨_, List.getElem?_eq_getElem hi', same.get hi hi'⟩

theorem zeroDiagonal_iff_of_same (square : s.IsSquare) {i : Nat} (hi : i < s.symbols.length) :
    s.ZeroDiagonal i ↔ s'.ZeroDiagonal i := by
  obtain ⟨e, symbol, _, he, hsymbol, _⟩ := exists_equation square hi
  obtain ⟨e', he', equal⟩ := exists_same same he
  have hsymbol' := hsymbol
  rw [symbols_eq_of_same same] at hsymbol'
  rw [zeroDiagonal_iff he hsymbol, zeroDiagonal_iff he' hsymbol', equal.hasPivot_eq symbol]

/-- From values that agree, equation `i` gives values that agree. -/
theorem solved?_agree (square : s.IsSquare) {i : Nat} (hi : i < s.symbols.length)
    (regular : ¬ s.ZeroDiagonal i) {value value' : Nat → Float}
    (agree : ∀ j, Agree (value j) (value' j)) :
    ∃ x x', s.solved? i value = some x ∧ s'.solved? i value' = some x' ∧ Agree x x' := by
  obtain ⟨e, symbol, _, he, hsymbol, _⟩ := exists_equation square hi
  obtain ⟨e', he', equal⟩ := exists_same same he
  have pivot : e.hasPivot symbol = true := by
    rwa [zeroDiagonal_iff he hsymbol, Bool.not_eq_false] at regular
  have hsymbol' : s'.symbols[i]? = some symbol := symbols_eq_of_same same ▸ hsymbol
  have products := equal.products_agree symbol fun other => agree (s.symbols.idxOf other)
  have difference := Agree.sub (.inl equal.2) (sum_agree products)
  refine ⟨_, _, ?_, ?_, difference.div ((e.coefficient? symbol).getD Scalar.zero)⟩
  · simp only [solved?, he, hsymbol]
  · simp only [solved?, he', hsymbol', symbols_eq_of_same same, equal.pivot_eq pivot]

end Same

end LinearSystem

/-! ## Sweeps -/

namespace Solver

theorem valueOf_agree {xs ys : List Float} (h : List.Forall₂ Agree xs ys) (j : Nat) :
    Agree (valueOf xs j) (valueOf ys j) := by
  unfold valueOf
  by_cases hj : j < xs.length
  · have hj' : j < ys.length := h.length_eq ▸ hj
    rw [List.getElem?_eq_getElem hj, List.getElem?_eq_getElem hj']
    exact h.get hj hj'
  · rw [List.getElem?_eq_none (Nat.le_of_not_lt hj),
      List.getElem?_eq_none (h.length_eq ▸ Nat.le_of_not_lt hj)]
    exact agree_of_eq rfl

theorem mixed_agree {old old' new new' : List Float} {i : Nat}
    (before : List.Forall₂ Agree old old')
    (earlier : ∀ j < i, Agree (valueOf new j) (valueOf new' j)) (j : Nat) :
    Agree (mixed old new i j) (mixed old' new' i j) := by
  unfold mixed
  split
  · rename_i lt
    exact earlier j lt
  · exact valueOf_agree before j

end Solver

/-- The same sweep of the same variables, with values that agree. -/
structure Snapshot.Agrees (x x' : Snapshot Float) : Prop where
  iteration_eq : x.iteration = x'.iteration
  symbols_eq : x.approximation.symbols = x'.approximation.symbols
  values_agree : List.Forall₂ Agree x.approximation.values x'.approximation.values

/-- The same error, or as many snapshots that agree one by one. -/
def EndsAlike : Except SolverError (List (Snapshot Float)) →
    Except SolverError (List (Snapshot Float)) → Prop
  | .ok xs, .ok xs' => List.Forall₂ Snapshot.Agrees xs xs'
  | .error e, .error e' => e = e'
  | _, _ => False

namespace LinearSystem

variable {s s' : LinearSystem Float} (same : List.Forall₂ Equation.Same s.equations s'.equations)

include same

/-- **One sweep.** Values that agree are taken to values that agree. What position `i` reads agrees
because all positions before it do. -/
theorem Advances.agree (square : s.IsSquare) (regular : ∀ i < s.symbols.length, ¬ s.ZeroDiagonal i)
    {old new old' new' : List Float} (advances : s.Advances old new)
    (advances' : s'.Advances old' new') (agree : List.Forall₂ Agree old old') :
    List.Forall₂ Agree new new' := by
  have symbols := symbols_eq_of_same same
  have length : new.length = new'.length := by
    rw [advances.length_eq, advances'.length_eq, symbols]
  have pointwise (i : Nat) : i < s.symbols.length →
      ∃ x x', new[i]? = some x ∧ new'[i]? = some x' ∧ Agree x x' := by
    induction i using Nat.strongRecOn with
    | ind i ih =>
      intro hi
      have earlier (j : Nat) (hj : j < i) :
          Agree (Solver.valueOf new j) (Solver.valueOf new' j) := by
        obtain ⟨x, x', hx, hx', agree⟩ := ih j hj (Nat.lt_trans hj hi)
        simpa [Solver.valueOf, hx, hx'] using agree
      have read := Solver.mixed_agree agree earlier
      rw [advances.solved i hi, advances'.solved i (symbols ▸ hi)]
      exact solved?_agree same square hi (regular i hi) read
  refine List.forall₂_of_length_eq_of_get length fun i hi hi' => ?_
  obtain ⟨x, x', hx, hx', agree⟩ := pointwise i (advances.length_eq ▸ hi)
  obtain ⟨_, rfl⟩ := List.getElem?_eq_some_iff.mp hx
  obtain ⟨_, rfl⟩ := List.getElem?_eq_some_iff.mp hx'
  exact agree

theorem regular_of_same (square : s.IsSquare)
    (regular : ∀ i < s.symbols.length, ¬ s.ZeroDiagonal i) :
    ∀ i < s'.symbols.length, ¬ s'.ZeroDiagonal i := by
  intro i hi zero
  rw [← symbols_eq_of_same same] at hi
  exact regular i hi ((zeroDiagonal_iff_of_same same square hi).mpr zero)

theorem singularAt_of_same (square : s.IsSquare) {p : Nat} {symbol : String}
    (h : s.SingularAt p symbol) : s'.SingularAt p symbol where
  symbol_eq := symbols_eq_of_same same ▸ h.symbol_eq
  zero := (zeroDiagonal_iff_of_same same square h.position_lt).mp h.zero
  first := fun i hi zero => h.first i hi
    ((zeroDiagonal_iff_of_same same square (Nat.lt_trans hi h.position_lt)).mpr zero)

/-- The values agree after every sweep. -/
theorem iterate_agree (square : s.IsSquare)
    (regular : ∀ i < s.symbols.length, ¬ s.ZeroDiagonal i) (k : Nat) :
    List.Forall₂ Agree (s.iterate k) (s'.iterate k) := by
  have square' := (isSquare_iff_of_same same).mp square
  have regular' := regular_of_same same square regular
  induction k with
  | zero =>
    rw [iterate_zero, iterate_zero, symbols_eq_of_same same, List.forall₂_same]
    exact fun _ _ => agree_of_eq rfl
  | succ k ih =>
    exact Advances.agree same square regular (iterate_advances square regular k)
      (iterate_advances square' regular' k) ih

/-- Systems with equal equations are solved to the same end. -/
theorem solve_agrees (n : Nat) : EndsAlike (s.solve n) (s'.solve n) := by
  have symbols := symbols_eq_of_same same
  by_cases square : s.IsSquare
  · have square' := (isSquare_iff_of_same same).mp square
    rcases s.completes_or_singularAt n with regular | ⟨positive, p, symbol, singular⟩
    · have regular' := regular.imp_right (regular_of_same same square)
      rw [solve_eq_iterate square regular, solve_eq_iterate square' regular']
      change List.Forall₂ _ _ _
      rw [List.forall₂_map_left_iff, List.forall₂_map_right_iff, List.forall₂_same]
      intro k hk
      refine ⟨rfl, symbols, iterate_agree same square (regular.resolve_left ?_) (k + 1)⟩
      exact Nat.ne_zero_of_lt (List.mem_range.mp hk)
    · rw [singular.solve_eq square positive,
        (singularAt_of_same same square singular).solve_eq square' positive]
      rfl
  · have square' := mt (isSquare_iff_of_same same).mpr square
    rw [solve, solve, run_of_not_square square, run_of_not_square square', same.length_eq, symbols]
    rfl

end LinearSystem

end Seidel
