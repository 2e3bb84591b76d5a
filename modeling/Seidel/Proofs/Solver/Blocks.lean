import Seidel.Proofs.Solver.Trajectory
import Seidel.Proofs.System.Blocks

/-!
# Independent systems compose

Equations without common symbols do not affect each other: solving both lists together is solving
each of them, with the values of the second behind those of the first (`Beside.iterate_eq`). A zero
on a diagonal is met in the first list before it is met in the second.
-/

namespace Seidel

variable {R : Type} [Scalar R]

/-! ## Values side by side -/

namespace Solver

variable {old old' new new' : List R} {i j : Nat}

theorem valueOf_append_left (h : j < old.length) : valueOf (old ++ old') j = valueOf old j := by
  rw [valueOf, valueOf, List.getElem?_append_left h]

theorem valueOf_append_right (old old' : List R) (j : Nat) :
    valueOf (old ++ old') (old.length + j) = valueOf old' j := by
  rw [valueOf, valueOf, List.getElem?_append_right (Nat.le_add_right _ _), Nat.add_sub_cancel_left]

theorem mixed_append_left (same : new.length = old.length) (h : j < old.length) :
    mixed (old ++ old') (new ++ new') i j = mixed old new i j := by
  rw [mixed, mixed, valueOf_append_left h, valueOf_append_left (same ▸ h)]

theorem mixed_append_right (same : new.length = old.length) (old' new' : List R) (i j : Nat) :
    mixed (old ++ old') (new ++ new') (old.length + i) (old.length + j) = mixed old' new' i j := by
  have right := valueOf_append_right new new' j
  rw [same] at right
  rw [mixed, mixed, valueOf_append_right, right]
  simp only [Nat.add_lt_add_iff_left]

end Solver

namespace LinearSystem

namespace Beside

variable {first second s : LinearSystem R} {p : Nat} {symbol : String}

/-- One sweep of both is a sweep of each. -/
theorem advances (h : Beside first second s) (square : first.IsSquare)
    {old old' new new' : List R} (length : old.length = first.symbols.length)
    (left : first.Advances old new) (right : second.Advances old' new') :
    s.Advances (old ++ old') (new ++ new') := by
  have same : new.length = old.length := left.length_eq.trans length.symm
  constructor
  · rw [List.length_append, left.length_eq, right.length_eq, h.length_symbols]
  · intro i hi
    by_cases lt : i < first.symbols.length
    · rw [List.getElem?_append_left (left.length_eq ▸ lt), left.solved i lt,
        h.solved?_left square lt]
      apply solved?_congr
      intro j step
      exact (Solver.mixed_append_left same (length ▸ step.2.lt.2)).symm
    · obtain ⟨k, rfl⟩ := Nat.exists_eq_add_of_le (Nat.le_of_not_lt lt)
      have hk : k < second.symbols.length := by
        rw [h.length_symbols] at hi
        omega
      rw [h.solved?_right square, ← left.length_eq,
        List.getElem?_append_right (Nat.le_add_right _ _), Nat.add_sub_cancel_left,
        right.solved k hk]
      congr 1
      funext j
      rw [same]
      exact (Solver.mixed_append_right same old' new' k j).symm

theorem regular (h : Beside first second s) (square : first.IsSquare)
    (left : ∀ i < first.symbols.length, ¬ first.ZeroDiagonal i)
    (right : ∀ i < second.symbols.length, ¬ second.ZeroDiagonal i) :
    ∀ i < s.symbols.length, ¬ s.ZeroDiagonal i := by
  intro i hi
  by_cases lt : i < first.symbols.length
  · rw [h.zeroDiagonal_left square lt]
    exact left i lt
  · obtain ⟨k, rfl⟩ := Nat.exists_eq_add_of_le (Nat.le_of_not_lt lt)
    rw [h.zeroDiagonal_right square]
    apply right
    rw [h.length_symbols] at hi
    omega

theorem iterate_eq (h : Beside first second s) (square : first.IsSquare)
    (square' : second.IsSquare) (left : ∀ i < first.symbols.length, ¬ first.ZeroDiagonal i)
    (right : ∀ i < second.symbols.length, ¬ second.ZeroDiagonal i) (k : Nat) :
    s.iterate k = first.iterate k ++ second.iterate k := by
  induction k with
  | zero => rw [iterate_zero, iterate_zero, iterate_zero, h.length_symbols, List.replicate_add]
  | succ k ih =>
    have both := iterate_advances (h.isSquare square square') (h.regular square left right) k
    rw [ih] at both
    exact both.unique (h.advances square (length_iterate square left k)
      (iterate_advances square left k) (iterate_advances square' right k))

theorem singularAt_left (h : Beside first second s) (square : first.IsSquare)
    (singular : first.SingularAt p symbol) : s.SingularAt p symbol where
  symbol_eq := (h.symbols_left singular.position_lt).trans singular.symbol_eq
  zero := (h.zeroDiagonal_left square singular.position_lt).mpr singular.zero
  first := by
    intro i hi zero
    have lt := Nat.lt_trans hi singular.position_lt
    exact singular.first i hi ((h.zeroDiagonal_left square lt).mp zero)

theorem singularAt_right (h : Beside first second s) (square : first.IsSquare)
    (left : ∀ i < first.symbols.length, ¬ first.ZeroDiagonal i)
    (singular : second.SingularAt p symbol) :
    s.SingularAt (first.symbols.length + p) symbol where
  symbol_eq := (h.symbols_right p).trans singular.symbol_eq
  zero := (h.zeroDiagonal_right square p).mpr singular.zero
  first := by
    intro i hi zero
    by_cases lt : i < first.symbols.length
    · exact left i lt ((h.zeroDiagonal_left square lt).mp zero)
    · obtain ⟨k, rfl⟩ := Nat.exists_eq_add_of_le (Nat.le_of_not_lt lt)
      exact singular.first k (by omega) ((h.zeroDiagonal_right square k).mp zero)

/-- Where both solves complete, each snapshot of the joint solve is made of two. -/
theorem exists_joint (h : Beside first second s) (square : first.IsSquare)
    (square' : second.IsSquare) {n : Nat}
    (left : n = 0 ∨ ∀ i < first.symbols.length, ¬ first.ZeroDiagonal i)
    (right : n = 0 ∨ ∀ i < second.symbols.length, ¬ second.ZeroDiagonal i)
    {xs ys : List (Snapshot R)} (hx : first.solve n = .ok xs) (hy : second.solve n = .ok ys) :
    ∃ joint, s.solve n = .ok joint ∧ joint.length = n ∧
      ∀ k < n, ∃ x y, xs[k]? = some x ∧ ys[k]? = some y ∧
        joint[k]? = some ⟨k + 1, ⟨s.symbols,
          x.approximation.values ++ y.approximation.values⟩⟩ := by
  have both : n = 0 ∨ ∀ i < s.symbols.length, ¬ s.ZeroDiagonal i := by
    rcases left with none | left
    · exact .inl none
    · rcases right with none | right
      · exact .inl none
      · exact .inr (h.regular square left right)
  rw [solve_eq_iterate square left] at hx
  rw [solve_eq_iterate square' right] at hy
  cases hx
  cases hy
  refine ⟨_, solve_eq_iterate (h.isSquare square square') both, by simp, ?_⟩
  intro k hk
  have positive : n ≠ 0 := Nat.ne_zero_of_lt hk
  have values := h.iterate_eq square square' (left.resolve_left positive)
    (right.resolve_left positive) (k + 1)
  refine ⟨⟨k + 1, ⟨first.symbols, first.iterate (k + 1)⟩⟩,
    ⟨k + 1, ⟨second.symbols, second.iterate (k + 1)⟩⟩, ?_, ?_, ?_⟩
  · simp [hk]
  · simp [hk]
  · simp [hk, values]

end Beside

/-- **Independent systems compose.** Two lists of equations without common symbols can be assembled
together if their symbols can be numbered: the variables of the second follow those of the first,
the rows of the first stay as they are, those of the second are moved up. If both are square, a
solve of all fails as that of the first does, or else as that of the second does with the number of
the equation moved up, or else each of its snapshots shows the values of the first and then those
of the second. -/
theorem solve_independent (equations equations' : List (Equation R))
    (independent : Independent equations equations')
    (few : ((equations ++ equations').flatMap Equation.symbols).toFinset.card ≤ 2 ^ 32 - 1) :
    ∃ first second s, ofEquations? equations = some first ∧
      ofEquations? equations' = some second ∧ ofEquations? (equations ++ equations') = some s ∧
      s.symbols = first.symbols ++ second.symbols ∧
      (∃ later, s.rows = first.rows ++ later ∧
        List.Forall₂ (Row.Shifted first.symbols.length) second.rows later) ∧
      (first.IsSquare → second.IsSquare → ∀ n,
        (∀ e, first.solve n = .error e → ∃ symbol i sweep,
          e = .zeroDiagonal symbol i sweep ∧ s.solve n = .error (.zeroDiagonal symbol i sweep)) ∧
        (∀ xs e, first.solve n = .ok xs → second.solve n = .error e → ∃ symbol i sweep,
          e = .zeroDiagonal symbol i sweep ∧
          s.solve n = .error (.zeroDiagonal symbol (first.symbols.length + i) sweep)) ∧
        ∀ xs ys, first.solve n = .ok xs → second.solve n = .ok ys → ∃ joint,
          s.solve n = .ok joint ∧ joint.length = n ∧
          ∀ k < n, ∃ x y, xs[k]? = some x ∧ ys[k]? = some y ∧
            joint[k]? = some ⟨k + 1, ⟨s.symbols,
              x.approximation.values ++ y.approximation.values⟩⟩) := by
  have order := canonicalOrder_symbolsOf (equations ++ equations')
  have numbered : (symbolsOf (equations ++ equations')).length ≤ Variable.limit := by
    rw [order.length_eq]
    exact few
  have parts := congrArg List.length (symbolsOf_append independent)
  rw [List.length_append] at parts
  have left : (symbolsOf equations).length ≤ Variable.limit := by omega
  have right : (symbolsOf equations').length ≤ Variable.limit := by omega
  obtain ⟨first, assembled, rfl⟩ := exists_ofEquations? left
  obtain ⟨second, assembled', rfl⟩ := exists_ofEquations? right
  obtain ⟨s, assembled'', together⟩ := exists_ofEquations? numbered
  have h := beside_of_independent independent together
  refine ⟨first, second, s, assembled, assembled', assembled'', h.symbols_eq, h.exists_rows, ?_⟩
  intro square square' n
  rcases first.completes_or_singularAt n with left | ⟨positive, p, symbol, singular⟩
  · have completes := solve_eq_iterate square left
    rcases second.completes_or_singularAt n with right | ⟨positive, p, symbol, singular⟩
    · have completes' := solve_eq_iterate square' right
      refine ⟨?_, ?_, fun xs ys hx hy => h.exists_joint square square' left right hx hy⟩
      · intro e failed
        cases completes.symm.trans failed
      · intro _ e _ failed
        cases completes'.symm.trans failed
    · have fails' := singular.solve_eq square' positive
      have shown := (h.singularAt_right square (left.resolve_left positive) singular).solve_eq
        (h.isSquare square square') positive
      refine ⟨?_, ?_, ?_⟩
      · intro e failed
        cases completes.symm.trans failed
      · intro _ e _ failed
        cases fails'.symm.trans failed
        exact ⟨symbol, p, 1, rfl, shown⟩
      · intro _ _ _ done
        cases fails'.symm.trans done
  · have fails := singular.solve_eq square positive
    have shown := (h.singularAt_left square singular).solve_eq (h.isSquare square square') positive
    refine ⟨?_, ?_, ?_⟩
    · intro e failed
      cases fails.symm.trans failed
      exact ⟨symbol, p, 1, rfl, shown⟩
    · intro _ _ done
      cases fails.symm.trans done
    · intro _ _ done
      cases fails.symm.trans done

/-- `5x + y = 3` and `x + 4y = 6`. -/
def upperPair : List (Equation Float) :=
  [⟨[⟨"x", .ofBits 0x4014000000000000⟩, ⟨"y", .ofBits 0x3FF0000000000000⟩],
      .ofBits 0x4008000000000000, by decide⟩,
    ⟨[⟨"x", .ofBits 0x3FF0000000000000⟩, ⟨"y", .ofBits 0x4010000000000000⟩],
      .ofBits 0x4018000000000000, by decide⟩]

/-- `z = 1` and `2w - z = 5`. -/
def lowerPair : List (Equation Float) :=
  [⟨[⟨"z", .ofBits 0x3FF0000000000000⟩], .ofBits 0x3FF0000000000000, by decide⟩,
    ⟨[⟨"w", .ofBits 0x4000000000000000⟩, ⟨"z", .ofBits 0xBFF0000000000000⟩],
      .ofBits 0x4014000000000000, by decide⟩]

/-- `u + v = 1` and `u = 2`, where no equation determines `v`. -/
def brokenPair : List (Equation Float) :=
  [⟨[⟨"u", .ofBits 0x3FF0000000000000⟩, ⟨"v", .ofBits 0x3FF0000000000000⟩],
      .ofBits 0x3FF0000000000000, by decide⟩,
    ⟨[⟨"u", .ofBits 0x3FF0000000000000⟩], .ofBits 0x4000000000000000, by decide⟩]

/-- Two pairs that can be solved can be solved together. The second equation of the broken pair is
the fourth of the joint system. -/
theorem pairs_solve_independent :
    Independent upperPair lowerPair ∧ Independent upperPair brokenPair ∧
    (∃ first second s joint, ofEquations? upperPair = some first ∧
      ofEquations? lowerPair = some second ∧ ofEquations? (upperPair ++ lowerPair) = some s ∧
      s.symbols = first.symbols ++ second.symbols ∧ s.solve 2 = .ok joint ∧ joint.length = 2) ∧
    ∃ s, ofEquations? (upperPair ++ brokenPair) = some s ∧
      s.solve 1 = .error (.zeroDiagonal "v" 3 1) := by
  have independent : Independent upperPair lowerPair := by decide
  have independent' : Independent upperPair brokenPair := by decide
  have upper : ∀ s ∈ ofEquations? upperPair, s.IsSquare ∧ s.symbols.length = 2 ∧
      (∀ i < s.symbols.length, ¬ s.ZeroDiagonal i) := by decide +kernel
  have lower : ∀ s ∈ ofEquations? lowerPair, s.IsSquare ∧
      (∀ i < s.symbols.length, ¬ s.ZeroDiagonal i) := by decide +kernel
  have broken : ∀ s ∈ ofEquations? brokenPair, s.IsSquare ∧
      s.solve 1 = .error (.zeroDiagonal "v" 1 1) := by decide +kernel
  refine ⟨independent, independent', ?_, ?_⟩
  · obtain ⟨first, second, s, assembled, assembled', assembled'', symbols, _, solves⟩ :=
      solve_independent upperPair lowerPair independent (by decide +kernel)
    obtain ⟨square, _, regular⟩ := upper first assembled
    obtain ⟨square', regular'⟩ := lower second assembled'
    obtain ⟨joint, solved, length, _⟩ := (solves square square' 2).2.2 _ _
      (solve_eq_iterate square (.inr regular)) (solve_eq_iterate square' (.inr regular'))
    exact ⟨first, second, s, joint, assembled, assembled', assembled'', symbols, solved, length⟩
  · obtain ⟨first, second, s, assembled, assembled', assembled'', _, _, solves⟩ :=
      solve_independent upperPair brokenPair independent' (by decide +kernel)
    obtain ⟨square, length, regular⟩ := upper first assembled
    obtain ⟨square', fails⟩ := broken second assembled'
    obtain ⟨_, _, _, same, failed⟩ := (solves square square' 1).2.1 _ _
      (solve_eq_iterate square (.inr regular)) fails
    cases same
    rw [length] at failed
    exact ⟨s, assembled'', failed⟩

end LinearSystem

end Seidel
