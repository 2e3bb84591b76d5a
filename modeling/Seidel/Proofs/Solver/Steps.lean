import Seidel.Proofs.System.Rows
import Seidel.Solve

/-!
# One update, one sweep

What the solver computes, said without the failures that cannot happen: on a square system with a
value for each variable, an update fails only on a zero diagonal (`next_eq`). A sweep is a run of
updates over the positions in order, so what each update preserves, a sweep preserves
(`updateAll_induction`, `sweep_induction`).
-/

namespace Seidel

namespace Solver

variable {R : Type}

/-- One equation and one value for each variable. -/
structure Ready (s : Solver R) : Prop where
  square : s.system.IsSquare
  values_length : s.approximation.values.length = s.system.symbols.length

variable [Scalar R]

theorem start_eq {system : LinearSystem R} {s : Solver R} (h : start system = .ok s) :
    system.IsSquare ∧ s = ⟨system, .zeros system.symbols, 0⟩ := by
  unfold start at h
  split at h
  · cases h
    exact ⟨by assumption, rfl⟩
  · cases h

theorem start_ready {system : LinearSystem R} {s : Solver R} (h : start system = .ok s) :
    s.Ready := by
  obtain ⟨square, rfl⟩ := start_eq h
  exact ⟨square, List.length_replicate⟩

/-! ## One update -/

/-- The terms of a row that are not at a position. -/
def otherTerms (row : Row R) (position : Nat) : Row R :=
  row.filter fun term => term.1.index != position

theorem others?_eq {row : Row R} {position : Nat} {values : List R}
    (bound : ∀ p ∈ row, p.1.index < values.length) :
    others? row position values
      = some (Scalar.sum ((otherTerms row position).map fun p =>
          p.2 * (values[p.1.index]?).getD Scalar.zero)) := by
  have products (terms : Row R) (bound : ∀ p ∈ terms, p.1.index < values.length) :
      terms.mapM (product? values)
        = some (terms.map fun p => p.2 * (values[p.1.index]?).getD Scalar.zero) := by
    apply mapM_eq_some_iff.mpr
    rw [List.forall₂_map_right_iff, List.forall₂_same]
    intro p hp
    simp [product?, bound p hp]
  have bound' : ∀ p ∈ otherTerms row position, p.1.index < values.length :=
    fun p hp => bound p (List.mem_of_mem_filter hp)
  unfold others?
  change Option.map Scalar.sum ((otherTerms row position).mapM (product? values)) = _
  rw [products _ bound', Option.map_some]

/-- **One update.** Equation `i` is solved for variable `i`, unless its coefficient there is
zero. -/
theorem next_eq {s : Solver R} (ready : s.Ready) {i : Nat} {symbol : String} {row : Row R}
    {e : Equation R} (hsymbol : s.system.symbols[i]? = some symbol)
    (hrow : s.system.rows[i]? = some row) (he : s.system.equations[i]? = some e) :
    s.next i =
      if Scalar.isZero (row.coefficient i) then
        .error (.zeroDiagonal symbol i (s.sweeps + 1))
      else .ok ((e.constant - Scalar.sum ((otherTerms row i).map fun p =>
        p.2 * (s.approximation.values[p.1.index]?).getD Scalar.zero)) / row.coefficient i) := by
  have bound : ∀ p ∈ row, p.1.index < s.approximation.values.length := by
    rw [ready.values_length]
    exact Row.position_lt s.system.inverse (s.system.row_match he hrow)
  simp only [next, hsymbol, hrow, LinearSystem.constant?, he, Option.map_some, others?_eq bound]

omit [Scalar R] in
theorem Ready.store {s : Solver R} (ready : s.Ready) (i : Nat) (value : R) :
    (s.store i value).Ready :=
  ⟨ready.square, (List.length_set ..).trans ready.values_length⟩

/-! ## One sweep -/

/-- What every update of a sweep preserves holds at its end. -/
theorem updateAll_induction {n : Nat} (motive : Nat → Solver R → Prop)
    (step : ∀ i s, i < n → motive i s →
      ∃ value, s.next i = .ok value ∧ motive (i + 1) (s.store i value))
    {count first : Nat} {s : Solver R} (h : motive first s) (le : first + count ≤ n) :
    ∃ s', s.updateAll (List.range' first count) = (.ok (), s') ∧ motive (first + count) s' := by
  induction count generalizing first s with
  | zero => exact ⟨s, rfl, h⟩
  | succ count ih =>
    obtain ⟨value, hvalue, h'⟩ := step first s (by omega) h
    obtain ⟨s', hs', h''⟩ := ih h' (by omega)
    refine ⟨s', ?_, by rwa [Nat.add_right_comm] at h''⟩
    simp only [List.range'_succ, updateAll, update, hvalue]
    exact hs'

/-- What every update preserves holds after a sweep, which succeeds. -/
theorem sweep_induction {s : Solver R} (motive : Nat → Solver R → Prop)
    (step : ∀ i t, i < s.system.symbols.length → motive i t →
      ∃ value, t.next i = .ok value ∧ motive (i + 1) (t.store i value))
    (h : motive 0 s) :
    ∃ t, motive s.system.symbols.length t ∧
      s.sweep = (.ok ⟨t.sweeps + 1, t.approximation⟩, { t with sweeps := t.sweeps + 1 }) := by
  obtain ⟨t, ht, h'⟩ := updateAll_induction motive step h (Nat.le_of_eq (Nat.zero_add _))
  refine ⟨t, by rwa [Nat.zero_add] at h', ?_⟩
  rw [← List.range_eq_range'] at ht
  simp only [sweep, ht]

theorem sweep_ok {s t : Solver R} {snapshot : Snapshot R} (h : s.sweep = (.ok snapshot, t)) :
    snapshot = ⟨t.sweeps, t.approximation⟩ := by
  unfold sweep at h
  split at h
  · cases h
    rfl
  · cases h

/-! ## Runs -/

/-- The state after some sweeps. -/
def after (s : Solver R) : Nat → Solver R
  | 0 => s
  | k + 1 => after s.sweep.2 k

theorem after_succ (s : Solver R) (k : Nat) : s.after (k + 1) = (s.after k).sweep.2 := by
  induction k generalizing s with
  | zero => rfl
  | succ k ih => exact ih s.sweep.2

/-- A run in which every sweep succeeds shows the state after each of them. -/
theorem run_eq {s : Solver R} {n : Nat}
    (ok : ∀ k < n, ∃ snapshot, (s.after k).sweep.1 = .ok snapshot) :
    s.run n = ⟨(List.range n).map fun k => ⟨(s.after (k + 1)).sweeps,
      (s.after (k + 1)).approximation⟩, .ok (s.after n).approximation⟩ := by
  induction n generalizing s with
  | zero => rfl
  | succ n ih =>
    obtain ⟨snapshot, hs⟩ := ok 0 (by omega)
    have hs : s.sweep = (.ok snapshot, s.sweep.2) := Prod.ext hs rfl
    have rest := ih (s := s.sweep.2) fun k hk => ok (k + 1) (by omega)
    rw [run, hs]
    simp only [rest, sweep_ok hs, List.range_succ_eq_map, List.map_cons, List.map_map]
    rfl

end Solver

end Seidel
