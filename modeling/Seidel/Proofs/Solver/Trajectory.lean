import Seidel.Proofs.Solver.Outcome

/-!
# Sweep after sweep

Where no diagonal is zero, a run is a sequence of lists of values. The equations alone decide what
follows on a list (`Advances`, `Advances.unique`), and a run shows the lists in order
(`run_eq_iterate`). So two runs are compared by comparing what their systems make of the same
values, without going through single updates again.
-/

namespace Seidel

namespace LinearSystem

variable {R : Type} [Scalar R] {s : LinearSystem R}

/-- The values `new` are those after one sweep from the values `old`. -/
structure Advances (s : LinearSystem R) (old new : List R) : Prop where
  length_eq : new.length = s.symbols.length
  solved : ∀ i < s.symbols.length, new[i]? = s.solved? i (Solver.mixed old new i)

theorem Advances.unique {old new new' : List R} (h : s.Advances old new)
    (h' : s.Advances old new') : new = new' := by
  apply Solver.solved_unique (h.length_eq.trans h'.length_eq.symm)
  · intro i hi
    exact h.solved i (h.length_eq ▸ hi)
  · intro i hi
    exact h'.solved i (h.length_eq ▸ hi)

end LinearSystem

namespace Solver

variable {R : Type} [Scalar R] {s : Solver R}

/-! ## From any values -/

/-- The values after some sweeps. -/
def valuesAfter (s : Solver R) (k : Nat) : List R :=
  (s.after k).approximation.values

theorem sweep_advances (ready : s.Ready)
    (regular : ∀ i < s.system.symbols.length, ¬ s.system.ZeroDiagonal i) :
    ∃ new, s.system.Advances s.approximation.values new ∧
      s.sweep = (.ok ⟨s.sweeps + 1, ⟨s.approximation.symbols, new⟩⟩,
        ⟨s.system, ⟨s.approximation.symbols, new⟩, s.sweeps + 1⟩) := by
  obtain ⟨t, updated, _, sweep⟩ := sweep_regular ready regular
  have advances : s.system.Advances s.approximation.values t.approximation.values :=
    ⟨updated.length_eq.trans ready.values_length, updated.new⟩
  refine ⟨t.approximation.values, advances, ?_⟩
  rw [sweep, ← updated.symbols_eq, ← updated.system_eq]

theorem after_eq (ready : s.Ready)
    (regular : ∀ i < s.system.symbols.length, ¬ s.system.ZeroDiagonal i) (k : Nat) :
    s.after k = ⟨s.system, ⟨s.approximation.symbols, s.valuesAfter k⟩, s.sweeps + k⟩ ∧
      (s.after k).Ready := by
  induction k with
  | zero => exact ⟨rfl, ready⟩
  | succ k ih =>
    obtain ⟨eq, ready'⟩ := ih
    obtain ⟨new, advances, sweep⟩ := sweep_advances ready' (by rwa [eq])
    rw [valuesAfter, after_succ, sweep, eq]
    rw [eq] at advances
    exact ⟨rfl, ready.square, advances.length_eq⟩

theorem valuesAfter_advances (ready : s.Ready)
    (regular : ∀ i < s.system.symbols.length, ¬ s.system.ZeroDiagonal i) (k : Nat) :
    s.system.Advances (s.valuesAfter k) (s.valuesAfter (k + 1)) := by
  obtain ⟨eq, ready'⟩ := after_eq ready regular k
  obtain ⟨new, advances, sweep⟩ := sweep_advances ready' (by rwa [eq])
  rw [valuesAfter.eq_def s (k + 1), after_succ, sweep]
  rwa [eq] at advances

theorem run_eq_valuesAfter (ready : s.Ready) {n : Nat}
    (regular : n = 0 ∨ ∀ i < s.system.symbols.length, ¬ s.system.ZeroDiagonal i) :
    s.run n = ⟨(List.range n).map fun k =>
        ⟨s.sweeps + (k + 1), ⟨s.approximation.symbols, s.valuesAfter (k + 1)⟩⟩,
      .ok ⟨s.approximation.symbols, s.valuesAfter n⟩⟩ := by
  rcases regular with rfl | regular
  · rfl
  · have states := fun k => (after_eq ready regular k).1
    have completes : ∀ k < n, ∃ snapshot, (s.after k).sweep.1 = .ok snapshot := by
      intro k _
      obtain ⟨eq, ready'⟩ := after_eq ready regular k
      obtain ⟨_, _, sweep⟩ := sweep_advances ready' (by rwa [eq])
      exact ⟨_, congrArg Prod.fst sweep⟩
    rw [run_eq completes]
    simp only [states]

end Solver

/-! ## From zeros -/

namespace LinearSystem

variable {R : Type} [Scalar R] {s : LinearSystem R} {n : Nat}

/-- The values after some sweeps from zeros. -/
def iterate (s : LinearSystem R) (k : Nat) : List R :=
  Solver.valuesAfter ⟨s, .zeros s.symbols, 0⟩ k

theorem iterate_zero : s.iterate 0 = List.replicate s.symbols.length Scalar.zero := rfl

theorem iterate_advances (square : s.IsSquare)
    (regular : ∀ i < s.symbols.length, ¬ s.ZeroDiagonal i) (k : Nat) :
    s.Advances (s.iterate k) (s.iterate (k + 1)) :=
  Solver.valuesAfter_advances (ready_zeros square) regular k

theorem length_iterate (square : s.IsSquare)
    (regular : ∀ i < s.symbols.length, ¬ s.ZeroDiagonal i) (k : Nat) :
    (s.iterate k).length = s.symbols.length := by
  cases k with
  | zero => exact List.length_replicate
  | succ k => exact (iterate_advances square regular k).length_eq

/-- A run shows the values after each of its sweeps. -/
theorem run_eq_iterate (square : s.IsSquare)
    (regular : n = 0 ∨ ∀ i < s.symbols.length, ¬ s.ZeroDiagonal i) :
    s.run n = ⟨(List.range n).map fun k => ⟨k + 1, ⟨s.symbols, s.iterate (k + 1)⟩⟩,
      .ok ⟨s.symbols, s.iterate n⟩⟩ := by
  have run := Solver.run_eq_valuesAfter (ready_zeros square) regular
  simp only [Nat.zero_add] at run
  rw [run_of_square square, run]
  rfl

/-- A run is refused at the first zero on the diagonal, before any sweep is completed. -/
theorem SingularAt.run_eq {p : Nat} {symbol : String} (h : s.SingularAt p symbol)
    (square : s.IsSquare) (positive : n ≠ 0) :
    s.run n = ⟨[], .error (.zeroDiagonal symbol p 1)⟩ := by
  obtain ⟨m, rfl⟩ := Nat.exists_eq_succ_of_ne_zero positive
  obtain ⟨_, found, run⟩ :=
    Solver.run_singular (ready_zeros square) h.position_lt h.zero h.first m
  cases h.symbol_eq.symm.trans found
  rw [run_of_square square, run]

/-- Whether a solve of a square system completes. -/
theorem completes_or_singularAt (s : LinearSystem R) (n : Nat) :
    (n = 0 ∨ ∀ i < s.symbols.length, ¬ s.ZeroDiagonal i) ∨
      n ≠ 0 ∧ ∃ p symbol, s.SingularAt p symbol := by
  by_cases none : n = 0
  · exact .inl (.inl none)
  · rcases s.regular_or_singularAt with regular | singular
    · exact .inl (.inr regular)
    · exact .inr ⟨none, singular⟩

/-- The sweeps of a run are numbered from one, and show a value for every variable of the system. -/
theorem snapshots_run (s : LinearSystem R) (n : Nat) :
    (s.run n).snapshots.map Snapshot.iteration = List.range' 1 (s.run n).snapshots.length ∧
    ∀ snapshot ∈ (s.run n).snapshots, snapshot.approximation.symbols = s.symbols ∧
      snapshot.approximation.values.length = s.symbols.length := by
  by_cases square : s.IsSquare
  · rcases s.completes_or_singularAt n with regular | ⟨positive, _, _, singular⟩
    · rw [run_eq_iterate square regular]
      refine ⟨?_, fun snapshot mem => ?_⟩
      · rw [List.map_map, List.length_map, List.length_range, List.range'_eq_map_range]
        exact List.map_congr_left fun k _ => Nat.add_comm k 1
      · obtain ⟨k, hk, rfl⟩ := List.mem_map.mp mem
        have positive : n ≠ 0 := Nat.ne_zero_of_lt (List.mem_range.mp hk)
        exact ⟨rfl, length_iterate square (regular.resolve_left positive) (k + 1)⟩
    · rw [singular.run_eq square positive]
      exact ⟨rfl, nofun⟩
  · rw [run_of_not_square square]
    exact ⟨rfl, nofun⟩

theorem solve_eq_iterate (square : s.IsSquare)
    (regular : n = 0 ∨ ∀ i < s.symbols.length, ¬ s.ZeroDiagonal i) :
    s.solve n
      = .ok ((List.range n).map fun k => ⟨k + 1, ⟨s.symbols, s.iterate (k + 1)⟩⟩) := by
  rw [solve, run_eq_iterate square regular]
  rfl

theorem SingularAt.solve_eq {p : Nat} {symbol : String} (h : s.SingularAt p symbol)
    (square : s.IsSquare) (positive : n ≠ 0) :
    s.solve n = .error (.zeroDiagonal symbol p 1) := by
  rw [solve, h.run_eq square positive]
  rfl

end LinearSystem

end Seidel
