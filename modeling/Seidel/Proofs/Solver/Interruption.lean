import Seidel.Proofs.Solver.Calls
import Seidel.Proofs.Solver.Outcome

/-!
# Interrupted sweeps

Whether a sweep completes is decided by the diagonal and not by the values: it is interrupted at
the first equation that cannot be solved for its own variable, in every state and every time
(`FirstZero.sweep_eq`). What is left behind is the middle of a sweep. The positions before have
their new values, the others their old ones, and the sweep is not counted
(`sweep_interrupted`).
-/

namespace Seidel

/-! ## One update -/

namespace Solver

variable {R : Type} [Scalar R] {system : LinearSystem R} {s : Solver R}

theorem update_error (h : Serves system s) {p : Nat} {e : SolverError} {t : Solver R}
    (refused : s.update p = (.error e, t)) : t = s := by
  rcases update_cases h p with ⟨_, eq⟩ | ⟨_, _, _, eq⟩ | ⟨_, _, _, eq⟩
  · exact congrArg Prod.snd (refused.symm.trans eq)
  · exact congrArg Prod.snd (refused.symm.trans eq)
  · cases refused.symm.trans eq

/-- An update writes one value and nothing else. -/
theorem update_ok (h : Serves system s) {p : Nat} {value : R} {t : Solver R}
    (done : s.update p = (.ok value, t)) :
    t.sweeps = s.sweeps ∧ t.approximation.symbols = s.approximation.symbols ∧
      t.approximation.values[p]? = some value ∧
      ∀ j, j ≠ p → t.approximation.values[j]? = s.approximation.values[j]? := by
  rcases update_cases h p with ⟨_, eq⟩ | ⟨_, _, _, eq⟩ | ⟨lt, _, _, eq⟩
  · cases done.symm.trans eq
  · cases done.symm.trans eq
  · cases done.symm.trans eq
    refine ⟨rfl, rfl, List.getElem?_set_self (h.length_eq ▸ lt), fun j ne => ?_⟩
    exact List.getElem?_set_ne (Ne.symm ne)

end Solver

/-! ## One sweep -/

namespace LinearSystem.FirstZero

variable {system : LinearSystem Float} {s : Solver Float} {p : Nat} {symbol : String}

/-- A sweep updates the positions before the first zero on the diagonal and is refused there. -/
theorem sweep_eq (h : FirstZero system.equations system.symbols p symbol)
    (serves : Solver.Serves system s) :
    ∃ t, s.Updated p t ∧ s.updateAll (List.range p) = (.ok (), t) ∧
      s.sweep = (.error (.zeroDiagonal symbol p (s.sweeps + 1)), t) := by
  obtain rfl := serves.system_eq
  obtain ⟨t, found, updated, run, hfound, sweep⟩ :=
    Solver.sweep_singular serves.ready h.position_lt h.zeroDiagonal (h.regular_before serves.square)
  obtain rfl : symbol = found := Option.some.inj (h.symbol_eq.symm.trans hfound)
  exact ⟨t, updated, run, sweep⟩

end LinearSystem.FirstZero

namespace Solver

variable {system : LinearSystem Float} {s : Solver Float}

theorem sweep_refused_iff (h : Serves system s) :
    (∃ e, s.sweep.1 = .error e) ↔
      ∃ p ∈ system.equations.zip system.symbols, p.1.hasPivot p.2 = false := by
  constructor
  · rintro ⟨e, refused⟩
    rcases sweep_cases h with ⟨p, symbol, _, hsymbol, zero, _, _, _⟩ | ⟨_, t, _, eq⟩
    · have lt := (List.getElem?_eq_some_iff.mp hsymbol).1
      obtain ⟨equation, symbol, _, he, hsymbol, _⟩ := LinearSystem.exists_equation h.square lt
      exact ⟨(equation, symbol), List.mem_of_getElem? (List.getElem?_zip_eq_some.mpr ⟨he, hsymbol⟩),
        (LinearSystem.zeroDiagonal_iff he hsymbol).mp zero⟩
    · rw [eq] at refused
      cases refused
  · intro vanishes
    obtain ⟨p, symbol, first⟩ := LinearSystem.exists_firstZero vanishes
    obtain ⟨t, _, _, eq⟩ := first.sweep_eq h
    exact ⟨_, congrArg Prod.fst eq⟩

/-- **Interrupted sweeps.** In every state that calls can lead to, a sweep fails exactly when some
equation has no coefficient other than zero for its own variable. It fails at the first of them:
the positions before hold what updating them one after the other gives, each from new values before
it and old values from it on, all other positions hold their old values, the sweep is not counted,
and the next one fails in the same way. A single update that fails changes nothing, and one that
succeeds changes its own position only. -/
theorem sweep_interrupted (reachable : Reachable system s) :
    ((∃ e, s.sweep.1 = .error e) ↔
      ∃ p ∈ system.equations.zip system.symbols, p.1.hasPivot p.2 = false) ∧
    ((∃ e, s.sweep.1 = .error e) → ∃ p symbol t,
      LinearSystem.FirstZero system.equations system.symbols p symbol ∧
      s.sweep = (.error (.zeroDiagonal symbol p (s.sweeps + 1)), t) ∧
      s.updateAll (List.range p) = (.ok (), t) ∧
      (∀ i < p, t.approximation.values[i]?
        = system.solved? i (mixed s.approximation.values t.approximation.values i)) ∧
      (∀ j, p ≤ j → t.approximation.values[j]? = s.approximation.values[j]?) ∧
      t.approximation.values.length = s.approximation.values.length ∧
      t.sweeps = s.sweeps ∧
      t.sweep.1 = .error (.zeroDiagonal symbol p (s.sweeps + 1))) ∧
    (∀ p e t, s.update p = (.error e, t) → t = s) ∧
    ∀ p value t, s.update p = (.ok value, t) →
      t.sweeps = s.sweeps ∧ t.approximation.symbols = s.approximation.symbols ∧
      t.approximation.values[p]? = some value ∧
      ∀ j, j ≠ p → t.approximation.values[j]? = s.approximation.values[j]? := by
  have serves := reachable.serves
  have refused := sweep_refused_iff serves
  refine ⟨refused, fun fails => ?_, fun _ _ _ => update_error serves, fun _ _ _ => update_ok serves⟩
  obtain ⟨p, symbol, first⟩ := LinearSystem.exists_firstZero (refused.mp fails)
  obtain ⟨t, updated, run, sweep⟩ := first.sweep_eq serves
  obtain ⟨u, _, _, again⟩ := first.sweep_eq (serves.of_updated updated)
  rw [updated.sweeps_eq] at again
  have new := updated.new
  rw [serves.system_eq] at new
  exact ⟨p, symbol, t, first, sweep, run, new, updated.old, updated.length_eq, updated.sweeps_eq,
    congrArg Prod.fst again⟩

/-- `2x - y = 4`, `x - 0y = 1` and `x + z = 3`. -/
def blocked : LinearSystem Float :=
  (LinearSystem.ofEquations? [⟨[⟨"x", .ofBits 0x4000000000000000⟩,
      ⟨"y", .ofBits 0xBFF0000000000000⟩], .ofBits 0x4010000000000000, by decide⟩,
    ⟨[⟨"x", .ofBits 0x3FF0000000000000⟩, ⟨"y", .ofBits 0x8000000000000000⟩],
      .ofBits 0x3FF0000000000000, by decide⟩,
    ⟨[⟨"x", .ofBits 0x3FF0000000000000⟩, ⟨"z", .ofBits 0x3FF0000000000000⟩],
      .ofBits 0x4008000000000000, by decide⟩]).get (by decide +kernel)

/-- The state after an update of `z`. -/
def primed : Solver Float :=
  (perform ⟨blocked, .zeros blocked.symbols, 0⟩ [.update 2]).2

/-- A sweep gives `x` its new value and stops before `y`, time after time. -/
theorem primed_sweep_interrupted :
    Reachable blocked primed ∧
    primed.approximation.values = [.ofBits 0, .ofBits 0, .ofBits 0x4008000000000000] ∧
    ∃ t, primed.sweep = (.error (.zeroDiagonal "y" 1 1), t) ∧
      t.approximation.values
        = [.ofBits 0x4000000000000000, .ofBits 0, .ofBits 0x4008000000000000] ∧
      t.sweep.1 = .error (.zeroDiagonal "y" 1 1) := by
  have reachable : Reachable blocked primed := ⟨_, _, if_pos (by decide +kernel), rfl⟩
  obtain ⟨refused, interrupted, _⟩ := sweep_interrupted reachable
  obtain ⟨_, _, t, _, sweep, _, _, _, _, _, again⟩ :=
    interrupted (refused.mpr (by decide +kernel))
  have stops : primed.sweep.1 = .error (.zeroDiagonal "y" 1 1) := by decide +kernel
  have values : primed.sweep.2.approximation.values
      = [.ofBits 0x4000000000000000, .ofBits 0, .ofBits 0x4008000000000000] := by decide +kernel
  rw [sweep] at stops values
  exact ⟨reachable, by decide +kernel, t, sweep.trans (congrArg (·, t) stops), values,
    again.trans stops⟩

end Solver

end Seidel
