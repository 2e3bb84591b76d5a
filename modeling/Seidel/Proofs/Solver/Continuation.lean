import Seidel.Proofs.Solver.Calls

/-!
# Runs can be continued

A run that succeeds is sweeps one after the other and nothing else (`run_eq_ok_iff`), and between
two sweeps only the values and the counter are kept. So it makes no difference where a run is cut:
a shorter one delivers the beginning of a longer one, and the rest can be done from the state in
which the first part ended (`solve_continues`).
-/

namespace Seidel

namespace Solver

variable {R : Type} [Scalar R] {s t : Solver R}

/-- Sweeps lead from `s` to `t`, every one of them completed, and deliver these snapshots. -/
inductive Sweeps : Solver R → List (Snapshot R) → Solver R → Prop
  | nil (s : Solver R) : Sweeps s [] s
  | cons {s u t : Solver R} {snapshot : Snapshot R} {rest : List (Snapshot R)} :
    s.sweep = (.ok snapshot, u) → Sweeps u rest t → Sweeps s (snapshot :: rest) t

namespace Sweeps

variable {delivered later : List (Snapshot R)}

/-- Sweeps can be cut anywhere. -/
theorem append_iff :
    Sweeps s (delivered ++ later) t ↔ ∃ u, Sweeps s delivered u ∧ Sweeps u later t := by
  induction delivered generalizing s with
  | nil =>
    constructor
    · intro h
      exact ⟨s, .nil s, h⟩
    · rintro ⟨u, ⟨⟩, h⟩
      exact h
  | cons first rest ih =>
    constructor
    · rintro (_ | ⟨sweep, h⟩)
      obtain ⟨u, before, after⟩ := ih.mp h
      exact ⟨u, .cons sweep before, after⟩
    · rintro ⟨u, _ | ⟨sweep, before⟩, after⟩
      exact .cons sweep (ih.mpr ⟨u, before, after⟩)

/-- The last snapshot shows the values that the sweeps end with. -/
theorem approximation_eq (h : Sweeps s delivered t) :
    t.approximation = ((delivered.getLast?).map Snapshot.approximation).getD s.approximation := by
  induction h with
  | nil => rfl
  | @cons _ _ _ _ rest sweep _ ih =>
    rw [ih, List.getLast?_cons, sweep_ok sweep]
    cases rest.getLast? <;> rfl

/-- Calling for as many sweeps is answered with the same snapshots. -/
theorem perform_eq (h : Sweeps s delivered t) :
    s.perform (List.replicate delivered.length .sweep)
      = (delivered.map fun x => .sweep (.ok x), t) := by
  induction h with
  | nil => rfl
  | cons sweep _ ih =>
    simp only [List.length_cons, List.replicate_succ, perform, answer, sweep, ih, List.map_cons]

end Sweeps

/-- A run that succeeds delivers the snapshots of its sweeps. -/
theorem run_eq_ok_iff {n : Nat} {delivered : List (Snapshot R)} {last : Approximation R} :
    s.run n = ⟨delivered, .ok last⟩
      ↔ delivered.length = n ∧ ∃ t, Sweeps s delivered t ∧ t.approximation = last := by
  constructor
  · intro h
    induction n generalizing s delivered with
    | zero =>
      cases h
      exact ⟨rfl, s, .nil s, rfl⟩
    | succ n ih =>
      rw [run] at h
      split at h
      · rename_i snapshot u sweep
        cases rest : u.run n with
        | mk later result =>
          rw [rest] at h
          cases h
          obtain ⟨length, t, sweeps, ends⟩ := ih rest
          exact ⟨congrArg (· + 1) length, t, .cons sweep sweeps, ends⟩
      · cases h
  · rintro ⟨rfl, t, sweeps, rfl⟩
    induction sweeps with
    | nil => rfl
    | cons sweep _ ih => simp only [List.length_cons, run, sweep, ih]

theorem perform_append (s : Solver R) (calls later : List Call) :
    s.perform (calls ++ later)
      = ((s.perform calls).1 ++ ((s.perform calls).2.perform later).1,
        ((s.perform calls).2.perform later).2) := by
  induction calls generalizing s with
  | nil => rfl
  | cons call rest ih => simp only [List.cons_append, perform, ih]

end Solver

namespace LinearSystem

section Solving

variable {R : Type} [Scalar R] {s : LinearSystem R} {n : Nat} {delivered : List (Snapshot R)}

theorem run_of_start {first : Solver R} (started : Solver.start s = .ok first) :
    s.run n = first.run n := by
  simp only [LinearSystem.run, started]

/-- A solve that succeeds delivers the snapshots of sweeps from a start. -/
theorem solve_eq_ok_iff :
    s.solve n = .ok delivered ↔ delivered.length = n ∧
      ∃ first last, Solver.start s = .ok first ∧ Solver.Sweeps first delivered last := by
  constructor
  · intro h
    cases started : Solver.start s with
    | error e =>
      simp only [solve, LinearSystem.run, started] at h
      cases h
    | ok first =>
      rw [solve, run_of_start started] at h
      cases run : first.run n with
      | mk snapshots result =>
        rw [run] at h
        cases result with
        | error e => cases h
        | ok last =>
          cases h
          obtain ⟨length, t, sweeps, _⟩ := Solver.run_eq_ok_iff.mp run
          exact ⟨length, first, t, rfl, sweeps⟩
  · rintro ⟨length, first, last, started, sweeps⟩
    rw [solve, run_of_start started, Solver.run_eq_ok_iff.mpr ⟨length, last, sweeps, rfl⟩]
    rfl

end Solving

/-- **Runs can be continued.** If `n` sweeps succeed, so does any smaller number of them, with the
first of the same snapshots. These are what sweeps called one after the other on a new solver
answer and what a run shows on its way, and a run ends with the values of the last, or with zeros
if there is none. A new solver that has been asked for `m` sweeps answers any further ones, and
ends, as if it had been asked for all of them at once. -/
theorem solve_continues (s : LinearSystem Float) {m n : Nat} (le : m ≤ n) :
    (∀ delivered, s.solve n = .ok delivered →
      s.solve m = .ok (delivered.take m) ∧ delivered.length = n ∧
      ∃ first last, Solver.start s = .ok first ∧
        first.perform (List.replicate n .sweep) = (delivered.map fun x => .sweep (.ok x), last) ∧
        s.run n = ⟨delivered, .ok last.approximation⟩ ∧
        last.approximation
          = ((delivered.getLast?).map Snapshot.approximation).getD (.zeros s.symbols) ∧
        ∃ residuals, last.residuals = .ok residuals) ∧
    ∀ first, Solver.start s = .ok first → ∀ answers halfway,
      first.perform (List.replicate m .sweep) = (answers, halfway) →
      ∀ j, first.perform (List.replicate (m + j) .sweep)
        = (answers ++ (halfway.perform (List.replicate j .sweep)).1,
          (halfway.perform (List.replicate j .sweep)).2) := by
  constructor
  · intro delivered solved
    obtain ⟨length, first, last, started, sweeps⟩ := solve_eq_ok_iff.mp solved
    have serves := (Solver.serves_of_start started).perform (List.replicate n .sweep)
    have answers := sweeps.perform_eq
    rw [length] at answers
    refine ⟨?_, length, first, last, started, answers, ?_, ?_, ?_⟩
    · rw [← List.take_append_drop m delivered] at sweeps
      obtain ⟨u, before, _⟩ := Solver.Sweeps.append_iff.mp sweeps
      exact solve_eq_ok_iff.mpr
        ⟨List.length_take_of_le (length ▸ le), first, u, started, before⟩
    · rw [run_of_start started]
      exact Solver.run_eq_ok_iff.mpr ⟨length, last, sweeps, rfl⟩
    · obtain ⟨_, rfl⟩ := Solver.start_eq started
      exact sweeps.approximation_eq
    · rw [answers] at serves
      obtain ⟨residuals, eq, _⟩ := serves.exists_residuals
      exact ⟨residuals, eq⟩
  · intro first _ answers halfway half j
    rw [List.replicate_add, Solver.perform_append, half]

theorem paired_continues :
    1 ≤ 3 ∧ ∃ delivered, Solver.paired.solve 3 = .ok delivered ∧
      Solver.paired.solve 1 = .ok (delivered.take 1) ∧ delivered.length = 3 ∧
      ∃ first last, Solver.start Solver.paired = .ok first ∧
        first.perform [.sweep, .sweep, .sweep]
          = (delivered.map fun x => .sweep (.ok x), last) := by
  have le : 1 ≤ 3 := by decide
  have completes : ((Solver.paired.solve 3).toOption).isSome = true := by decide +kernel
  cases solved : Solver.paired.solve 3 with
  | error e =>
    rw [solved] at completes
    cases completes
  | ok delivered =>
    obtain ⟨shorter, length, first, last, started, answers, _⟩ :=
      (solve_continues Solver.paired le).1 delivered solved
    exact ⟨le, delivered, rfl, shorter, length, first, last, started, answers⟩

end LinearSystem

end Seidel
