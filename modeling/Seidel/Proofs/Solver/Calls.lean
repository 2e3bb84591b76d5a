import Seidel.Proofs.Solver.Sweeping

/-!
# Calls in any order

A caller may mix single updates with sweeps and go on after a failure. What one call can do is
listed once (`update_cases`, `sweep_cases`): it is refused before or at a zero on the diagonal, or
it writes values. In every case the solver still has one value for each variable of the system it
was started on (`Serves`), and its counter is the number of the last snapshot. So whatever has been
called before, no call is answered with a missing equation or value (`perform_invariant`).
-/

namespace Seidel

/-- What is asked of a solver. -/
inductive Call
  | update (position : Nat)
  | sweep
  deriving DecidableEq, Repr

/-- What a solver answers to a call. -/
inductive Answer (R : Type)
  | update (result : Except SolverError R)
  | sweep (result : Except SolverError (Snapshot R))
  deriving DecidableEq

namespace Answer

variable {R : Type}

/-- The snapshot of a completed sweep. -/
def snapshot? : Answer R → Option (Snapshot R)
  | .sweep (.ok snapshot) => some snapshot
  | _ => none

/-- Why a call was refused. -/
def error? : Answer R → Option SolverError
  | .update (.error e) => some e
  | .sweep (.error e) => some e
  | _ => none

end Answer

namespace Solver

variable {R : Type}

section Calls

variable [Scalar R]

/-- Makes one call. -/
def answer (s : Solver R) : Call → Answer R × Solver R
  | .update position => (.update (s.update position).1, (s.update position).2)
  | .sweep => (.sweep s.sweep.1, s.sweep.2)

/-- Makes calls one after the other, whatever they return. -/
def perform (s : Solver R) : List Call → List (Answer R) × Solver R
  | [] => ([], s)
  | call :: rest =>
    ((s.answer call).1 :: ((s.answer call).2.perform rest).1, ((s.answer call).2.perform rest).2)

/-- The snapshots among some answers. -/
def snapshots (answers : List (Answer R)) : List (Snapshot R) :=
  answers.filterMap Answer.snapshot?

theorem length_perform (s : Solver R) (calls : List Call) :
    (s.perform calls).1.length = calls.length := by
  induction calls generalizing s with
  | nil => rfl
  | cons call rest ih => rw [perform, List.length_cons, List.length_cons, ih]

end Calls

/-! ## The state between calls -/

/-- The solver works on `system` and has one value for each of its variables. -/
structure Serves (system : LinearSystem R) (s : Solver R) : Prop where
  square : system.IsSquare
  system_eq : s.system = system
  symbols_eq : s.approximation.symbols = system.symbols
  length_eq : s.approximation.values.length = system.symbols.length

variable {system : LinearSystem R} {s : Solver R}

namespace Serves

theorem ready (h : Serves system s) : s.Ready :=
  ⟨h.system_eq ▸ h.square, h.system_eq ▸ h.length_eq⟩

theorem store (h : Serves system s) (p : Nat) (value : R) : Serves system (s.store p value) :=
  ⟨h.square, h.system_eq, h.symbols_eq, (List.length_set ..).trans h.length_eq⟩

/-- Every position has a variable, its symbol stands for it, and both find the same value. -/
theorem exists_value (h : Serves system s) {p : Nat} (hp : p < system.symbols.length) :
    ∃ v symbol value, Variable.ofIndex? p = some v ∧ system.symbol? v = some symbol ∧
      s.approximation.value? v = some value ∧ s.approximation.get? symbol = some value := by
  have lt : p < s.approximation.values.length := h.length_eq ▸ hp
  have numbered : p < Variable.limit := Nat.lt_of_lt_of_le hp system.inverse.length_le
  have found := idxOf?_of_getElem? system.canonicalOrder.nodup (List.getElem?_eq_getElem hp)
  refine ⟨⟨p, numbered⟩, system.symbols[p], s.approximation.values[p],
    Variable.ofIndex?_index ⟨p, numbered⟩, List.getElem?_eq_getElem hp,
    List.getElem?_eq_getElem lt, ?_⟩
  rw [Approximation.get?, h.symbols_eq, found]
  exact List.getElem?_eq_getElem lt

theorem get?_eq_none (h : Serves system s) {symbol : String} (absent : symbol ∉ system.symbols) :
    s.approximation.get? symbol = none := by
  rw [Approximation.get?, h.symbols_eq, List.idxOf?_eq_none_iff.mpr absent]
  rfl

theorem exists_residuals [Scalar R] (h : Serves system s) :
    ∃ residuals, s.residuals = .ok residuals ∧ residuals.length = system.equations.length := by
  refine ⟨_, LinearSystem.residuals_eq _ h.ready.values_length, ?_⟩
  rw [List.length_zipWith, LinearSystem.length_matrix, LinearSystem.length_constants,
    Nat.min_self, h.system_eq]

end Serves

variable [Scalar R]

theorem Serves.of_updated (h : Serves system s) {p : Nat} {t : Solver R} (updated : s.Updated p t) :
    Serves system t :=
  ⟨h.square, updated.system_eq.trans h.system_eq, updated.symbols_eq.trans h.symbols_eq,
    updated.length_eq.trans h.length_eq⟩

theorem serves_of_start (h : start system = .ok s) : Serves system s := by
  obtain ⟨square, rfl⟩ := start_eq h
  exact ⟨square, rfl, rfl, List.length_replicate⟩

/-! ## What one call can do -/

theorem update_cases (h : Serves system s) (p : Nat) :
    (system.symbols.length ≤ p ∧
      s.update p = (.error (.noSuchPosition p system.symbols.length), s)) ∨
    (∃ symbol, system.symbols[p]? = some symbol ∧ system.ZeroDiagonal p ∧
      s.update p = (.error (.zeroDiagonal symbol p (s.sweeps + 1)), s)) ∨
    (p < system.symbols.length ∧ ¬ system.ZeroDiagonal p ∧
      ∃ value, s.update p = (.ok value, s.store p value)) := by
  obtain rfl := h.system_eq
  rcases Nat.lt_or_ge p s.system.symbols.length with lt | ge
  · rcases next_cases h.ready lt with ⟨zero, symbol, hsymbol, next⟩ | ⟨regular, value, _, next⟩
    · exact .inr (.inl ⟨symbol, hsymbol, zero, by simp only [update, next]⟩)
    · exact .inr (.inr ⟨lt, regular, value, by simp only [update, next]⟩)
  · exact .inl ⟨ge, by simp only [update, next, List.getElem?_eq_none ge]⟩

/-- A sweep stops at the first zero on the diagonal, if there is one. -/
theorem sweep_cases (h : Serves system s) :
    (∃ p symbol t, system.symbols[p]? = some symbol ∧ system.ZeroDiagonal p ∧
      (∀ i < p, ¬ system.ZeroDiagonal i) ∧ s.Updated p t ∧
      s.sweep = (.error (.zeroDiagonal symbol p (s.sweeps + 1)), t)) ∨
    ((∀ i < system.symbols.length, ¬ system.ZeroDiagonal i) ∧
      ∃ t, s.Updated system.symbols.length t ∧
        s.sweep = (.ok ⟨s.sweeps + 1, t.approximation⟩, { t with sweeps := s.sweeps + 1 })) := by
  obtain rfl := h.system_eq
  rcases s.system.regular_or_singularAt with regular | ⟨p, _, singular⟩
  · obtain ⟨t, updated, _, sweep⟩ := sweep_regular h.ready regular
    exact .inr ⟨regular, t, updated, sweep⟩
  · obtain ⟨t, symbol, updated, _, hsymbol, sweep⟩ :=
      sweep_singular h.ready singular.position_lt singular.zero singular.first
    exact .inl ⟨p, symbol, t, hsymbol, singular.zero, singular.first, updated, sweep⟩

namespace Serves

theorem answer (h : Serves system s) (call : Call) : Serves system (s.answer call).2 := by
  cases call with
  | update p =>
    rcases update_cases h p with ⟨_, eq⟩ | ⟨_, _, _, eq⟩ | ⟨_, _, value, eq⟩
    · simpa only [Solver.answer, eq] using h
    · simpa only [Solver.answer, eq] using h
    · simpa only [Solver.answer, eq] using h.store p value
  | sweep =>
    rcases sweep_cases h with ⟨_, _, t, _, _, _, updated, eq⟩ | ⟨_, t, updated, eq⟩
    · simpa only [Solver.answer, eq] using h.of_updated updated
    · have next := h.of_updated updated
      simp only [Solver.answer, eq]
      exact ⟨next.square, next.system_eq, next.symbols_eq, next.length_eq⟩

theorem perform (h : Serves system s) (calls : List Call) : Serves system (s.perform calls).2 := by
  induction calls generalizing s with
  | nil => exact h
  | cons call rest ih => exact ih (h.answer call)

end Serves

/-- Calls lead from a start on `system` to the state `s`. -/
def Reachable (system : LinearSystem R) (s : Solver R) : Prop :=
  ∃ first calls, start system = .ok first ∧ (first.perform calls).2 = s

theorem Reachable.serves (h : Reachable system s) : Serves system s := by
  obtain ⟨first, calls, started, rfl⟩ := h
  exact (serves_of_start started).perform calls

/-! ## Refusals -/

theorem update_eq_noSuchPosition_iff (h : Serves system s) (p : Nat) :
    (s.update p).1 = .error (.noSuchPosition p system.symbols.length)
      ↔ system.symbols.length ≤ p := by
  rcases update_cases h p with ⟨ge, eq⟩ | ⟨symbol, hsymbol, _, eq⟩ | ⟨lt, _, value, eq⟩
  · simp [eq, ge]
  · simp [eq, (List.getElem?_eq_some_iff.mp hsymbol).1]
  · simp [eq, lt]

theorem update_eq_zeroDiagonal_iff (h : Serves system s) {p : Nat} {symbol : String}
    (hsymbol : system.symbols[p]? = some symbol) :
    (s.update p).1 = .error (.zeroDiagonal symbol p (s.sweeps + 1)) ↔ system.ZeroDiagonal p := by
  have lt := (List.getElem?_eq_some_iff.mp hsymbol).1
  rcases update_cases h p with ⟨ge, _⟩ | ⟨symbol', hsymbol', zero, eq⟩ | ⟨_, regular, value, eq⟩
  · omega
  · obtain rfl : symbol = symbol' := Option.some.inj (hsymbol.symm.trans hsymbol')
    simp [eq, zero]
  · simp [eq, regular]

theorem exists_update_iff (h : Serves system s) {p : Nat} (lt : p < system.symbols.length) :
    (∃ value, (s.update p).1 = .ok value) ↔ ¬ system.ZeroDiagonal p := by
  rcases update_cases h p with ⟨ge, _⟩ | ⟨_, _, zero, eq⟩ | ⟨_, regular, value, eq⟩
  · omega
  · simp [eq, zero]
  · simp [eq, regular]

theorem sweep_error (h : Serves system s) {e : SolverError} (refused : s.sweep.1 = .error e) :
    ∃ p symbol, system.symbols[p]? = some symbol ∧
      e = .zeroDiagonal symbol p (s.sweeps + 1) := by
  rcases sweep_cases h with ⟨p, symbol, _, hsymbol, _, _, _, eq⟩ | ⟨_, _, _, eq⟩
  · rw [eq] at refused
    cases refused
    exact ⟨p, symbol, hsymbol, rfl⟩
  · rw [eq] at refused
    cases refused

theorem answer_complete (h : Serves system s) (call : Call) (p : Nat) :
    (s.answer call).1.error? ≠ some (.incomplete p) := by
  cases call with
  | update q =>
    rcases update_cases h q with ⟨_, eq⟩ | ⟨_, _, _, eq⟩ | ⟨_, _, _, eq⟩ <;>
      simp [answer, eq, Answer.error?]
  | sweep =>
    rcases sweep_cases h with ⟨_, _, _, _, _, _, _, eq⟩ | ⟨_, _, _, eq⟩ <;>
      simp [answer, eq, Answer.error?]

/-- No call is answered with a missing equation or value. -/
theorem perform_complete (h : Serves system s) (calls : List Call) :
    ∀ answer ∈ (s.perform calls).1, ∀ p, answer.error? ≠ some (.incomplete p) := by
  induction calls generalizing s with
  | nil => simp [perform]
  | cons call rest ih =>
    rw [perform, List.forall_mem_cons]
    exact ⟨answer_complete h call, ih (h.answer call)⟩

/-! ## The counter -/

/-- A completed sweep shows the next number; no other call is counted. -/
theorem answer_count (h : Serves system s) (call : Call) :
    ((s.answer call).1.snapshot? = none ∧ (s.answer call).2.sweeps = s.sweeps) ∨
    ∃ snapshot, (s.answer call).1.snapshot? = some snapshot ∧ snapshot.iteration = s.sweeps + 1 ∧
      (s.answer call).2.sweeps = s.sweeps + 1 := by
  cases call with
  | update p =>
    left
    rcases update_cases h p with ⟨_, eq⟩ | ⟨_, _, _, eq⟩ | ⟨_, _, _, eq⟩ <;>
      simp [answer, eq, Answer.snapshot?, store]
  | sweep =>
    rcases sweep_cases h with ⟨_, _, _, _, _, _, updated, eq⟩ | ⟨_, t, _, eq⟩
    · left
      simp [answer, eq, Answer.snapshot?, updated.sweeps_eq]
    · right
      refine ⟨⟨s.sweeps + 1, t.approximation⟩, ?_, rfl, ?_⟩
      · simp [answer, eq, Answer.snapshot?]
      · simp [answer, eq]

/-- The snapshots of some calls are numbered in order, from the counter before them to the counter
after them. -/
theorem perform_count (h : Serves system s) (calls : List Call) :
    ∃ count, (s.perform calls).2.sweeps = s.sweeps + count ∧
      (snapshots (s.perform calls).1).map Snapshot.iteration
        = List.range' (s.sweeps + 1) count := by
  induction calls generalizing s with
  | nil => exact ⟨0, rfl, rfl⟩
  | cons call rest ih =>
    obtain ⟨count, counted, numbers⟩ := ih (h.answer call)
    rcases answer_count h call with ⟨none, same⟩ | ⟨snapshot, some, number, next⟩
    · rw [same] at counted numbers
      refine ⟨count, counted, ?_⟩
      simpa only [perform, snapshots, List.filterMap_cons, none] using numbers
    · rw [next] at counted numbers
      refine ⟨count + 1, by rw [perform, counted]; omega, ?_⟩
      simp only [perform, snapshots, List.filterMap_cons, some, List.map_cons, number,
        List.range'_succ]
      exact congrArg _ numbers

theorem length_snapshots_le (s : Solver R) (calls : List Call) :
    (snapshots (s.perform calls).1).length ≤ calls.length := by
  rw [← length_perform s calls]
  exact List.length_filterMap_le _ _

/-- After a start, the counter is the number of completed sweeps and of the last snapshot. -/
theorem sweeps_of_start (started : start system = .ok s) (calls : List Call) :
    (s.perform calls).2.sweeps = (snapshots (s.perform calls).1).length ∧
    ∀ last, (snapshots (s.perform calls).1).getLast? = some last →
      last.iteration = (s.perform calls).2.sweeps := by
  obtain ⟨count, counted, numbers⟩ := perform_count (serves_of_start started) calls
  obtain ⟨_, rfl⟩ := start_eq started
  rw [Nat.zero_add] at counted numbers
  have length := congrArg List.length numbers
  rw [List.length_map, List.length_range'] at length
  refine ⟨counted.trans length.symm, fun last found => ?_⟩
  have number := congrArg List.getLast? numbers
  rw [List.getLast?_map, found, List.getLast?_range'] at number
  split at number
  · cases number
  · rw [counted]
    exact (Option.some.inj number).trans (Nat.add_sub_cancel_left 1 count)

/-- **Calls in any order.** Whatever has been asked of a solver, and whether it was done or
refused, every call is answered and none with a missing equation or value. The solver has the
variables of its system in canonical order and one value for each, which its position and its
symbol both find. Its counter is the number of completed sweeps, never more than there were calls,
and the number of the last snapshot. What it refuses next depends on the equations alone: an update
beyond the last variable or with a zero on the diagonal, a sweep for the latter reason only. -/
theorem perform_invariant {system : LinearSystem Float} {s : Solver Float}
    (started : start system = .ok s) (calls : List Call) :
    ∃ answers t, s.perform calls = (answers, t) ∧ answers.length = calls.length ∧
      (∀ answer ∈ answers, ∀ p, answer.error? ≠ some (.incomplete p)) ∧
      t.approximation.symbols = system.symbols ∧
      t.approximation.values.length = system.symbols.length ∧
      (∀ p < system.symbols.length, ∃ v symbol value, Variable.ofIndex? p = some v ∧
        system.symbol? v = some symbol ∧ t.approximation.value? v = some value ∧
        t.approximation.get? symbol = some value) ∧
      (∀ symbol, symbol ∉ system.symbols → t.approximation.get? symbol = none) ∧
      t.sweeps = (snapshots answers).length ∧ t.sweeps ≤ calls.length ∧
      (∀ last, (snapshots answers).getLast? = some last → last.iteration = t.sweeps) ∧
      (∀ p, (t.update p).1 = .error (.noSuchPosition p system.symbols.length)
        ↔ system.symbols.length ≤ p) ∧
      (∀ p < system.symbols.length, ∃ e symbol, system.equations[p]? = some e ∧
        system.symbols[p]? = some symbol ∧
        ((t.update p).1 = .error (.zeroDiagonal symbol p (t.sweeps + 1))
          ↔ e.hasPivot symbol = false) ∧
        ((∃ value, (t.update p).1 = .ok value) ↔ e.hasPivot symbol = true)) ∧
      (∀ cause, t.sweep.1 = .error cause → ∃ p symbol,
        system.symbols[p]? = some symbol ∧ cause = .zeroDiagonal symbol p (t.sweeps + 1)) ∧
      ∃ residuals, t.residuals = .ok residuals ∧
        residuals.length = system.equations.length := by
  have first := serves_of_start started
  have last : Serves system (s.perform calls).2 := first.perform calls
  obtain ⟨counted, number⟩ := sweeps_of_start started calls
  refine ⟨_, _, rfl, length_perform s calls, perform_complete first calls, last.symbols_eq,
    last.length_eq, fun p hp => last.exists_value hp, fun _ absent => last.get?_eq_none absent,
    counted, counted ▸ length_snapshots_le s calls, number, update_eq_noSuchPosition_iff last, ?_,
    fun _ refused => sweep_error last refused, last.exists_residuals⟩
  intro p hp
  obtain ⟨e, symbol, _, he, hsymbol, _⟩ := LinearSystem.exists_equation first.square hp
  have zero := LinearSystem.zeroDiagonal_iff he hsymbol
  refine ⟨e, symbol, he, hsymbol, (update_eq_zeroDiagonal_iff last hsymbol).trans zero, ?_⟩
  rw [exists_update_iff last hp, zero, Bool.not_eq_false]

/-- `3x + y = 5` and `x - y = 1`. -/
def paired : LinearSystem Float :=
  (LinearSystem.ofEquations? [⟨[⟨"x", .ofBits 0x4008000000000000⟩,
      ⟨"y", .ofBits 0x3FF0000000000000⟩], .ofBits 0x4014000000000000, by decide⟩,
    ⟨[⟨"x", .ofBits 0x3FF0000000000000⟩, ⟨"y", .ofBits 0xBFF0000000000000⟩],
      .ofBits 0x3FF0000000000000, by decide⟩]).get (by decide +kernel)

theorem paired_invariant :
    ∃ s answers t, start paired = .ok s ∧
      s.perform [.sweep, .update 7, .update 0, .sweep] = (answers, t) ∧
      (snapshots answers).length = 2 ∧ t.sweeps = 2 ∧ t.approximation.get? "z" = none ∧
      (t.update 2).1 = .error (.noSuchPosition 2 2) := by
  have started : start paired = .ok ⟨paired, .zeros paired.symbols, 0⟩ :=
    if_pos (by decide +kernel)
  have absent : "z" ∉ paired.symbols := by decide +kernel
  have two : paired.symbols.length = 2 := by decide +kernel
  obtain ⟨answers, t, run, _, _, _, _, _, unknown, counted, _, _, refused, _⟩ :=
    perform_invariant started [.sweep, .update 7, .update 0, .sweep]
  have completed : (snapshots answers).length = 2 := by
    obtain ⟨rfl, _⟩ := Prod.mk.inj run
    decide +kernel
  rw [two] at refused
  exact ⟨_, answers, t, started, run, completed, counted.trans completed, unknown "z" absent,
    (refused 2).mpr (Nat.le_refl 2)⟩

end Solver

end Seidel
