import Mathlib.Data.Nat.Find
import Seidel.Proofs.Solver.Steps
import Seidel.Proofs.System.Terms

/-!
# A sweep, all at once

A sweep overwrites one list of values position by position. Halfway through, the positions already
updated hold what their equations give with new values before them and old values from them on, and
the rest is untouched (`Updated`); each update carries this one position further. At the end the
new values satisfy a system of equations that does not mention the order of the updates (`Step`),
and it has no other solution.
-/

namespace Seidel

namespace Solver

variable {R : Type} [Scalar R]

/-- The value at a position, zero beyond the last. -/
def valueOf (values : List R) (position : Nat) : R :=
  (values[position]?).getD Scalar.zero

/-- What position `i` reads during a sweep: new values before it, old values from it on. -/
def mixed (old new : List R) (i j : Nat) : R :=
  if j < i then valueOf new j else valueOf old j

/-- Of the new values, position `i` reads those before it only. -/
theorem mixed_congr {old new new' : List R} {i : Nat} (same : ∀ j < i, new[j]? = new'[j]?) :
    mixed old new i = mixed old new' i := by
  funext j
  unfold mixed valueOf
  split
  · rename_i lt
    rw [same j lt]
  · rfl

theorem mixed_self (values : List R) (i : Nat) : mixed values values i = valueOf values := by
  funext j
  exact ite_self _

end Solver

/-! ## One update -/

namespace LinearSystem

variable {R : Type} [Scalar R] {s : LinearSystem R} {i : Nat} {e : Equation R} {symbol : String}
  {row : Row R}

theorem zeroDiagonal_iff_row (he : s.equations[i]? = some e) (hsymbol : s.symbols[i]? = some symbol)
    (hrow : s.rows[i]? = some row) :
    s.ZeroDiagonal i ↔ Scalar.isZero (row.coefficient i) = true := by
  simp [ZeroDiagonal, diagonal?, he, hsymbol, row_coefficient_eq he hrow hsymbol]

/-- The row of an equation gives for its own variable what the equation gives. -/
theorem solved?_eq_row (he : s.equations[i]? = some e) (hsymbol : s.symbols[i]? = some symbol)
    (hrow : s.rows[i]? = some row) (value : Nat → R) :
    s.solved? i value = some ((e.constant - Scalar.sum ((Solver.otherTerms row i).map fun p =>
      p.2 * value p.1.index)) / row.coefficient i) := by
  have others := Row.map_other_positions s.inverse (s.row_match he hrow) hsymbol
    fun c j => c * value j
  simp only [solved?, he, hsymbol, Option.some.injEq, Equation.others, ← others,
    row_coefficient_eq he hrow hsymbol]
  rfl

/-- Position `p` is the first that cannot be solved for its own variable. -/
structure SingularAt (s : LinearSystem R) (p : Nat) (symbol : String) : Prop where
  symbol_eq : s.symbols[p]? = some symbol
  zero : s.ZeroDiagonal p
  first : ∀ i < p, ¬ s.ZeroDiagonal i

theorem SingularAt.position_lt {p : Nat} {symbol : String} (h : s.SingularAt p symbol) :
    p < s.symbols.length :=
  (List.getElem?_eq_some_iff.mp h.symbol_eq).1

theorem regular_or_singularAt (s : LinearSystem R) :
    (∀ i < s.symbols.length, ¬ s.ZeroDiagonal i) ∨ ∃ p symbol, s.SingularAt p symbol := by
  by_cases singular : ∃ p, p < s.symbols.length ∧ s.ZeroDiagonal p
  · right
    obtain ⟨hp, zero⟩ := Nat.find_spec singular
    refine ⟨Nat.find singular, _, List.getElem?_eq_getElem hp, zero, ?_⟩
    intro i hi zero
    exact Nat.find_min singular hi ⟨Nat.lt_trans hi hp, zero⟩
  · left
    intro i hi zero
    exact singular ⟨i, hi, zero⟩

end LinearSystem

namespace Solver

variable {R : Type} [Scalar R]

/-- Equation `i` is solved for variable `i` with the current values, unless its diagonal is zero. -/
theorem next_cases {s : Solver R} (ready : s.Ready) {i : Nat} (hi : i < s.system.symbols.length) :
    (s.system.ZeroDiagonal i ∧ ∃ symbol, s.system.symbols[i]? = some symbol ∧
      s.next i = .error (.zeroDiagonal symbol i (s.sweeps + 1))) ∨
    (¬ s.system.ZeroDiagonal i ∧ ∃ value,
      s.system.solved? i (valueOf s.approximation.values) = some value ∧
      s.next i = .ok value) := by
  obtain ⟨e, symbol, row, he, hsymbol, hrow⟩ := LinearSystem.exists_equation ready.square hi
  have next := next_eq ready hsymbol hrow he
  have zero := LinearSystem.zeroDiagonal_iff_row he hsymbol hrow
  by_cases h : s.system.ZeroDiagonal i
  · left
    rw [if_pos (zero.mp h)] at next
    exact ⟨h, symbol, hsymbol, next⟩
  · right
    rw [if_neg (mt zero.mpr h)] at next
    exact ⟨h, _, LinearSystem.solved?_eq_row he hsymbol hrow _, next⟩

theorem updateAll_cons_ok {s : Solver R} {p : Nat} {value : R} (h : s.next p = .ok value)
    (rest : List Nat) : s.updateAll (p :: rest) = (s.store p value).updateAll rest := by
  simp only [updateAll, update, h]

theorem updateAll_cons_error {s : Solver R} {p : Nat} {e : SolverError} (h : s.next p = .error e)
    (rest : List Nat) : s.updateAll (p :: rest) = (.error e, s) := by
  simp only [updateAll, update, h]

theorem updateAll_append (s : Solver R) (before after : List Nat) :
    s.updateAll (before ++ after)
      = match s.updateAll before with
        | (.ok (), t) => t.updateAll after
        | (.error e, t) => (.error e, t) := by
  induction before generalizing s with
  | nil => rfl
  | cons p rest ih =>
    rw [List.cons_append]
    cases next : s.next p with
    | ok value =>
      rw [updateAll_cons_ok next, updateAll_cons_ok next]
      exact ih (s.store p value)
    | error e => rw [updateAll_cons_error next, updateAll_cons_error next]

/-! ## The middle of a sweep -/

/-- The state `t` is the state `s` after the positions before `p` have been updated. -/
structure Updated (s : Solver R) (p : Nat) (t : Solver R) : Prop where
  system_eq : t.system = s.system
  symbols_eq : t.approximation.symbols = s.approximation.symbols
  sweeps_eq : t.sweeps = s.sweeps
  length_eq : t.approximation.values.length = s.approximation.values.length
  new : ∀ i < p, t.approximation.values[i]?
    = s.system.solved? i (mixed s.approximation.values t.approximation.values i)
  old : ∀ j, p ≤ j → t.approximation.values[j]? = s.approximation.values[j]?

namespace Updated

variable {s t : Solver R} {p : Nat}

theorem refl (s : Solver R) : Updated s 0 s :=
  ⟨rfl, rfl, rfl, rfl, fun _ h => absurd h (Nat.not_lt_zero _), fun _ _ => rfl⟩

theorem ready (h : Updated s p t) (ready : s.Ready) : t.Ready := by
  constructor
  · rw [h.system_eq]
    exact ready.square
  · rw [h.length_eq, h.system_eq]
    exact ready.values_length

/-- What position `p` reads is already the mixture of new and old values. -/
theorem valueOf_eq (h : Updated s p t) {values : List R}
    (same : ∀ j < p, values[j]? = t.approximation.values[j]?) :
    valueOf t.approximation.values = mixed s.approximation.values values p := by
  funext j
  unfold mixed valueOf
  split
  · rename_i lt
    rw [same j lt]
  · rename_i ge
    rw [h.old j (Nat.le_of_not_lt ge)]

theorem step (h : Updated s p t) (ready : s.Ready) (hp : p < s.system.symbols.length)
    (regular : ¬ s.system.ZeroDiagonal p) :
    ∃ value, t.next p = .ok value ∧ Updated s (p + 1) (t.store p value) := by
  rcases next_cases (h.ready ready) (h.system_eq ▸ hp) with ⟨zero, _⟩ | ⟨_, value, solved, next⟩
  · rw [h.system_eq] at zero
    exact absurd zero regular
  refine ⟨value, next, h.system_eq, h.symbols_eq, h.sweeps_eq, ?_, ?_, ?_⟩
  · rw [store, List.length_set, h.length_eq]
  · intro i hi
    have before (j : Nat) (hj : j < p) :
        (t.store p value).approximation.values[j]? = t.approximation.values[j]? :=
      List.getElem?_set_ne (Nat.ne_of_gt hj)
    by_cases eq : i = p
    · subst eq
      have lt : i < t.approximation.values.length := by
        rw [h.length_eq, ready.values_length]
        exact hp
      rw [← h.valueOf_eq before, ← h.system_eq, solved]
      exact List.getElem?_set_self lt
    · have lt : i < p := by omega
      rw [before i lt, h.new i lt, mixed_congr fun j hj => before j (by omega)]
  · intro j hj
    rw [store, List.getElem?_set_ne (by omega)]
    exact h.old j (by omega)

end Updated

variable {s : Solver R}

/-- Positions whose diagonal is not zero are updated one after the other. -/
theorem exists_updated (ready : s.Ready) {p : Nat} (hp : p ≤ s.system.symbols.length)
    (regular : ∀ i < p, ¬ s.system.ZeroDiagonal i) :
    ∃ t, s.updateAll (List.range p) = (.ok (), t) ∧ s.Updated p t := by
  have step (i : Nat) (t : Solver R) (hi : i < p) (h : Updated s i t) :
      ∃ value, t.next i = .ok value ∧ Updated s (i + 1) (t.store i value) :=
    h.step ready (Nat.lt_of_lt_of_le hi hp) (regular i hi)
  have run := updateAll_induction _ step (Updated.refl s) (Nat.le_of_eq (Nat.zero_add p))
  rwa [← List.range_eq_range', Nat.zero_add] at run

/-! ## The end of a sweep -/

theorem sweep_regular (ready : s.Ready)
    (regular : ∀ i < s.system.symbols.length, ¬ s.system.ZeroDiagonal i) :
    ∃ t, s.Updated s.system.symbols.length t ∧
      s.updateAll (List.range s.system.symbols.length) = (.ok (), t) ∧
      s.sweep = (.ok ⟨s.sweeps + 1, t.approximation⟩, { t with sweeps := s.sweeps + 1 }) := by
  obtain ⟨t, run, h⟩ := exists_updated ready (Nat.le_refl _) regular
  refine ⟨t, h, run, ?_⟩
  simp only [sweep, run, h.sweeps_eq]

/-- A sweep ends where a position is refused, with what was updated before it. -/
theorem sweep_eq_error {t : Solver R} {p : Nat} {e : SolverError}
    (hp : p < s.system.symbols.length) (run : s.updateAll (List.range p) = (.ok (), t))
    (refused : t.next p = .error e) : s.sweep = (.error e, t) := by
  obtain ⟨count, hcount⟩ := Nat.exists_eq_add_of_lt hp
  have split : List.range s.system.symbols.length
      = List.range p ++ p :: (List.range count).map fun j => p + (j + 1) := by
    rw [hcount, Nat.add_assoc, List.range_add, List.range_succ_eq_map]
    simp [Function.comp_def]
  simp only [sweep, split, updateAll_append, run, updateAll_cons_error refused]

/-- A sweep stops at the first zero on the diagonal; what was updated before it stays updated. -/
theorem sweep_singular (ready : s.Ready) {p : Nat} (hp : p < s.system.symbols.length)
    (zero : s.system.ZeroDiagonal p) (first : ∀ i < p, ¬ s.system.ZeroDiagonal i) :
    ∃ t symbol, s.Updated p t ∧ s.updateAll (List.range p) = (.ok (), t) ∧
      s.system.symbols[p]? = some symbol ∧
      s.sweep = (.error (.zeroDiagonal symbol p (s.sweeps + 1)), t) := by
  obtain ⟨t, run, h⟩ := exists_updated ready (Nat.le_of_lt hp) first
  rcases next_cases (h.ready ready) (h.system_eq ▸ hp) with
    ⟨_, symbol, hsymbol, next⟩ | ⟨regular, _⟩
  · rw [h.system_eq] at hsymbol
    rw [h.sweeps_eq] at next
    exact ⟨t, symbol, h, run, hsymbol, sweep_eq_error hp run next⟩
  · rw [h.system_eq] at regular
    exact absurd zero regular

/-! ## What is written -/

/-- The values that updating some positions stores, in order. -/
def writes (s : Solver R) : List Nat → List (Nat × R)
  | [] => []
  | position :: rest =>
    match s.update position with
    | (.ok value, t) => (position, value) :: t.writes rest
    | (.error _, _) => []

theorem writes_cons_ok {s : Solver R} {p : Nat} {value : R} (h : s.next p = .ok value)
    (rest : List Nat) : s.writes (p :: rest) = (p, value) :: (s.store p value).writes rest := by
  simp only [writes, update, h]

/-- Nothing but the writes tells the state after some updates from the state before. -/
theorem updateAll_eq_writes (s : Solver R) (positions : List Nat) :
    (s.updateAll positions).2
      = (s.writes positions).foldl (fun t w => t.store w.1 w.2) s := by
  induction positions generalizing s with
  | nil => rfl
  | cons p rest ih =>
    cases next : s.next p with
    | ok value =>
      rw [updateAll_cons_ok next, writes_cons_ok next]
      exact ih (s.store p value)
    | error e => simp only [updateAll_cons_error next, writes, update, next, List.foldl_nil]

theorem updateAll_frame (s : Solver R) {positions : List Nat} {j : Nat} (h : j ∉ positions) :
    (s.updateAll positions).2.approximation.values[j]? = s.approximation.values[j]? := by
  induction positions generalizing s with
  | nil => rfl
  | cons p rest ih =>
    obtain ⟨ne, h⟩ := not_or.mp (mt List.mem_cons.mpr h)
    cases next : s.next p with
    | error e => rw [updateAll_cons_error next]
    | ok value =>
      rw [updateAll_cons_ok next, ih (s.store p value) h]
      exact List.getElem?_set_ne (Ne.symm ne)

/-- If no position is updated twice, what is written there is what stands there at the end. -/
theorem writes_match {s t : Solver R} {positions : List Nat}
    (run : s.updateAll positions = (.ok (), t)) (distinct : positions.Nodup)
    (bound : ∀ p ∈ positions, p < s.approximation.values.length) :
    List.Forall₂ (fun p w => w.1 = p ∧ t.approximation.values[p]? = some w.2)
      positions (s.writes positions) := by
  induction positions generalizing s with
  | nil => exact .nil
  | cons p rest ih =>
    obtain ⟨fresh, distinct⟩ := List.nodup_cons.mp distinct
    obtain ⟨hp, bound⟩ := List.forall_mem_cons.mp bound
    cases next : s.next p with
    | error e =>
      rw [updateAll_cons_error next] at run
      cases run
    | ok value =>
      rw [updateAll_cons_ok next] at run
      have stays := updateAll_frame (s.store p value) fresh
      rw [run] at stays
      rw [writes_cons_ok next]
      refine .cons ⟨rfl, ?_⟩ (ih run distinct ?_)
      · rw [stays]
        exact List.getElem?_set_self hp
      · intro q hq
        rw [store, List.length_set]
        exact bound q hq

omit [Scalar R] in
theorem eq_zip_of_match {values : List R} {written : List (Nat × R)}
    (h : List.Forall₂ (fun p w => w.1 = p ∧ values[p]? = some w.2)
      (List.range values.length) written) :
    written = (List.range values.length).zip values := by
  have length := h.length_eq
  rw [List.length_range] at length
  apply List.ext_getElem
  · rw [List.length_zip, List.length_range, Nat.min_self, length]
  · intro i hi _
    have hi' : i < values.length := length ▸ hi
    obtain ⟨position, value⟩ := h.get (by simpa using hi') hi
    simp only [List.get_eq_getElem, List.getElem_range] at position value
    rw [List.getElem?_eq_getElem hi', Option.some.injEq] at value
    rw [List.getElem_zip, List.getElem_range]
    exact Prod.ext position value.symm

/-- Values that satisfy the equations of a sweep are determined from left to right. -/
theorem solved_unique {system : LinearSystem R} {old new new' : List R}
    (length : new.length = new'.length)
    (h : ∀ i < new.length, new[i]? = system.solved? i (mixed old new i))
    (h' : ∀ i < new.length, new'[i]? = system.solved? i (mixed old new' i)) : new = new' := by
  apply List.ext_getElem?
  intro i
  induction i using Nat.strongRecOn with
  | ind i ih =>
    by_cases hi : i < new.length
    · rw [h i hi, h' i hi, mixed_congr ih]
    · rw [List.getElem?_eq_none (Nat.le_of_not_lt hi),
        List.getElem?_eq_none (length ▸ Nat.le_of_not_lt hi)]

/-- A sweep changes nothing exactly when every equation gives back the value of its variable. -/
theorem Updated.values_eq_iff {t : Solver R} (h : Updated s s.approximation.values.length t) :
    t.approximation.values = s.approximation.values ↔
      ∀ i < s.approximation.values.length,
        s.approximation.values[i]? = s.system.solved? i (valueOf s.approximation.values) := by
  constructor
  · intro same i hi
    have new := h.new i hi
    rwa [same, mixed_self] at new
  · intro solved
    apply solved_unique h.length_eq
    · intro i hi
      exact h.new i (h.length_eq ▸ hi)
    · intro i hi
      rw [mixed_self]
      exact solved i (h.length_eq ▸ hi)

end Solver

namespace LinearSystem

variable {s : LinearSystem Float} {old new : List Float}

/-- The values `new` are those after one sweep from the values `old`, said for all positions at
once: each is its constant less the products of the other terms, added from left to right starting
with the negative zero, over its diagonal. Variables to the left of a position take part in its
sum with their new values, those to the right with their old ones. -/
structure Step (s : LinearSystem Float) (old new : List Float) : Prop where
  length_eq : new.length = s.symbols.length
  value_eq : ∀ i (e : Equation Float) symbol a, s.equations[i]? = some e →
    s.symbols[i]? = some symbol → e.coefficient? symbol = some a →
    new[i]? = some ((e.constant - ((e.others symbol).map fun t =>
      t.coefficient * Solver.mixed old new i (s.symbols.idxOf t.symbol)).foldl (· + ·)
        (.ofBits 0x8000000000000000)) / a)

theorem solved?_of_coefficient {i : Nat} {e : Equation Float} {symbol : String} {a : Float}
    (he : s.equations[i]? = some e) (hsymbol : s.symbols[i]? = some symbol)
    (ha : e.coefficient? symbol = some a) (value : Nat → Float) :
    s.solved? i value = some ((e.constant - ((e.others symbol).map fun t =>
      t.coefficient * value (s.symbols.idxOf t.symbol)).foldl (· + ·)
        (.ofBits 0x8000000000000000)) / a) := by
  simp only [solved?, he, hsymbol, ha, Option.getD_some]
  rfl

theorem step_iff (square : s.IsSquare) (regular : s.Regular) :
    s.Step old new ↔ new.length = s.symbols.length ∧
      ∀ i < new.length, new[i]? = s.solved? i (Solver.mixed old new i) := by
  constructor
  · rintro ⟨length, value⟩
    refine ⟨length, fun i hi => ?_⟩
    obtain ⟨e, symbol, _, he, hsymbol, _⟩ := exists_equation square (length ▸ hi)
    obtain ⟨a, ha, _⟩ := (Option.any_eq_true _ _).mp (regular.hasPivot he hsymbol)
    rw [value i e symbol a he hsymbol ha, solved?_of_coefficient he hsymbol ha]
  · rintro ⟨length, solved⟩
    refine ⟨length, fun i e symbol a he hsymbol ha => ?_⟩
    have hi : i < new.length := length ▸ (List.getElem?_eq_some_iff.mp hsymbol).1
    rw [solved i hi, solved?_of_coefficient he hsymbol ha]

/-- **One sweep.** On a square system without a zero on its diagonal, from any values, a sweep
succeeds and leaves the one list of values that `Step` describes. Each position is written once, in
order, and nothing else is; the snapshot shows these values with the next number. -/
theorem sweep_refines_step (square : s.IsSquare) (regular : s.Regular) (t : Solver Float)
    (same : t.system = s) (length : t.approximation.values.length = s.symbols.length) :
    ∃ new, s.Step t.approximation.values new ∧
      (∀ other, s.Step t.approximation.values other → other = new) ∧
      t.sweep = (.ok ⟨t.sweeps + 1, ⟨t.approximation.symbols, new⟩⟩,
        ⟨s, ⟨t.approximation.symbols, new⟩, t.sweeps + 1⟩) ∧
      t.writes (List.range s.symbols.length) = (List.range s.symbols.length).zip new ∧
      (t.updateAll (List.range s.symbols.length)).2
        = (t.writes (List.range s.symbols.length)).foldl (fun u w => u.store w.1 w.2) t := by
  subst same
  have ready : t.Ready := ⟨square, length⟩
  obtain ⟨u, updated, run, sweep⟩ :=
    Solver.sweep_regular ready fun i hi => regular.not_zeroDiagonal square hi
  have lengthNew : u.approximation.values.length = t.system.symbols.length :=
    updated.length_eq.trans length
  have step : t.system.Step t.approximation.values u.approximation.values :=
    (step_iff square regular).mpr ⟨lengthNew, fun i hi => updated.new i (lengthNew ▸ hi)⟩
  refine ⟨u.approximation.values, step, ?_, ?_, ?_, Solver.updateAll_eq_writes t _⟩
  · intro other h
    obtain ⟨lengthOther, solved⟩ := (step_iff square regular).mp h
    obtain ⟨_, solved'⟩ := (step_iff square regular).mp step
    exact Solver.solved_unique (lengthOther.trans lengthNew.symm) solved
      fun i hi => solved' i (by rwa [lengthNew, ← lengthOther])
  · rw [sweep, ← updated.symbols_eq, ← updated.system_eq]
  · have written := Solver.writes_match run List.nodup_range fun p hp => by
      rw [length]
      exact List.mem_range.mp hp
    rw [← lengthNew] at written ⊢
    exact Solver.eq_zip_of_match written

/-- `y + 4x = 9` and `2x + y = 7`, where `y` has infinity for its value. -/
def swapped : Solver Float where
  system :=
    (ofEquations? [⟨[⟨"y", .ofBits 0x3FF0000000000000⟩, ⟨"x", .ofBits 0x4010000000000000⟩],
        .ofBits 0x4022000000000000, by decide⟩,
      ⟨[⟨"x", .ofBits 0x4000000000000000⟩, ⟨"y", .ofBits 0x3FF0000000000000⟩],
        .ofBits 0x401C000000000000, by decide⟩]).get (by decide +kernel)
  approximation := ⟨["y", "x"], [.ofBits 0x7FF0000000000000, .ofBits 0x3FF0000000000000]⟩
  sweeps := 0

theorem swapped_sweep_refines_step :
    swapped.system.IsSquare ∧ swapped.system.Regular ∧
    swapped.system.Step swapped.approximation.values
      [.ofBits 0x4014000000000000, .ofBits 0x3FF0000000000000] := by
  have square : swapped.system.IsSquare := by decide +kernel
  have regular : swapped.system.Regular := by decide +kernel
  obtain ⟨new, step, _, sweep, _⟩ :=
    sweep_refines_step square regular swapped rfl (by decide +kernel)
  have values : swapped.sweep.2.approximation.values
      = [.ofBits 0x4014000000000000, .ofBits 0x3FF0000000000000] := by decide +kernel
  rw [sweep] at values
  exact ⟨square, regular, values ▸ step⟩

end LinearSystem

end Seidel
