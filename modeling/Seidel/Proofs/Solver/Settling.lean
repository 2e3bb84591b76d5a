import Mathlib.Data.Finset.Card
import Mathlib.Logic.Relation
import Seidel.Proofs.Exact.FixedPoints
import Seidel.Proofs.Solver.Trajectory

/-!
# Acyclic systems settle

If no variable depends on itself through other equations, all values are final after as many sweeps
as there are variables, whatever they were before (`acyclic_settles`). A position settles once those
that it depends on have settled: in the same sweep if they stand before it, one sweep later if they
stand behind it (`Schedule`). Both facts about how soon come from one induction along the
dependencies (`Schedule.agree`).
-/

namespace Seidel

namespace LinearSystem

variable {R : Type} {s : LinearSystem R}

/-! ## Dependencies -/

/-- No variable depends on itself through others. -/
def Acyclic (s : LinearSystem R) : Prop :=
  ∀ i, ¬ Relation.TransGen s.DependsOn i i

/-- Every equation mentions only variables up to its own. -/
def LowerTriangular (s : LinearSystem R) : Prop :=
  ∀ i j, s.Mentions i j → j ≤ i

/-- A number that falls along dependencies excludes cycles. -/
theorem acyclic_of_depth (depth : Nat → Nat)
    (falls : ∀ i j, s.DependsOn i j → depth j < depth i) : s.Acyclic := by
  intro i cycle
  have lower : ∀ j, Relation.TransGen s.DependsOn i j → depth j < depth i := by
    intro j reaches
    induction reaches with
    | single step => exact falls _ _ step
    | tail _ step ih => exact Nat.lt_trans (falls _ _ step) ih
  exact Nat.lt_irrefl _ (lower i cycle)

/-- Without cycles, the number of variables that one depends on falls along dependencies. -/
theorem Acyclic.exists_depth (acyclic : s.Acyclic) :
    ∃ depth : Nat → Nat, (∀ i j, s.DependsOn i j → depth j < depth i) ∧
      ∀ i < s.symbols.length, depth i < s.symbols.length := by
  classical
  let below (i : Nat) : Finset Nat :=
    (Finset.range s.symbols.length).filter fun j => Relation.TransGen s.DependsOn i j
  have self (i : Nat) : i ∉ below i := fun mem => acyclic i (Finset.mem_filter.mp mem).2
  refine ⟨fun i => (below i).card, ?_, ?_⟩
  · intro i j step
    apply Finset.card_lt_card
    have mem : j ∈ below i :=
      Finset.mem_filter.mpr ⟨Finset.mem_range.mpr step.2.lt.2, .single step⟩
    have subset : below j ⊆ below i := by
      intro k hk
      obtain ⟨hk, reaches⟩ := Finset.mem_filter.mp hk
      exact Finset.mem_filter.mpr ⟨hk, reaches.head step⟩
    exact (Finset.ssubset_iff_of_subset subset).mpr ⟨j, mem, self j⟩
  · intro i hi
    have proper : below i ⊂ Finset.range s.symbols.length :=
      (Finset.ssubset_iff_of_subset (Finset.filter_subset _ _)).mpr
        ⟨i, Finset.mem_range.mpr hi, self i⟩
    have fewer := Finset.card_lt_card proper
    rwa [Finset.card_range] at fewer

/-! ## Delays -/

/-- Position `i` is final after one sweep more than `delay i`: whatever it depends on is final by
then, in the same sweep or one sweep before. -/
structure Schedule (s : LinearSystem R) (delay : Nat → Nat) : Prop where
  acyclic : s.Acyclic
  before : ∀ i j, s.DependsOn i j → j < i → delay j ≤ delay i
  behind : ∀ i j, s.DependsOn i j → i < j → delay j < delay i

theorem Acyclic.exists_schedule (acyclic : s.Acyclic) :
    ∃ delay, s.Schedule delay ∧ ∀ i < s.symbols.length, delay i < s.symbols.length := by
  obtain ⟨depth, falls, bound⟩ := acyclic.exists_depth
  refine ⟨depth, ⟨acyclic, ?_, ?_⟩, bound⟩
  · intro i j step _
    exact Nat.le_of_lt (falls i j step)
  · intro i j step _
    exact falls i j step

theorem LowerTriangular.lt (triangular : s.LowerTriangular) {i j : Nat} (step : s.DependsOn i j) :
    j < i :=
  Nat.lt_of_le_of_ne (triangular i j step.2) (Ne.symm step.1)

theorem LowerTriangular.schedule (triangular : s.LowerTriangular) : s.Schedule fun _ => 0 := by
  refine ⟨?_, ?_, ?_⟩
  · exact acyclic_of_depth id fun i j step => triangular.lt step
  · intro i j _ _
    exact Nat.le_refl 0
  · intro i j step behind
    exact absurd (triangular.lt step) (Nat.lt_asymm behind)

variable [Scalar R]

/-- Positions that have settled hold the same values in any two runs. -/
theorem Schedule.agree {delay : Nat → Nat} (schedule : s.Schedule delay)
    (regular : ∀ i < s.symbols.length, ¬ s.ZeroDiagonal i) {t u : Solver R} (ht : t.Ready)
    (hu : u.Ready) (same : t.system = s) (same' : u.system = s) {i m n : Nat}
    (hi : i < s.symbols.length) (hm : delay i < m) (hn : delay i < n) :
    (t.valuesAfter m)[i]? = (u.valuesAfter n)[i]? := by
  obtain ⟨depth, falls, _⟩ := schedule.acyclic.exists_depth
  induction level : depth i using Nat.strongRecOn generalizing i m n with
  | ind _ ih =>
    subst level
    obtain ⟨m, rfl⟩ := Nat.exists_eq_succ_of_ne_zero (Nat.ne_zero_of_lt hm)
    obtain ⟨n, rfl⟩ := Nat.exists_eq_succ_of_ne_zero (Nat.ne_zero_of_lt hn)
    have first := Solver.valuesAfter_advances ht (same ▸ regular) m
    have second := Solver.valuesAfter_advances hu (same' ▸ regular) n
    rw [same] at first
    rw [same'] at second
    rw [first.solved i hi, second.solved i hi]
    apply solved?_congr
    intro j step
    have settled (p q : Nat) (hp : delay j < p) (hq : delay j < q) :
        (t.valuesAfter p)[j]? = (u.valuesAfter q)[j]? :=
      ih (depth j) (falls i j step) step.2.lt.2 hp hq rfl
    unfold Solver.mixed Solver.valueOf
    by_cases lt : j < i
    · have waits := schedule.before i j step lt
      rw [if_pos lt, if_pos lt, settled (m + 1) (n + 1) (by omega) (by omega)]
    · have waits := schedule.behind i j step (Nat.lt_of_le_of_ne (Nat.le_of_not_lt lt) step.1)
      rw [if_neg lt, if_neg lt, settled m n (by omega) (by omega)]

/-! ## Final values -/

/-- From any values, `count` sweeps lead to the values `final`, and no further sweep changes
them. -/
structure Settles (s : LinearSystem R) (count : Nat) (final : List R) : Prop where
  length_eq : final.length = s.symbols.length
  run_eq : ∀ t : Solver R, t.system = s → t.approximation.values.length = s.symbols.length →
    ∀ n, count ≤ n → ∃ delivered,
      t.run n = ⟨delivered, .ok ⟨t.approximation.symbols, final⟩⟩ ∧ delivered.length = n ∧
      ∀ k x, delivered[k]? = some x → count ≤ k + 1 →
        x.approximation = ⟨t.approximation.symbols, final⟩

/-- A single run shows the final values. -/
theorem Settles.final_eq {count : Nat} {final values : List R} (h : s.Settles count final)
    (square : s.IsSquare) (run : (s.run count).result = .ok ⟨s.symbols, values⟩) :
    final = values := by
  obtain ⟨_, settled, _⟩ :=
    h.run_eq ⟨s, .zeros s.symbols, 0⟩ rfl List.length_replicate count (Nat.le_refl count)
  rw [run_of_square square, settled] at run
  cases run
  rfl

namespace Schedule

variable {delay : Nat → Nat} {count : Nat}

theorem valuesAfter_eq (schedule : s.Schedule delay) (square : s.IsSquare)
    (regular : ∀ i < s.symbols.length, ¬ s.ZeroDiagonal i)
    (within : ∀ i < s.symbols.length, delay i < count) {t : Solver R} (ready : t.Ready)
    (same : t.system = s) {n : Nat} (hn : count ≤ n) : t.valuesAfter n = s.iterate count := by
  apply List.ext_getElem?
  intro i
  by_cases hi : i < s.symbols.length
  · have waits := within i hi
    exact schedule.agree regular ready (ready_zeros square) same rfl hi (by omega) waits
  · have length : (t.valuesAfter n).length = s.symbols.length := by
      have last := (Solver.after_eq ready (same ▸ regular) n).2.values_length
      rwa [(Solver.after_eq ready (same ▸ regular) n).1, same] at last
    rw [List.getElem?_eq_none (by omega),
      List.getElem?_eq_none (by rw [length_iterate square regular]; omega)]

theorem settles (schedule : s.Schedule delay) (square : s.IsSquare)
    (regular : ∀ i < s.symbols.length, ¬ s.ZeroDiagonal i)
    (within : ∀ i < s.symbols.length, delay i < count) : s.Settles count (s.iterate count) := by
  refine ⟨length_iterate square regular count, ?_⟩
  intro t same length n hn
  have ready : t.Ready := ⟨same ▸ square, same ▸ length⟩
  have final {n : Nat} (hn : count ≤ n) : t.valuesAfter n = s.iterate count :=
    schedule.valuesAfter_eq square regular within ready same hn
  have run := Solver.run_eq_valuesAfter (n := n) ready (.inr (same ▸ regular))
  rw [final hn] at run
  refine ⟨_, run, by simp, ?_⟩
  intro k x hx hk
  obtain ⟨_, rfl⟩ := List.getElem?_eq_some_iff.mp hx
  simp [final hk]

end Schedule

/-- With exact arithmetic, values that have settled solve the equations. -/
theorem Schedule.solves {s : LinearSystem Rat} {delay : Nat → Nat} {count : Nat}
    (schedule : s.Schedule delay) (square : s.IsSquare)
    (regular : ∀ i < s.symbols.length, ¬ s.ZeroDiagonal i)
    (within : ∀ i < s.symbols.length, delay i < count) :
    ∀ e ∈ s.equations, e.leftHandSide (s.valueOfSymbol (s.iterate count)) = e.constant := by
  have length := length_iterate square regular count
  have still : s.iterate (count + 1) = s.iterate count :=
    schedule.valuesAfter_eq square regular within (ready_zeros square) rfl (Nat.le_succ count)
  have advances := iterate_advances square regular count
  rw [still] at advances
  apply (solved_iff_holds square regular length).mp
  intro i hi
  rw [advances.solved i (length ▸ hi), Solver.mixed_self]

/-- **Acyclic systems settle.** On a square system without a zero on its diagonal and without a
cycle of dependencies, the values are final after as many sweeps as there are variables, and are
the same from any start. If every equation mentions only variables up to its own, one sweep is
enough. With exact arithmetic the final values satisfy every equation. -/
theorem acyclic_settles :
    (∀ s : LinearSystem Float, s.IsSquare → s.Regular →
      (s.Acyclic → ∃ final, s.Settles s.symbols.length final) ∧
      (s.LowerTriangular → ∃ final, s.Settles 1 final)) ∧
    ∀ s : LinearSystem Rat, s.IsSquare → (∀ i < s.symbols.length, ¬ s.ZeroDiagonal i) →
      (s.Acyclic → ∃ final, s.Settles s.symbols.length final ∧
        ∀ e ∈ s.equations, e.leftHandSide (s.valueOfSymbol final) = e.constant) ∧
      (s.LowerTriangular → ∃ final, s.Settles 1 final ∧
        ∀ e ∈ s.equations, e.leftHandSide (s.valueOfSymbol final) = e.constant) := by
  constructor
  · intro s square nonzero
    have regular := fun i hi => nonzero.not_zeroDiagonal (i := i) square hi
    constructor
    · intro acyclic
      obtain ⟨delay, schedule, within⟩ := acyclic.exists_schedule
      exact ⟨_, schedule.settles square regular within⟩
    · intro triangular
      exact ⟨_, triangular.schedule.settles square regular fun _ _ => Nat.one_pos⟩
  · intro s square regular
    constructor
    · intro acyclic
      obtain ⟨delay, schedule, within⟩ := acyclic.exists_schedule
      exact ⟨_, schedule.settles square regular within, schedule.solves square regular within⟩
    · intro triangular
      have within : ∀ i < s.symbols.length, 0 < 1 := fun _ _ => Nat.one_pos
      exact ⟨_, triangular.schedule.settles square regular within,
        triangular.schedule.solves square regular within⟩

/-- `2x + z = 7`, `z - y = 1` and `2y = 4`. -/
def cascade : LinearSystem Float :=
  (ofEquations? [⟨[⟨"x", .ofBits 0x4000000000000000⟩, ⟨"z", .ofBits 0x3FF0000000000000⟩],
      .ofBits 0x401C000000000000, by decide⟩,
    ⟨[⟨"z", .ofBits 0x3FF0000000000000⟩, ⟨"y", .ofBits 0xBFF0000000000000⟩],
      .ofBits 0x3FF0000000000000, by decide⟩,
    ⟨[⟨"y", .ofBits 0x4000000000000000⟩], .ofBits 0x4010000000000000, by decide⟩]).get
    (by decide +kernel)

/-- `2x = 1` and `3x + y = 2`. -/
def staircase : LinearSystem Rat :=
  (ofEquations? [⟨[⟨"x", 2⟩], 1, by decide⟩, ⟨[⟨"x", 3⟩, ⟨"y", 1⟩], 2, by decide⟩]).get
    (by decide +kernel)

theorem cascade_acyclic : cascade.Acyclic := by
  have equations : cascade.equations.length = 3 := by decide +kernel
  have symbols : cascade.symbols.length = 3 := by decide +kernel
  have falls : ∀ i < 3, ∀ j < 3, cascade.DependsOn i j → 2 - j < 2 - i := by decide +kernel
  apply acyclic_of_depth (2 - ·)
  intro i j step
  obtain ⟨hi, hj⟩ := step.2.lt
  exact falls i (equations ▸ hi) j (symbols ▸ hj) step

theorem staircase_lowerTriangular : staircase.LowerTriangular := by
  have equations : staircase.equations.length = 2 := by decide +kernel
  have symbols : staircase.symbols.length = 2 := by decide +kernel
  have ordered : ∀ i < 2, ∀ j < 2, staircase.Mentions i j → j ≤ i := by decide +kernel
  intro i j mentions
  obtain ⟨hi, hj⟩ := mentions.lt
  exact ordered i (equations ▸ hi) j (symbols ▸ hj) mentions

/-- `y` is final after one sweep, `z` after two and `x` after three. -/
theorem cascade_settles :
    cascade.IsSquare ∧ cascade.Regular ∧ cascade.Acyclic ∧
    cascade.Settles 3
      [.ofBits 0x4000000000000000, .ofBits 0x4008000000000000, .ofBits 0x4000000000000000] ∧
    staircase.IsSquare ∧ staircase.LowerTriangular ∧ staircase.Settles 1 [1 / 2, 1 / 2] := by
  have square : cascade.IsSquare := by decide +kernel
  have regular : cascade.Regular := by decide +kernel
  have square' : staircase.IsSquare := by decide +kernel
  have regular' : ∀ i < staircase.symbols.length, ¬ staircase.ZeroDiagonal i := by decide +kernel
  obtain ⟨final, settles⟩ := (acyclic_settles.1 cascade square regular).1 cascade_acyclic
  obtain ⟨final', settles', _⟩ :=
    (acyclic_settles.2 staircase square' regular').2 staircase_lowerTriangular
  have values : final
      = [.ofBits 0x4000000000000000, .ofBits 0x4008000000000000, .ofBits 0x4000000000000000] :=
    settles.final_eq square (by decide +kernel)
  have values' : final' = [1 / 2, 1 / 2] := settles'.final_eq square' (by decide +kernel)
  exact ⟨square, regular, cascade_acyclic, values ▸ settles, square', staircase_lowerTriangular,
    values' ▸ settles'⟩

end LinearSystem

end Seidel
