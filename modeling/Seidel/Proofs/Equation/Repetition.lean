import Seidel.Proofs.System.Terms

/-!
# The variable that is repeated first

Terms make an equation exactly when no variable has several of them. Otherwise the variable that is
named stands at the first position that repeats an earlier one (`firstRepeated?_eq_some_iff`). In an
equation a coefficient is that of the only term on its variable, wherever the term stands.
-/

namespace Seidel

/-- `symbol` stands at `position` and before it; no position before it repeats an earlier one. What
is in `seen` counts as earlier. -/
structure FirstRepetition (seen symbols : List String) (position : Nat) (symbol : String) :
    Prop where
  here : symbols[position]? = some symbol
  earlier : symbol ∈ seen ++ symbols.take position
  first : ∀ i a, i < position → symbols[i]? = some a → a ∉ seen ++ symbols.take i

namespace FirstRepetition

variable {seen symbols : List String} {position : Nat} {head symbol : String}

theorem not_nil : ¬ FirstRepetition seen [] position symbol := by
  intro h
  cases h.here

theorem zero_iff :
    FirstRepetition seen (head :: symbols) 0 symbol ↔ head = symbol ∧ head ∈ seen := by
  constructor
  · intro h
    obtain rfl : head = symbol := Option.some.inj h.here
    exact ⟨rfl, by simpa using h.earlier⟩
  · rintro ⟨rfl, mem⟩
    exact ⟨rfl, List.mem_append_left _ mem, fun i _ lt => absurd lt (Nat.not_lt_zero i)⟩

theorem succ_iff : FirstRepetition seen (head :: symbols) (position + 1) symbol ↔
    head ∉ seen ∧ FirstRepetition (head :: seen) symbols position symbol := by
  have moved (i : Nat) (a : String) :
      a ∈ seen ++ (head :: symbols).take (i + 1) ↔ a ∈ (head :: seen) ++ symbols.take i := by
    simp only [List.take_succ_cons, List.mem_append, List.mem_cons]
    exact or_left_comm.trans or_assoc.symm
  constructor
  · intro h
    have fresh : head ∉ seen := by simpa using h.first 0 head (Nat.succ_pos position) rfl
    refine ⟨fresh, h.here, (moved position symbol).mp h.earlier, fun i a lt ha mem => ?_⟩
    exact h.first (i + 1) a (Nat.succ_lt_succ lt) ha ((moved i a).mpr mem)
  · rintro ⟨fresh, h⟩
    refine ⟨h.here, (moved position symbol).mpr h.earlier, fun i a lt ha mem => ?_⟩
    cases i with
    | zero =>
      obtain rfl : head = a := Option.some.inj ha
      exact fresh (by simpa using mem)
    | succ i => exact h.first i a (Nat.lt_of_succ_lt_succ lt) ha ((moved i a).mp mem)

end FirstRepetition

theorem firstRepeated?_eq_some_iff {seen symbols : List String} {symbol : String} :
    firstRepeated? seen symbols = some symbol ↔
      ∃ position, FirstRepetition seen symbols position symbol := by
  induction symbols generalizing seen with
  | nil => simp [firstRepeated?, FirstRepetition.not_nil]
  | cons head rest ih =>
    rw [← Nat.or_exists_add_one]
    simp only [FirstRepetition.zero_iff, FirstRepetition.succ_iff]
    by_cases h : head ∈ seen
    · simp [firstRepeated?, h]
    · simp [firstRepeated?, h, ih]

namespace Equation

variable {R : Type}

theorem ofTerms_eq_error_iff {terms : List (Term R)} {constant : R} {symbol : String} :
    ofTerms terms constant = .error ⟨symbol⟩ ↔
      ∃ position, FirstRepetition [] (terms.map Term.symbol) position symbol := by
  rw [← firstRepeated?_eq_some_iff]
  unfold ofTerms
  split
  · rename_i found
    simp [found]
  · rename_i none
    simp [none]

/-- **An equation has one term for a variable.** Terms are accepted, and kept as they are, exactly
when no variable is repeated; the error names the variable at the first position that repeats an
earlier one. The coefficient of a variable is the one that a term gives it, in whatever order the
terms are. -/
theorem ofTerms_decides (terms : List (Term R)) (constant : R) :
    ((∃ e, ofTerms terms constant = .ok e) ↔ (terms.map Term.symbol).Nodup) ∧
    (∀ symbol, ofTerms terms constant = .error ⟨symbol⟩ ↔
      ∃ position, FirstRepetition [] (terms.map Term.symbol) position symbol) ∧
    ∀ e, ofTerms terms constant = .ok e →
      e.terms = terms ∧ e.constant = constant ∧
      (∀ symbol c, e.coefficient? symbol = some c ↔ ⟨symbol, c⟩ ∈ terms) ∧
      ∀ terms', terms'.Perm terms → ∃ e', ofTerms terms' constant = .ok e' ∧
        ∀ symbol, e'.coefficient? symbol = e.coefficient? symbol := by
  refine ⟨⟨?_, fun distinct => ⟨_, ofTerms_eq_ok distinct⟩⟩, fun _ => ofTerms_eq_error_iff, ?_⟩
  · rintro ⟨e, h⟩
    rw [← (of_ofTerms h).1]
    exact e.distinct
  · intro e h
    obtain ⟨kept, same⟩ := of_ofTerms h
    have coefficients (symbol : String) (c : R) :
        e.coefficient? symbol = some c ↔ ⟨symbol, c⟩ ∈ terms := by
      rw [coefficient?_eq_some_iff, kept]
    refine ⟨kept, same, coefficients, fun terms' perm => ?_⟩
    have distinct : (terms'.map Term.symbol).Nodup := by
      rw [(perm.map Term.symbol).nodup_iff, ← kept]
      exact e.distinct
    refine ⟨_, ofTerms_eq_ok distinct, fun symbol => Option.ext fun c => ?_⟩
    rw [coefficient?_eq_some_iff, coefficients, perm.mem_iff]

/-- A term with coefficient two for each symbol. -/
def doubles (symbols : List String) : List (Term Float) :=
  symbols.map (⟨·, .ofBits 0x4000000000000000⟩)

/-- Of two variables that occur twice, the one that is repeated first is named, though the other
occurs first. Without the repetitions the order of the terms does not matter. -/
theorem doubles_ofTerms_decides :
    ofTerms (doubles ["x", "y", "z", "y", "x"]) (.ofBits 0) = .error ⟨"y"⟩ ∧
    ∃ e e', ofTerms (doubles ["x", "y", "z"]) (.ofBits 0) = .ok e ∧
      ofTerms (doubles ["z", "x", "y"]) (.ofBits 0) = .ok e' ∧
      ∀ symbol, e'.coefficient? symbol = e.coefficient? symbol := by
  have repetition : FirstRepetition [] ["x", "y", "z", "y", "x"] 3 "y" := by
    refine ⟨rfl, by decide, fun i a lt ha => ?_⟩
    obtain rfl | rfl | rfl : i = 0 ∨ i = 1 ∨ i = 2 := by omega
    all_goals
      obtain rfl := Option.some.inj ha
      decide
  obtain ⟨accepted, _, kept⟩ := ofTerms_decides (doubles ["x", "y", "z"]) (.ofBits 0)
  obtain ⟨e, he⟩ := accepted.mpr (by decide)
  obtain ⟨_, _, _, permuted⟩ := kept e he
  obtain ⟨e', he', same⟩ := permuted (doubles ["z", "x", "y"]) (by decide)
  refine ⟨?_, e, e', he, he', same⟩
  exact ((ofTerms_decides _ _).2.1 "y").mpr ⟨3, repetition⟩

end Equation

end Seidel
