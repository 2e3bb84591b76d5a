/-!
Linear equations. The left-hand side is a list of terms in the order they were written, no variable
twice; the right-hand side is a constant.

Main statement: no variable is found to be repeated exactly when none is
(`firstRepeated?_eq_none_iff`), so whatever `ofTerms` accepts keeps the promise of the type.
-/

namespace Seidel

/-- A variable with its coefficient. -/
structure Term (R : Type) where
  symbol : String
  coefficient : R
  deriving DecidableEq, Repr

/-- `c₁ v₁ + c₂ v₂ + … = constant`, no variable twice. -/
structure Equation (R : Type) where
  terms : List (Term R)
  constant : R
  distinct : (terms.map Term.symbol).Nodup
  deriving DecidableEq, Repr

/-- The leftmost entry that equals an earlier one, `seen` counting as earlier. -/
def firstRepeated? (seen : List String) : List String → Option String
  | [] => none
  | s :: rest => if s ∈ seen then some s else firstRepeated? (s :: seen) rest

theorem firstRepeated?_eq_none_iff {seen symbols : List String} :
    firstRepeated? seen symbols = none ↔ symbols.Nodup ∧ ∀ s ∈ symbols, s ∉ seen := by
  induction symbols generalizing seen with
  | nil => simp [firstRepeated?]
  | cons s rest ih =>
    by_cases h : s ∈ seen
    · simp [firstRepeated?, h]
    · simp only [firstRepeated?, h, ↓reduceIte, ih, List.nodup_cons, List.mem_cons,
        forall_eq_or_imp, not_or]
      grind

/-- A variable that has several terms. -/
structure DuplicateVariable where
  symbol : String
  deriving DecidableEq, Repr

namespace Equation

variable {R : Type}

/-- The equation with these terms, or the variable that is repeated first. -/
def ofTerms (terms : List (Term R)) (constant : R) :
    Except DuplicateVariable (Equation R) :=
  match h : firstRepeated? [] (terms.map Term.symbol) with
  | some symbol => .error ⟨symbol⟩
  | none => .ok ⟨terms, constant, (firstRepeated?_eq_none_iff.mp h).1⟩

theorem of_ofTerms {terms : List (Term R)} {constant : R} {e : Equation R}
    (h : ofTerms terms constant = .ok e) : e.terms = terms ∧ e.constant = constant := by
  unfold ofTerms at h
  split at h
  · cases h
  · cases h
    exact ⟨rfl, rfl⟩

theorem ofTerms_eq_ok {terms : List (Term R)} {constant : R}
    (distinct : (terms.map Term.symbol).Nodup) :
    ofTerms terms constant = .ok ⟨terms, constant, distinct⟩ := by
  have none := firstRepeated?_eq_none_iff.mpr ⟨distinct, fun s _ => List.not_mem_nil⟩
  unfold ofTerms
  split
  · rename_i some
    rw [none] at some
    cases some
  · rfl

/-- The variables, in the order of their terms. -/
def symbols (e : Equation R) : List String :=
  e.terms.map Term.symbol

/-- The coefficient of a variable, none when the equation does not mention it. -/
def coefficient? (e : Equation R) (symbol : String) : Option R :=
  (e.terms.find? (·.symbol == symbol)).map Term.coefficient

end Equation

end Seidel
