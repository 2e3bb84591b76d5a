import Mathlib.Data.List.Nodup
import Std.Data.TreeMap.Lemmas
import Seidel.System.Basic

/-!
# Symbols and their positions

The loop that numbers symbols grows a list and a map. Each symbol that it adds takes its position
from the length of the list, so that list and map stay inverse to each other, whatever symbols come
(`Inverse.add`, `Inverse.run`). It ends early only when there are more different symbols than
positions (`Inverse.run_eq_none_iff`), and otherwise the list has each symbol where it appears first
(`appearances`).
-/

namespace Seidel

/-- The different symbols, each where it appears first, after those in `known`. -/
def appearances (known : List String) : List String → List String
  | [] => known
  | s :: rest => appearances (if s ∈ known then known else known ++ [s]) rest

/-- The canonical order of the variables of some equations. -/
def symbolsOf {R : Type} (equations : List (Equation R)) : List String :=
  appearances [] (equations.flatMap Equation.symbols)

theorem length_le_appearances (known rest : List String) :
    known.length ≤ (appearances known rest).length := by
  induction rest generalizing known with
  | nil => exact Nat.le_refl _
  | cons s rest ih =>
    apply Nat.le_trans _ (ih _)
    split
    · exact Nat.le_refl _
    · rw [List.length_append]
      exact Nat.le_add_right _ _

theorem getElem?_concat_eq_some_iff {α : Type} {xs : List α} {x a : α} {i : Nat} :
    (xs ++ [x])[i]? = some a ↔ xs[i]? = some a ∨ i = xs.length ∧ x = a := by
  grind

theorem Variable.eq_of_index {v w : Variable} (h : v.index = w.index) : v = w := by
  cases v
  cases w
  cases h
  rfl

theorem Variable.ofIndex?_index (v : Variable) : ofIndex? v.index = some v :=
  dif_pos v.index_lt

theorem Variable.ofIndex?_eq_some_iff {i : Nat} {v : Variable} :
    ofIndex? i = some v ↔ v.index = i := by
  constructor
  · intro h
    unfold ofIndex? at h
    split at h
    · cases h
      rfl
    · cases h
  · rintro rfl
    exact ofIndex?_index v

theorem Variable.ofIndex?_eq_none_iff {i : Nat} : ofIndex? i = none ↔ limit ≤ i := by
  simp [ofIndex?]

namespace Numbering

/-- The list and the map are inverse to each other, and every symbol in the list has a position. -/
structure Inverse (n : Numbering) : Prop where
  lookup_iff : ∀ symbol (v : Variable),
    n.positions[symbol]? = some v ↔ n.symbols[v.index]? = some symbol
  length_le : n.symbols.length ≤ Variable.limit

theorem Inverse.empty : Inverse empty where
  lookup_iff symbol v := by simp [Numbering.empty]
  length_le := Nat.zero_le _

namespace Inverse

variable {n n' : Numbering} {symbol : String}

theorem exists_variable (h : n.Inverse) (mem : symbol ∈ n.symbols) :
    ∃ v, n.positions[symbol]? = some v := by
  obtain ⟨i, hi, rfl⟩ := List.getElem_of_mem mem
  exact ⟨⟨i, Nat.lt_of_lt_of_le hi h.length_le⟩,
    (h.lookup_iff _ _).mpr (List.getElem?_eq_getElem hi)⟩

theorem lookup_eq_none_iff (h : n.Inverse) :
    n.positions[symbol]? = none ↔ symbol ∉ n.symbols := by
  constructor
  · intro none mem
    obtain ⟨v, found⟩ := h.exists_variable mem
    rw [none] at found
    cases found
  · intro absent
    cases found : n.positions[symbol]? with
    | none => rfl
    | some v => exact absurd (List.mem_of_getElem? ((h.lookup_iff _ _).mp found)) absent

theorem contains_iff (h : n.Inverse) : n.positions.contains symbol = true ↔ symbol ∈ n.symbols := by
  rw [← Std.TreeMap.isSome_getElem?_eq_contains, Option.isSome_iff_ne_none, ne_eq,
    h.lookup_eq_none_iff, not_not]

/-- A symbol has one position. -/
theorem nodup (h : n.Inverse) : n.symbols.Nodup := by
  rw [List.nodup_iff_injective_getElem]
  rintro ⟨i, hi⟩ ⟨j, hj⟩ same
  have entry (k : Nat) (hk : k < n.symbols.length) :
      n.positions[n.symbols[k]]? = some ⟨k, Nat.lt_of_lt_of_le hk h.length_le⟩ :=
    (h.lookup_iff _ _).mpr (List.getElem?_eq_getElem hk)
  have found := entry i hi
  rw [show n.symbols[i] = n.symbols[j] from same, entry j hj] at found
  cases found
  rfl

/-! ## One symbol -/

/-- A symbol that has a position keeps it; another one gets the next, in the list and in the map. -/
theorem add?_cases (h : n.Inverse) (added : n.add? symbol = some n') :
    (symbol ∈ n.symbols ∧ n' = n) ∨
    (symbol ∉ n.symbols ∧ ∃ v : Variable, v.index = n.symbols.length ∧
      n' = ⟨n.symbols ++ [symbol], n.positions.insert symbol v⟩) := by
  unfold add? at added
  split at added
  · rename_i known
    exact .inl ⟨h.contains_iff.mp known, (Option.some.inj added).symm⟩
  · rename_i fresh
    obtain ⟨v, hv, rfl⟩ := Option.map_eq_some_iff.mp added
    exact .inr ⟨mt h.contains_iff.mpr fresh, v, Variable.ofIndex?_eq_some_iff.mp hv, rfl⟩

theorem add?_eq_none_iff (h : n.Inverse) :
    n.add? symbol = none ↔ symbol ∉ n.symbols ∧ Variable.limit ≤ n.symbols.length := by
  rw [← h.contains_iff]
  unfold add?
  split
  · rename_i known
    simp [known]
  · rename_i fresh
    simp [fresh, Variable.ofIndex?_eq_none_iff]

/-- One symbol more, and list and map are inverse to each other again. -/
theorem add (h : n.Inverse) (added : n.add? symbol = some n') : n'.Inverse := by
  rcases h.add?_cases added with ⟨_, rfl⟩ | ⟨fresh, new, last, rfl⟩
  · exact h
  · refine ⟨fun other v => ?_, ?_⟩
    · rw [Std.TreeMap.getElem?_insert, getElem?_concat_eq_some_iff, ← h.lookup_iff other v]
      by_cases same : symbol = other
      · subst same
        have absent := h.lookup_eq_none_iff.mpr fresh
        rw [if_pos (by simp), absent, Option.some.injEq]
        constructor
        · rintro rfl
          exact .inr ⟨last, rfl⟩
        · rintro (found | ⟨index, _⟩)
          · cases found
          · exact Variable.eq_of_index (last.trans index.symm)
      · simp [same]
    · rw [List.length_append, List.length_singleton, ← last]
      exact new.index_lt

theorem symbols_add (h : n.Inverse) (added : n.add? symbol = some n') :
    n'.symbols = if symbol ∈ n.symbols then n.symbols else n.symbols ++ [symbol] := by
  rcases h.add?_cases added with ⟨known, rfl⟩ | ⟨fresh, _, _, rfl⟩
  · rw [if_pos known]
  · rw [if_neg fresh]

/-! ## Any symbols -/

variable {symbols : List String}

/-- Whatever symbols come, list and map stay inverse to each other. -/
theorem run (h : n.Inverse) (ran : symbols.foldlM add? n = some n') : n'.Inverse := by
  induction symbols generalizing n with
  | nil =>
    cases ran
    exact h
  | cons symbol rest ih =>
    obtain ⟨next, added, ran⟩ := Option.bind_eq_some_iff.mp ran
    exact ih (h.add added) ran

theorem symbols_run (h : n.Inverse) (ran : symbols.foldlM add? n = some n') :
    n'.symbols = appearances n.symbols symbols := by
  induction symbols generalizing n with
  | nil =>
    cases ran
    rfl
  | cons symbol rest ih =>
    obtain ⟨next, added, ran⟩ := Option.bind_eq_some_iff.mp ran
    rw [ih (h.add added) ran, h.symbols_add added, appearances]

/-- Only a symbol that is new when all positions are taken ends the loop. -/
theorem run_eq_none_iff (h : n.Inverse) :
    symbols.foldlM add? n = none ↔ Variable.limit < (appearances n.symbols symbols).length := by
  induction symbols generalizing n with
  | nil => simpa [appearances] using h.length_le
  | cons symbol rest ih =>
    rw [List.foldlM_cons, Option.bind_eq_bind, appearances]
    cases added : n.add? symbol with
    | none =>
      obtain ⟨fresh, full⟩ := h.add?_eq_none_iff.mp added
      have longer := length_le_appearances (n.symbols ++ [symbol]) rest
      rw [List.length_append, List.length_singleton] at longer
      rw [if_neg fresh]
      exact ⟨fun _ => by omega, fun _ => rfl⟩
    | some next => rw [Option.bind_some, ih (h.add added), h.symbols_add added]

end Inverse

variable {R : Type} {equations : List (Equation R)} {n : Numbering}

theorem inverse_of_ofEquations? (h : ofEquations? equations = some n) : n.Inverse :=
  Inverse.empty.run h

theorem symbols_of_ofEquations? (h : ofEquations? equations = some n) :
    n.symbols = symbolsOf equations :=
  Inverse.empty.symbols_run h

theorem ofEquations?_eq_none_iff :
    ofEquations? equations = none ↔ Variable.limit < (symbolsOf equations).length :=
  Inverse.empty.run_eq_none_iff

end Numbering

namespace LinearSystem

variable {R : Type} (s : LinearSystem R)

theorem inverse : s.toNumbering.Inverse :=
  Numbering.inverse_of_ofEquations? s.numbered

theorem symbols_eq : s.symbols = symbolsOf s.equations :=
  Numbering.symbols_of_ofEquations? s.numbered

end LinearSystem

end Seidel
