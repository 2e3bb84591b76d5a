import Mathlib.Algebra.Group.Nat.Defs
import Mathlib.Data.Finset.Card
import Mathlib.Data.List.Basic
import Seidel.Proofs.System.Rows

/-!
# Numbering the variables

The variables of some equations have one canonical order: each symbol once, where it appears first
(`CanonicalOrder`, `CanonicalOrder.unique`). A system keeps its equations as they are and numbers
their variables in that order; only the number of different symbols can prevent it. Its rows are
read from the map, which is inverse to the order at the end of the loop, so that every symbol of an
equation is found there and at its own position (`ofEquations?_numbers`).
-/

namespace Seidel

variable {R : Type}

/-- The symbols that some equations mention, each once, in order of first appearance. -/
structure CanonicalOrder (equations : List (Equation R)) (symbols : List String) : Prop where
  nodup : symbols.Nodup
  mem_iff : ∀ symbol, symbol ∈ symbols ↔ ∃ e ∈ equations, symbol ∈ e.symbols
  ordered : symbols.Pairwise fun a b =>
    (equations.flatMap Equation.symbols).idxOf a < (equations.flatMap Equation.symbols).idxOf b

namespace CanonicalOrder

variable {equations : List (Equation R)} {symbols symbols' : List String}

theorem unique (h : CanonicalOrder equations symbols) (h' : CanonicalOrder equations symbols') :
    symbols = symbols' := by
  have perm : symbols.Perm symbols' := by
    apply (List.perm_ext_iff_of_nodup h.nodup h'.nodup).mpr
    intro symbol
    rw [h.mem_iff, h'.mem_iff]
  apply perm.eq_of_pairwise _ h.ordered h'.ordered
  intro a b _ _ ab ba
  omega

/-- The canonical order has as many entries as there are different symbols. -/
theorem length_eq (h : CanonicalOrder equations symbols) :
    symbols.length = (equations.flatMap Equation.symbols).toFinset.card := by
  rw [← List.toFinset_card_of_nodup h.nodup]
  congr 1
  ext symbol
  rw [List.mem_toFinset, List.mem_toFinset, h.mem_iff, List.mem_flatMap]

end CanonicalOrder

/-! ## Collecting first appearances -/

section Appearances

variable {known rest : List String}

theorem mem_appearances {symbol : String} :
    symbol ∈ appearances known rest ↔ symbol ∈ known ∨ symbol ∈ rest := by
  induction rest generalizing known with
  | nil => simp [appearances]
  | cons s rest ih =>
    rw [appearances, ih]
    by_cases h : s ∈ known <;> grind

theorem nodup_appearances (h : known.Nodup) : (appearances known rest).Nodup := by
  induction rest generalizing known with
  | nil => exact h
  | cons s rest ih =>
    rw [appearances]
    apply ih
    split
    · exact h
    · rename_i fresh
      exact List.nodup_append.mpr ⟨h, List.nodup_singleton s, by grind⟩

/-- If `known` lists what has been `seen` in order of first appearance, so does the result for
all that follows. -/
theorem ordered_appearances {seen : List String} (same : ∀ s, s ∈ known ↔ s ∈ seen)
    (h : known.Pairwise fun a b => (seen ++ rest).idxOf a < (seen ++ rest).idxOf b) :
    (appearances known rest).Pairwise
      fun a b => (seen ++ rest).idxOf a < (seen ++ rest).idxOf b := by
  induction rest generalizing known seen with
  | nil => exact h
  | cons s rest ih =>
    rw [appearances]
    have shift : seen ++ s :: rest = (seen ++ [s]) ++ rest := List.append_cons seen s rest
    rw [shift] at h ⊢
    apply ih
    · intro a
      by_cases hs : s ∈ known <;> grind
    · split
      · exact h
      · rename_i fresh
        apply List.pairwise_append.mpr
        refine ⟨h, List.pairwise_singleton _ _, fun a ha b hb => ?_⟩
        -- what was seen before stands to the left of the new symbol
        obtain rfl := List.mem_singleton.mp hb
        have ha : a ∈ seen := (same a).mp ha
        have hb : b ∉ seen := fun mem => fresh ((same b).mpr mem)
        rw [← shift, List.idxOf_append_of_mem ha, List.idxOf_append_of_notMem hb]
        exact Nat.lt_add_right _ (List.idxOf_lt_length_iff.mpr ha)

end Appearances

theorem canonicalOrder_symbolsOf (equations : List (Equation R)) :
    CanonicalOrder equations (symbolsOf equations) where
  nodup := nodup_appearances List.nodup_nil
  mem_iff symbol := by rw [symbolsOf, mem_appearances, List.mem_flatMap]; simp
  ordered := @ordered_appearances [] _ [] (fun _ => Iff.rfl) List.Pairwise.nil

/-- In a list without repetitions the search finds every symbol at its own position. -/
theorem idxOf?_of_getElem? {symbols : List String} (nodup : symbols.Nodup) {i : Nat}
    {symbol : String} (h : symbols[i]? = some symbol) : symbols.idxOf? symbol = some i := by
  obtain ⟨lt, eq⟩ := List.getElem?_eq_some_iff.mp h
  apply List.idxOf?_eq_some_iff.mpr
  refine ⟨lt, eq, fun j hj same => ?_⟩
  have := nodup.getElem_inj_iff.mp (same.trans eq.symm)
  omega

/-! ## Assembling a system -/

namespace Row

variable {positions : Std.TreeMap String Variable} {terms : List (Term R)} {row : Row R}

theorem ofTerms?_eq_none_iff :
    ofTerms? positions terms = none ↔
      ∃ symbol ∈ terms.map Term.symbol, positions[symbol]? = none := by
  simp [ofTerms?, mapM_eq_none_iff]

/-- A row is its equation with positions for symbols. -/
theorem entries_match (h : ofTerms? positions terms = some row) :
    List.Forall₂ (fun t p => positions[t.symbol]? = some p.1 ∧ p.2 = t.coefficient) terms row := by
  apply (mapM_eq_some_iff.mp h).imp
  intro t p entry
  obtain ⟨v, hv, rfl⟩ := Option.map_eq_some_iff.mp entry
  exact ⟨hv, rfl⟩

theorem variables_nodup (distinct : row.positions.Nodup) : (row.map Prod.fst).Nodup := by
  apply List.Nodup.of_map Variable.index
  rwa [List.map_map]

end Row

namespace LinearSystem

/-- After the loop every symbol has a position, so that every equation has a row. -/
theorem exists_rows {equations : List (Equation R)} {n : Numbering}
    (numbered : Numbering.ofEquations? equations = some n) :
    ∃ rows, equations.mapM (Row.ofTerms? n.positions ·.terms) = some rows := by
  have inverse := Numbering.inverse_of_ofEquations? numbered
  rw [← Option.ne_none_iff_exists']
  intro failed
  obtain ⟨e, he, none⟩ := mapM_eq_none_iff.mp failed
  obtain ⟨symbol, mem, none⟩ := Row.ofTerms?_eq_none_iff.mp none
  apply inverse.lookup_eq_none_iff.mp none
  rw [Numbering.symbols_of_ofEquations? numbered, (canonicalOrder_symbolsOf equations).mem_iff]
  exact ⟨e, he, mem⟩

theorem ofEquations?_eq_none_iff {equations : List (Equation R)} :
    ofEquations? equations = none ↔ Variable.limit < (symbolsOf equations).length := by
  rw [← Numbering.ofEquations?_eq_none_iff]
  unfold ofEquations?
  split
  · rename_i refused
    simp [refused]
  · rename_i n numbered
    obtain ⟨rows, found⟩ := exists_rows numbered
    split
    · rename_i failed
      rw [found] at failed
      cases failed
    · simp [numbered]

theorem equations_of_ofEquations? {equations : List (Equation R)} {s : LinearSystem R}
    (h : ofEquations? equations = some s) : s.equations = equations := by
  unfold ofEquations? at h
  split at h
  · cases h
  · split at h
    · cases h
    · cases h
      rfl

theorem exists_ofEquations? {equations : List (Equation R)}
    (few : (symbolsOf equations).length ≤ Variable.limit) :
    ∃ s, ofEquations? equations = some s ∧ s.equations = equations := by
  cases h : ofEquations? equations with
  | none =>
    have many := ofEquations?_eq_none_iff.mp h
    omega
  | some s => exact ⟨s, rfl, equations_of_ofEquations? h⟩

variable (s : LinearSystem R)

theorem canonicalOrder : CanonicalOrder s.equations s.symbols :=
  s.symbols_eq ▸ canonicalOrder_symbolsOf s.equations

variable {s}

theorem variableOf?_eq_some_iff {symbol : String} {v : Variable} :
    s.variableOf? symbol = some v ↔ s.symbol? v = some symbol :=
  s.inverse.lookup_iff symbol v

/-- Every variable of a system has a position, and no other symbol has one. -/
theorem variableOf?_eq_none_iff {symbol : String} :
    s.variableOf? symbol = none ↔ ∀ e ∈ s.equations, symbol ∉ e.symbols := by
  unfold variableOf?
  rw [s.inverse.lookup_eq_none_iff, s.canonicalOrder.mem_iff]
  simp only [not_exists, not_and]

/-- **Numbering.** Equations can be assembled unless they mention more symbols than can be
numbered. The system has the very same equations, its variables are their symbols in canonical
order, symbols and positions determine each other, and each row is its equation with positions for
symbols, no position twice. -/
theorem ofEquations?_numbers (equations : List (Equation R)) :
    (ofEquations? equations = none ↔
      2 ^ 32 - 1 < (equations.flatMap Equation.symbols).toFinset.card) ∧
    ∀ s, ofEquations? equations = some s →
      s.equations = equations ∧ CanonicalOrder equations s.symbols ∧
      (∀ symbol v, s.variableOf? symbol = some v ↔ s.symbol? v = some symbol) ∧
      (∀ symbol, s.variableOf? symbol = none ↔ ∀ e ∈ equations, symbol ∉ e.symbols) ∧
      List.Forall₂ (fun e row =>
        List.Forall₂ (fun t p => s.variableOf? t.symbol = some p.1 ∧ p.2 = t.coefficient)
          e.terms row ∧
        (∀ p ∈ row, p.1.index < s.symbols.length) ∧ (row.map Prod.fst).Nodup)
        equations s.rows := by
  constructor
  · rw [ofEquations?_eq_none_iff, (canonicalOrder_symbolsOf equations).length_eq]
    rfl
  · intro s h
    obtain rfl := equations_of_ofEquations? h
    refine ⟨rfl, s.canonicalOrder, fun _ _ => variableOf?_eq_some_iff,
      fun _ => variableOf?_eq_none_iff, ?_⟩
    apply s.rows_match.imp
    intro e row hrow
    exact ⟨Row.entries_match hrow, Row.position_lt s.inverse hrow,
      Row.variables_nodup (Row.positions_nodup s.inverse hrow e.distinct)⟩

/-- `y + 2z = 1`, `x + y = 2` and `3z = 3`. -/
def crossing : List (Equation Rat) :=
  [⟨[⟨"y", 1⟩, ⟨"z", 2⟩], 1, by decide⟩, ⟨[⟨"x", 1⟩, ⟨"y", 1⟩], 2, by decide⟩,
    ⟨[⟨"z", 3⟩], 3, by decide⟩]

def crossed : LinearSystem Rat :=
  (ofEquations? crossing).get (by decide +kernel)

theorem crossed_numbers :
    ofEquations? crossing = some crossed ∧ CanonicalOrder crossing crossed.symbols ∧
    crossed.symbols = ["y", "z", "x"] ∧
    crossed.rows.map (·.map fun p => (p.1.index, p.2))
      = [[(0, 1), (1, 2)], [(2, 1), (0, 1)], [(1, 3)]] := by
  have h : ofEquations? crossing = some crossed := (Option.some_get _).symm
  refine ⟨h, ((ofEquations?_numbers crossing).2 _ h).2.1, ?_, ?_⟩
  · decide +kernel
  · decide +kernel

end LinearSystem

end Seidel
