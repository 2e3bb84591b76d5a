import Mathlib.Data.List.Forall2
import Seidel.Proofs.System.Symbols
import Seidel.System.Residual

/-!
# The rows of a linear system

A row has one entry for each term of its equation, at the position of the term's variable. No
position occurs twice, because no variable does, so the dense row holds at each position the
coefficient that the sparse row has there.
-/

namespace Seidel

theorem mapM_eq_some_iff {α β : Type} {f : α → Option β} {as : List α} {bs : List β} :
    as.mapM f = some bs ↔ List.Forall₂ (fun a b => f a = some b) as bs := by
  induction as generalizing bs with
  | nil => simp [eq_comm]
  | cons a as ih =>
    simp only [List.mapM_cons, Option.bind_eq_bind, Option.pure_def, Option.bind_eq_some_iff,
      Option.some.injEq, List.forall₂_cons_left_iff, ih]
    grind

theorem mapM_eq_none_iff {α β : Type} {f : α → Option β} {as : List α} :
    as.mapM f = none ↔ ∃ a ∈ as, f a = none := by
  induction as with
  | nil => simp
  | cons a as ih =>
    cases ha : f a with
    | none => simp [List.mapM_cons, ha]
    | some b => cases hs : as.mapM f <;> simp_all [List.mapM_cons]

theorem mapM_eq_of_forall₂ {α β γ : Type} {g : α → Option γ} {g' : β → Option γ} {as : List α}
    {bs : List β} (h : List.Forall₂ (fun a b => g' b = g a) as bs) : bs.mapM g' = as.mapM g := by
  induction h with
  | nil => rfl
  | cons head _ ih => rw [List.mapM_cons, List.mapM_cons, head, ih]

namespace Row

variable {R : Type}

/-- The positions that a row mentions, in term order. -/
def positions (row : Row R) : List Nat := row.map (·.1.index)

section

variable {n : Numbering} (numbered : n.Inverse) {terms : List (Term R)} {row : Row R}

include numbered

theorem map_of_ofTerms? (h : ofTerms? n.positions terms = some row) :
    row.map (fun p => (n.symbols[p.1.index]?, p.2))
      = terms.map fun t => (some t.symbol, t.coefficient) := by
  have entries := mapM_eq_some_iff.mp h
  clear h
  induction entries with
  | nil => rfl
  | cons head _ ih =>
    obtain ⟨v, hv, rfl⟩ := Option.map_eq_some_iff.mp head
    simp [(numbered.lookup_iff _ v).mp hv, ih]

theorem position_lt (h : ofTerms? n.positions terms = some row) :
    ∀ p ∈ row, p.1.index < n.symbols.length := by
  intro p hp
  have mem := List.mem_map_of_mem (f := fun p => (n.symbols[p.1.index]?, p.2)) hp
  rw [map_of_ofTerms? numbered h] at mem
  obtain ⟨t, _, ht⟩ := List.mem_map.mp mem
  have some := (Prod.mk.inj ht).1
  exact (List.getElem?_eq_some_iff.mp some.symm).1

theorem positions_nodup (h : ofTerms? n.positions terms = some row)
    (distinct : (terms.map Term.symbol).Nodup) : row.positions.Nodup := by
  have symbolsOfRow : row.positions.map (n.symbols[·]?) = (terms.map Term.symbol).map some := by
    have := congrArg (List.map Prod.fst) (map_of_ofTerms? numbered h)
    simpa [positions, Function.comp_def] using this
  apply List.Nodup.of_map (n.symbols[·]?)
  rw [symbolsOfRow]
  exact distinct.map fun _ _ h => Option.some.inj h

end

/-! ## The dense row -/

/-- Writing the entries of a row into a list changes exactly the positions that it mentions. -/
theorem getElem?_foldl_set {row : Row R} (distinct : row.positions.Nodup) (base : List R)
    (j : Nat) :
    (row.foldl (fun dense (v, c) => dense.set v.index c) base)[j]?
      = (base[j]?).map (((row.find? (·.1.index == j)).map Prod.snd).getD ·) := by
  induction row generalizing base with
  | nil => simp
  | cons p rest ih =>
    obtain ⟨v, c⟩ := p
    obtain ⟨fresh, distinct⟩ := List.nodup_cons.mp distinct
    rw [List.foldl_cons, ih distinct]
    by_cases hj : v.index = j
    · have absent : rest.find? (·.1.index == j) = none := by
        apply List.find?_eq_none.mpr
        intro q hq eq
        have same : q.1.index = v.index := by rw [hj, beq_iff_eq.mp eq]
        exact fresh (List.mem_map.mpr ⟨q, hq, same⟩)
      rcases Nat.lt_or_ge j base.length with lt | ge
      · simp [absent, hj, lt]
      · simp [hj, ge]
    · simp [hj]

variable [Scalar R]

theorem getElem?_dense {row : Row R} (distinct : row.positions.Nodup) {size j : Nat}
    (hj : j < size) : (row.dense size)[j]? = some (row.coefficient j) := by
  rw [dense, getElem?_foldl_set distinct]
  simp [hj, coefficient]

theorem length_dense (row : Row R) (size : Nat) : (row.dense size).length = size := by
  have key (base : List R) :
      (row.foldl (fun dense (v, c) => dense.set v.index c) base).length = base.length := by
    induction row generalizing base with
    | nil => rfl
    | cons p rest ih => rw [List.foldl_cons, ih, List.length_set]
  rw [dense, key, List.length_replicate]

end Row

namespace LinearSystem

variable {R : Type} (s : LinearSystem R)

theorem rows_match :
    List.Forall₂ (fun e row => Row.ofTerms? s.positions e.terms = some row) s.equations s.rows :=
  mapM_eq_some_iff.mp s.rows_eq

theorem length_rows : s.rows.length = s.equations.length :=
  s.rows_match.length_eq.symm

theorem row_match {i : Nat} {e : Equation R} {row : Row R} (he : s.equations[i]? = some e)
    (hrow : s.rows[i]? = some row) : Row.ofTerms? s.positions e.terms = some row := by
  obtain ⟨hi, rfl⟩ := List.getElem?_eq_some_iff.mp he
  obtain ⟨hi', rfl⟩ := List.getElem?_eq_some_iff.mp hrow
  exact s.rows_match.get hi hi'

theorem exists_row {s : LinearSystem R} (square : s.IsSquare) {i : Nat}
    (hi : i < s.symbols.length) :
    ∃ e row, s.equations[i]? = some e ∧ s.rows[i]? = some row := by
  have lt : i < s.equations.length := square ▸ hi
  have lt' : i < s.rows.length := s.length_rows ▸ lt
  exact ⟨_, _, List.getElem?_eq_getElem lt, List.getElem?_eq_getElem lt'⟩

theorem length_matrix [Scalar R] : s.matrix.length = s.equations.length := by
  rw [matrix, List.length_map, length_rows]

theorem length_constants : s.constants.length = s.equations.length :=
  List.length_map _

theorem residuals_eq [Scalar R] {values : List R} (h : values.length = s.symbols.length) :
    s.residuals values
      = .ok (List.zipWith (fun row constant => dotProduct row values - constant)
          s.matrix s.constants) :=
  if_pos h

end LinearSystem

end Seidel
