import Seidel.Proofs.System.Terms

/-!
# Equations without common symbols

Two lists of equations that mention different symbols can be assembled together: the variables of
the second come after those of the first, and its rows are the same up to this shift
(`Beside.exists_rows`). An equation still gives for its own variable what it gives in its own
system, from values at the shifted positions (`Beside.solved?_left`, `Beside.solved?_right`).
-/

namespace Seidel

variable {R : Type} {equations equations' : List (Equation R)}

/-- No symbol is mentioned in both lists of equations. -/
def Independent (equations equations' : List (Equation R)) : Prop :=
  ∀ e ∈ equations, ∀ e' ∈ equations', ∀ symbol ∈ e.symbols, symbol ∉ e'.symbols

instance (equations equations' : List (Equation R)) :
    Decidable (Independent equations equations') :=
  inferInstanceAs (Decidable (∀ e ∈ equations, _))

/-! ## The order of the variables -/

theorem appearances_append (known before after : List String) :
    appearances known (before ++ after) = appearances (appearances known before) after := by
  induction before generalizing known with
  | nil => rfl
  | cons s rest ih => exact ih _

/-- Symbols that do not appear any more stay in front. -/
theorem appearances_of_absent {known rest : List String} (absent : ∀ s ∈ rest, s ∉ known)
    (found : List String) :
    appearances (known ++ found) rest = known ++ appearances found rest := by
  induction rest generalizing found with
  | nil => rfl
  | cons s rest ih =>
    obtain ⟨fresh, absent⟩ := List.forall_mem_cons.mp absent
    rw [appearances, appearances]
    by_cases h : s ∈ found
    · simp [h, ih absent]
    · simp [h, fresh, ih absent]

theorem symbolsOf_append (independent : Independent equations equations') :
    symbolsOf (equations ++ equations') = symbolsOf equations ++ symbolsOf equations' := by
  have absent : ∀ symbol ∈ equations'.flatMap Equation.symbols, symbol ∉ symbolsOf equations := by
    intro symbol later known
    obtain ⟨e', he', mentions'⟩ := List.mem_flatMap.mp later
    obtain ⟨e, he, mentions⟩ := ((canonicalOrder_symbolsOf equations).mem_iff symbol).mp known
    exact independent e he e' he' symbol mentions mentions'
  have apart := appearances_of_absent absent []
  rw [List.append_nil] at apart
  rw [symbolsOf, List.flatMap_append, appearances_append]
  exact apart

/-! ## Rows -/

/-- Two lists that match a third one match each other. -/
theorem forall₂_of_common {α β γ : Type} {left : α → β → Prop} {right : α → γ → Prop}
    {related : β → γ → Prop} {as : List α} {bs : List β} {cs : List γ}
    (h : List.Forall₂ left as bs) (h' : List.Forall₂ right as cs)
    (both : ∀ a ∈ as, ∀ b c, left a b → right a c → related b c) :
    List.Forall₂ related bs cs := by
  induction h generalizing cs with
  | nil =>
    cases h'
    exact .nil
  | cons head _ ih =>
    cases h' with
    | cons head' rest' =>
      obtain ⟨first, later⟩ := List.forall_mem_cons.mp both
      exact .cons (first _ _ head head') (ih rest' later)

/-- Every position of the row is moved up by the same distance, the coefficients stay. -/
def Row.Shifted (distance : Nat) (row row' : Row R) : Prop :=
  List.Forall₂ (fun p q => q.1.index = distance + p.1.index ∧ q.2 = p.2) row row'

namespace Row

section Entries

variable {n n' : Numbering} (numbered : n.Inverse) (numbered' : n'.Inverse)
  {symbols : List String} {terms : List (Term R)} {row row' : Row R}

include numbered numbered'

/-- A row does not depend on symbols that are added behind. -/
theorem eq_of_append (all : n'.symbols = n.symbols ++ symbols)
    (h : ofTerms? n.positions terms = some row)
    (h' : ofTerms? n'.positions terms = some row') : row = row' := by
  have entries : List.Forall₂ Eq row row' := by
    apply forall₂_of_common (entries_match h) (entries_match h')
    rintro t _ ⟨v, c⟩ ⟨v', c'⟩ ⟨hv, rfl⟩ ⟨hv', rfl⟩
    have known : t.symbol ∈ n.symbols := List.mem_of_getElem? ((numbered.lookup_iff _ v).mp hv)
    have index := numbered'.index_eq_idxOf hv'
    rw [all, List.idxOf_append_of_mem known, ← numbered.index_eq_idxOf hv] at index
    obtain rfl := Variable.eq_of_index index
    rfl
  rwa [List.forall₂_eq_eq_eq] at entries

/-- With symbols added in front, all positions move up. -/
theorem shifted_of_append (all : n'.symbols = symbols ++ n.symbols)
    (h : ofTerms? n.positions terms = some row)
    (h' : ofTerms? n'.positions terms = some row') : Shifted symbols.length row row' := by
  apply forall₂_of_common (entries_match h) (entries_match h')
  rintro t _ ⟨v, c⟩ ⟨v', c'⟩ ⟨hv, rfl⟩ ⟨hv', rfl⟩
  have known : t.symbol ∈ n.symbols := List.mem_of_getElem? ((numbered.lookup_iff _ v).mp hv)
  have absent : t.symbol ∉ symbols :=
    fun mem => List.disjoint_of_nodup_append (all ▸ numbered'.nodup) mem known
  refine ⟨?_, rfl⟩
  rw [numbered'.index_eq_idxOf hv', all, List.idxOf_append_of_notMem absent,
    numbered.index_eq_idxOf hv]

end Entries

end Row

/-! ## Two systems in one -/

namespace LinearSystem

/-- The equations of `s` are those of `first` and then those of `second`, and so are its
variables. -/
structure Beside (first second s : LinearSystem R) : Prop where
  equations_eq : s.equations = first.equations ++ second.equations
  symbols_eq : s.symbols = first.symbols ++ second.symbols

theorem beside_of_independent {first second s : LinearSystem R}
    (independent : Independent first.equations second.equations)
    (equations : s.equations = first.equations ++ second.equations) : Beside first second s := by
  refine ⟨equations, ?_⟩
  rw [s.symbols_eq, equations, symbolsOf_append independent, first.symbols_eq, second.symbols_eq]

namespace Beside

variable {first second s : LinearSystem R}

theorem nodup (h : Beside first second s) : (first.symbols ++ second.symbols).Nodup :=
  h.symbols_eq ▸ s.canonicalOrder.nodup

theorem exists_rows (h : Beside first second s) :
    ∃ later, s.rows = first.rows ++ later ∧
      List.Forall₂ (Row.Shifted first.symbols.length) second.rows later := by
  have rows := s.rows_eq
  rw [h.equations_eq, List.mapM_append] at rows
  simp only [Option.bind_eq_bind, Option.pure_def, Option.bind_eq_some_iff,
    Option.some.injEq] at rows
  obtain ⟨before, matched, later, matched', eq⟩ := rows
  have same : List.Forall₂ Eq first.rows before := by
    apply forall₂_of_common first.rows_match (mapM_eq_some_iff.mp matched)
    intro e _ row row' hrow hrow'
    exact Row.eq_of_append first.inverse s.inverse h.symbols_eq hrow hrow'
  rw [List.forall₂_eq_eq_eq] at same
  refine ⟨later, by rw [← eq, same], ?_⟩
  apply forall₂_of_common second.rows_match (mapM_eq_some_iff.mp matched')
  intro e _ row row' hrow hrow'
  exact Row.shifted_of_append second.inverse s.inverse h.symbols_eq hrow hrow'

theorem isSquare (h : Beside first second s) (square : first.IsSquare)
    (square' : second.IsSquare) : s.IsSquare := by
  rw [IsSquare, h.equations_eq, h.symbols_eq, List.length_append, List.length_append, square,
    square']

theorem length_symbols (h : Beside first second s) :
    s.symbols.length = first.symbols.length + second.symbols.length := by
  rw [h.symbols_eq, List.length_append]

section Left

variable (h : Beside first second s) (square : first.IsSquare) {i : Nat}
  (hi : i < first.symbols.length)

include h square hi

theorem equations_left : s.equations[i]? = first.equations[i]? := by
  rw [h.equations_eq, List.getElem?_append_left (square ▸ hi)]

omit square in
theorem symbols_left : s.symbols[i]? = first.symbols[i]? := by
  rw [h.symbols_eq, List.getElem?_append_left hi]

variable [Scalar R]

theorem zeroDiagonal_left : s.ZeroDiagonal i ↔ first.ZeroDiagonal i := by
  unfold ZeroDiagonal diagonal?
  rw [h.equations_left square hi, h.symbols_left hi]

theorem solved?_left (value : Nat → R) : s.solved? i value = first.solved? i value := by
  obtain ⟨e, symbol, _, he, hsymbol, _⟩ := exists_equation square hi
  have positions (t) (ht : t ∈ e.others symbol) :
      s.symbols.idxOf t.symbol = first.symbols.idxOf t.symbol := by
    have known := mem_symbols_of_term he (List.mem_of_mem_filter ht)
    rw [h.symbols_eq, List.idxOf_append_of_mem known]
  unfold solved?
  rw [h.equations_left square hi, h.symbols_left hi]
  simp only [he, hsymbol]
  rw [List.map_congr_left fun t ht => by rw [positions t ht]]

end Left

section Right

variable (h : Beside first second s) (square : first.IsSquare) (i : Nat)

include h square

theorem equations_right :
    s.equations[first.symbols.length + i]? = second.equations[i]? := by
  rw [h.equations_eq, ← square, List.getElem?_append_right (Nat.le_add_right _ _),
    Nat.add_sub_cancel_left]

omit square in
theorem symbols_right : s.symbols[first.symbols.length + i]? = second.symbols[i]? := by
  rw [h.symbols_eq, List.getElem?_append_right (Nat.le_add_right _ _), Nat.add_sub_cancel_left]

variable [Scalar R]

theorem zeroDiagonal_right :
    s.ZeroDiagonal (first.symbols.length + i) ↔ second.ZeroDiagonal i := by
  unfold ZeroDiagonal diagonal?
  rw [h.equations_right square, h.symbols_right]

theorem solved?_right (value : Nat → R) :
    s.solved? (first.symbols.length + i) value
      = second.solved? i fun j => value (first.symbols.length + j) := by
  unfold solved?
  rw [h.equations_right square, h.symbols_right]
  cases he : second.equations[i]? with
  | none => rfl
  | some e =>
    have positions (t) (ht : t ∈ e.terms) : s.symbols.idxOf t.symbol
        = first.symbols.length + second.symbols.idxOf t.symbol := by
      have known := mem_symbols_of_term he ht
      have absent : t.symbol ∉ first.symbols :=
        fun mem => List.disjoint_of_nodup_append h.nodup mem known
      rw [h.symbols_eq, List.idxOf_append_of_notMem absent]
    cases second.symbols[i]? with
    | none => rfl
    | some symbol =>
      simp only
      rw [List.map_congr_left fun t ht => by rw [positions t (List.mem_of_mem_filter ht)]]

end Right

end Beside

end LinearSystem

end Seidel
