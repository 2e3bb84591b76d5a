import Seidel.Proofs.System.Numbering

/-!
# Rows by position, equations by symbol

What the solver reads from a row by position is what the equation says by symbol: the coefficient
of a variable, and the terms on all other variables. So an equation solved for its own variable
can be stated without rows (`LinearSystem.solved?`), and it depends on nothing but the variables
that it mentions (`LinearSystem.solved?_congr`).
-/

namespace Seidel

variable {R : Type}

/-- The terms on all variables but one. -/
def Equation.others (e : Equation R) (symbol : String) : List (Term R) :=
  e.terms.filter (·.symbol != symbol)

/-- No variable has several terms, so the first is the only one. -/
theorem Equation.coefficient?_eq_some_iff (e : Equation R) {symbol : String} {c : R} :
    e.coefficient? symbol = some c ↔ ⟨symbol, c⟩ ∈ e.terms := by
  obtain ⟨terms, constant, distinct⟩ := e
  unfold coefficient?
  induction terms with
  | nil => simp
  | cons t rest ih =>
    obtain ⟨head, a⟩ := t
    obtain ⟨fresh, others⟩ := List.nodup_cons.mp distinct
    by_cases h : head = symbol
    · subst h
      have absent : (⟨head, c⟩ : Term R) ∉ rest := by
        intro mem
        exact fresh (List.mem_map.mpr ⟨_, mem, rfl⟩)
      simp [absent, eq_comm]
    · have ne : symbol ≠ head := fun same => h same.symm
      simp only [List.find?_cons, beq_eq_false_iff_ne.mpr h, ih others]
      simp [ne]

namespace Numbering.Inverse

variable {n : Numbering} {symbol other : String} {v : Variable}

theorem index_eq_idxOf (h : n.Inverse) (found : n.positions[symbol]? = some v) :
    v.index = n.symbols.idxOf symbol := by
  obtain ⟨lt, rfl⟩ := List.getElem?_eq_some_iff.mp ((h.lookup_iff symbol v).mp found)
  exact (h.nodup.idxOf_getElem _ lt).symm

theorem index_eq_iff (h : n.Inverse) (found : n.positions[other]? = some v) {i : Nat}
    (hi : n.symbols[i]? = some symbol) : v.index = i ↔ other = symbol := by
  have hv := (h.lookup_iff other v).mp found
  constructor
  · rintro rfl
    exact Option.some.inj (hv.symm.trans hi)
  · rintro rfl
    obtain ⟨lt, eq⟩ := List.getElem?_eq_some_iff.mp hv
    obtain ⟨lt', eq'⟩ := List.getElem?_eq_some_iff.mp hi
    exact h.nodup.getElem_inj_iff.mp (eq.trans eq'.symm)

end Numbering.Inverse

namespace Row

variable {n : Numbering} (numbered : n.Inverse) {symbol : String} {terms : List (Term R)}
  {row : Row R} {i : Nat}

include numbered

theorem find?_position (h : ofTerms? n.positions terms = some row)
    (hi : n.symbols[i]? = some symbol) :
    (row.find? (·.1.index == i)).map Prod.snd
      = (terms.find? (·.symbol == symbol)).map Term.coefficient := by
  have entries := entries_match h
  clear h
  induction entries with
  | nil => rfl
  | cons head _ ih =>
    obtain ⟨hv, hc⟩ := head
    have same := numbered.index_eq_iff hv hi
    rename_i t p terms row _
    by_cases ht : t.symbol = symbol
    · simp [ht, same.mpr ht, hc]
    · simp [ht, mt same.mp ht, ih]

theorem map_positions (h : ofTerms? n.positions terms = some row) {S : Type} (f : R → Nat → S) :
    row.map (fun p => f p.2 p.1.index)
      = terms.map fun t => f t.coefficient (n.symbols.idxOf t.symbol) := by
  have entries := entries_match h
  clear h
  induction entries with
  | nil => rfl
  | cons head _ ih =>
    obtain ⟨hv, hc⟩ := head
    rw [List.map_cons, List.map_cons, ih, hc, numbered.index_eq_idxOf hv]

theorem map_other_positions (h : ofTerms? n.positions terms = some row)
    (hi : n.symbols[i]? = some symbol) {S : Type} (f : R → Nat → S) :
    (row.filter (·.1.index != i)).map (fun p => f p.2 p.1.index)
      = (terms.filter (·.symbol != symbol)).map
          fun t => f t.coefficient (n.symbols.idxOf t.symbol) := by
  have entries := entries_match h
  clear h
  induction entries with
  | nil => rfl
  | cons head _ ih =>
    obtain ⟨hv, hc⟩ := head
    have same := numbered.index_eq_iff hv hi
    have position := numbered.index_eq_idxOf hv
    rename_i t p terms row _
    by_cases ht : t.symbol = symbol
    · simp [ht, same.mpr ht, ih]
    · simp [ht, mt same.mp ht, ih, hc, ← position]

end Row

/-! ## An equation solved for its own variable -/

namespace LinearSystem

variable [Scalar R] (s : LinearSystem R)

/-- The coefficient of equation `i` on variable `i`, zero when the equation leaves it out. -/
def diagonal? (i : Nat) : Option R :=
  match s.equations[i]?, s.symbols[i]? with
  | some e, some symbol => some ((e.coefficient? symbol).getD Scalar.zero)
  | _, _ => none

/-- Equation `i` cannot be solved for variable `i`. -/
def ZeroDiagonal (i : Nat) : Prop :=
  (s.diagonal? i).any Scalar.isZero = true

instance (i : Nat) : Decidable (s.ZeroDiagonal i) :=
  inferInstanceAs (Decidable (_ = _))

/-- What equation `i` gives for variable `i` when the variable at each position `j` has the value
`value j`. -/
def solved? (i : Nat) (value : Nat → R) : Option R :=
  match s.equations[i]?, s.symbols[i]? with
  | some e, some symbol =>
    some ((e.constant - Scalar.sum ((e.others symbol).map fun t =>
      t.coefficient * value (s.symbols.idxOf t.symbol))) / (e.coefficient? symbol).getD Scalar.zero)
  | _, _ => none

variable {s}

omit [Scalar R] in
theorem exists_equation (square : s.IsSquare) {i : Nat} (hi : i < s.symbols.length) :
    ∃ e symbol row, s.equations[i]? = some e ∧ s.symbols[i]? = some symbol ∧
      s.rows[i]? = some row := by
  obtain ⟨e, row, he, hrow⟩ := exists_row square hi
  exact ⟨e, _, row, he, List.getElem?_eq_getElem hi, hrow⟩

theorem row_coefficient_eq {i j : Nat} {e : Equation R} {symbol : String} {row : Row R}
    (he : s.equations[i]? = some e) (hrow : s.rows[i]? = some row)
    (hsymbol : s.symbols[j]? = some symbol) :
    row.coefficient j = (e.coefficient? symbol).getD Scalar.zero := by
  rw [Row.coefficient, Row.find?_position s.inverse (s.row_match he hrow) hsymbol]
  rfl

end LinearSystem

/-! ## What an equation reads -/

namespace LinearSystem

variable {s : LinearSystem R}

/-- Equation `i` has a term on variable `j`. -/
def Mentions (s : LinearSystem R) (i j : Nat) : Prop :=
  ∃ e ∈ s.equations[i]?, ∃ symbol ∈ s.symbols[j]?, symbol ∈ e.symbols

instance (s : LinearSystem R) (i j : Nat) : Decidable (s.Mentions i j) :=
  inferInstanceAs (Decidable (∃ e ∈ s.equations[i]?, _))

/-- The value of variable `i` is computed from the value of another variable `j`. -/
def DependsOn (s : LinearSystem R) (i j : Nat) : Prop :=
  i ≠ j ∧ s.Mentions i j

instance (s : LinearSystem R) (i j : Nat) : Decidable (s.DependsOn i j) :=
  inferInstanceAs (Decidable (_ ∧ _))

theorem mem_symbols_of_term {i : Nat} {e : Equation R} {t : Term R} (he : s.equations[i]? = some e)
    (ht : t ∈ e.terms) : t.symbol ∈ s.symbols :=
  (s.canonicalOrder.mem_iff _).mpr ⟨e, List.mem_of_getElem? he, List.mem_map_of_mem ht⟩

theorem Mentions.lt {i j : Nat} (h : s.Mentions i j) :
    i < s.equations.length ∧ j < s.symbols.length := by
  obtain ⟨e, he, symbol, hsymbol, _⟩ := h
  exact ⟨(List.getElem?_eq_some_iff.mp he).1, (List.getElem?_eq_some_iff.mp hsymbol).1⟩

variable [Scalar R]

/-- What an equation gives for its own variable does not depend on variables it leaves out. -/
theorem solved?_congr {i : Nat} {value value' : Nat → R}
    (same : ∀ j, s.DependsOn i j → value j = value' j) :
    s.solved? i value = s.solved? i value' := by
  unfold solved?
  cases he : s.equations[i]? with
  | none => rfl
  | some e =>
    cases hsymbol : s.symbols[i]? with
    | none => rfl
    | some symbol =>
      have products :
          (e.others symbol).map (fun t => t.coefficient * value (s.symbols.idxOf t.symbol))
          = (e.others symbol).map fun t => t.coefficient * value' (s.symbols.idxOf t.symbol) := by
        apply List.map_congr_left
        intro t ht
        obtain ⟨mem, ne⟩ := List.mem_filter.mp ht
        have position := List.getElem?_idxOf (mem_symbols_of_term he mem)
        rw [same]
        refine ⟨?_, e, he, t.symbol, position, List.mem_map_of_mem mem⟩
        rintro rfl
        exact bne_iff_ne.mp ne (Option.some.inj (position.symm.trans hsymbol))
      simp only [products]

end LinearSystem

/-! ## The matrix -/

/-- The matrix has the coefficient of each variable in each equation. -/
theorem LinearSystem.matrix_eq_map [Scalar R] (s : LinearSystem R) :
    s.matrix = s.equations.map fun e =>
      s.symbols.map fun symbol => (e.coefficient? symbol).getD Scalar.zero := by
  apply List.ext_getElem
  · rw [length_matrix, List.length_map]
  · intro i hi _
    have lt : i < s.equations.length := s.length_matrix ▸ hi
    have lt' : i < s.rows.length := s.length_rows ▸ lt
    have matched := s.row_match (List.getElem?_eq_getElem lt) (List.getElem?_eq_getElem lt')
    have distinct := Row.positions_nodup s.inverse matched s.equations[i].distinct
    simp only [matrix, List.getElem_map]
    apply List.ext_getElem?
    intro j
    by_cases hj : j < s.symbols.length
    · rw [Row.getElem?_dense distinct hj, List.getElem?_map, List.getElem?_eq_getElem hj,
        Option.map_some, row_coefficient_eq (List.getElem?_eq_getElem lt)
          (List.getElem?_eq_getElem lt') (List.getElem?_eq_getElem hj)]
    · rw [List.getElem?_eq_none (by rw [Row.length_dense]; omega),
        List.getElem?_eq_none (by rw [List.length_map]; omega)]

/-! ## Regular systems -/

/-- The coefficient for a variable is there and is not zero. -/
def Equation.hasPivot (e : Equation Float) (symbol : String) : Bool :=
  (e.coefficient? symbol).any (· != .ofBits 0)

namespace LinearSystem

/-- Every equation has a coefficient other than zero for its own variable. -/
def Regular (s : LinearSystem Float) : Prop :=
  ∀ p ∈ s.equations.zip s.symbols, p.1.hasPivot p.2 = true

instance (s : LinearSystem Float) : Decidable s.Regular :=
  inferInstanceAs (Decidable (∀ p ∈ s.equations.zip s.symbols, p.1.hasPivot p.2 = true))

variable {s : LinearSystem Float} {i : Nat} {e : Equation Float} {symbol : String}

theorem zeroDiagonal_iff (he : s.equations[i]? = some e) (hsymbol : s.symbols[i]? = some symbol) :
    s.ZeroDiagonal i ↔ e.hasPivot symbol = false := by
  simp only [ZeroDiagonal, diagonal?, he, hsymbol, Equation.hasPivot]
  cases e.coefficient? symbol with
  | none => decide
  | some c =>
    change (c == .ofBits 0) = true ↔ (c != .ofBits 0) = false
    simp [bne]

theorem Regular.hasPivot (regular : s.Regular) (he : s.equations[i]? = some e)
    (hsymbol : s.symbols[i]? = some symbol) : e.hasPivot symbol = true :=
  regular (e, symbol) (List.mem_of_getElem? (List.getElem?_zip_eq_some.mpr ⟨he, hsymbol⟩))

theorem Regular.not_zeroDiagonal (regular : s.Regular) (square : s.IsSquare)
    (hi : i < s.symbols.length) : ¬ s.ZeroDiagonal i := by
  obtain ⟨e, symbol, _, he, hsymbol, _⟩ := exists_equation square hi
  rw [zeroDiagonal_iff he hsymbol, regular.hasPivot he hsymbol]
  exact Bool.noConfusion

end LinearSystem

end Seidel
