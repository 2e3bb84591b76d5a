import Seidel.Proofs.System.Terms

/-!
# One coefficient, four views

The coefficient of a variable in an equation can be looked up by position in the system, found in
the sparse row, read off the dense matrix, or asked of the equation by symbol. The lookup takes the
first entry of a row and the matrix keeps the last one written; they are the same because no
position occurs twice in a row (`coefficient_views_agree`).
-/

namespace Seidel

variable {R : Type} [Scalar R]

namespace Row

variable {row : Row R} {v : Variable}

/-- Where no position occurs twice, every entry for a variable is the one that is looked up. -/
theorem coefficient_of_mem (distinct : row.positions.Nodup) {c : R} (mem : (v, c) ∈ row) :
    row.coefficient v.index = c := by
  induction row with
  | nil => cases mem
  | cons p rest ih =>
    obtain ⟨fresh, distinct⟩ := List.nodup_cons.mp distinct
    rcases List.mem_cons.mp mem with rfl | later
    · simp [coefficient]
    · have elsewhere : p.1.index ≠ v.index := by
        intro same
        exact fresh (List.mem_map.mpr ⟨_, later, same.symm⟩)
      simpa [coefficient, List.find?_cons, elsewhere] using ih distinct later

theorem coefficient_of_absent (absent : ∀ p ∈ row, p.1 ≠ v) :
    row.coefficient v.index = Scalar.zero := by
  have none : row.find? (·.1.index == v.index) = none := by
    apply List.find?_eq_none.mpr
    intro p hp same
    exact absent p hp (Variable.eq_of_index (beq_iff_eq.mp same))
  rw [coefficient, none]
  rfl

end Row

namespace LinearSystem

variable {s : LinearSystem R}

theorem getElem?_matrix {i j : Nat} {e : Equation R} {symbol : String}
    (he : s.equations[i]? = some e) (hsymbol : s.symbols[j]? = some symbol) :
    (s.matrix[i]?).bind (·[j]?) = some ((e.coefficient? symbol).getD Scalar.zero) := by
  simp only [matrix_eq_map, List.getElem?_map, he, hsymbol, Option.map_some, Option.bind_some]

/-- **All views of a coefficient agree.** The matrix has one row for each equation and one column
for each variable. The coefficient of a variable in an equation is the value of every entry that
the sparse row has for the variable, and zero when it has none; where the variable belongs to the
system, the matrix has the same value at their positions, and so has the equation at the symbol of
the variable, with zero for a symbol that it does not mention. -/
theorem coefficient_views_agree {equations : List (Equation R)}
    (assembled : ofEquations? equations = some s) :
    s.equations = equations ∧ s.matrix.length = equations.length ∧
    (∀ row ∈ s.matrix, row.length = s.symbols.length) ∧
    ∀ i e, equations[i]? = some e → ∃ row, s.rows[i]? = some row ∧
      ∀ v, ∃ c, s.coefficient? i v = some c ∧
        (∀ p ∈ row, p.1 = v → p.2 = c) ∧ ((∀ p ∈ row, p.1 ≠ v) → c = Scalar.zero) ∧
        ∀ symbol, s.symbol? v = some symbol →
          (s.matrix[i]?).bind (·[v.index]?) = some c ∧
          (e.coefficient? symbol).getD Scalar.zero = c := by
  obtain rfl := equations_of_ofEquations? assembled
  refine ⟨rfl, s.length_matrix, ?_, fun i e he => ?_⟩
  · intro row mem
    obtain ⟨sparse, _, rfl⟩ := List.mem_map.mp mem
    exact Row.length_dense sparse _
  · obtain ⟨hi, _⟩ := List.getElem?_eq_some_iff.mp he
    obtain ⟨row, hrow⟩ : ∃ row, s.rows[i]? = some row :=
      ⟨_, List.getElem?_eq_getElem (s.length_rows ▸ hi)⟩
    have distinct := Row.positions_nodup s.inverse (s.row_match he hrow) e.distinct
    refine ⟨row, hrow, fun v => ⟨row.coefficient v.index, ?_, ?_, ?_, ?_⟩⟩
    · rw [coefficient?, hrow, Option.map_some]
    · rintro ⟨w, c⟩ mem rfl
      exact (Row.coefficient_of_mem distinct mem).symm
    · exact Row.coefficient_of_absent
    · intro symbol hsymbol
      rw [row_coefficient_eq he hrow hsymbol]
      exact ⟨getElem?_matrix he hsymbol, rfl⟩

/-- `2y - 0x = 1` and `3z + y = 2`: of the zeros, the one that is written is negative. -/
def signedZero : List (Equation Float) :=
  [⟨[⟨"y", 2⟩, ⟨"x", .ofBits 0x8000000000000000⟩], 1, by decide⟩,
    ⟨[⟨"z", 3⟩, ⟨"y", 1⟩], 2, by decide⟩]

theorem signedZero_views_agree :
    ∃ s, ofEquations? signedZero = some s ∧ s.symbols = ["y", "x", "z"] ∧
      s.matrix = [[2, .ofBits 0x8000000000000000, .ofBits 0], [1, .ofBits 0, 3]] ∧
      ∀ i e, signedZero[i]? = some e → ∃ row, s.rows[i]? = some row ∧
        ∀ v, ∃ c, s.coefficient? i v = some c ∧
          (∀ p ∈ row, p.1 = v → p.2 = c) ∧ ((∀ p ∈ row, p.1 ≠ v) → c = Scalar.zero) ∧
          ∀ symbol, s.symbol? v = some symbol →
            (s.matrix[i]?).bind (·[v.index]?) = some c ∧
            (e.coefficient? symbol).getD Scalar.zero = c := by
  have found : (ofEquations? signedZero).map (fun s => (s.symbols, s.matrix))
      = some (["y", "x", "z"],
          [[2, .ofBits 0x8000000000000000, .ofBits 0], [1, .ofBits 0, 3]]) := by
    decide +kernel
  obtain ⟨s, assembled, shown⟩ := Option.map_eq_some_iff.mp found
  obtain ⟨symbols, matrix⟩ := Prod.mk.inj shown
  exact ⟨s, assembled, symbols, matrix, (coefficient_views_agree assembled).2.2.2⟩

end LinearSystem

end Seidel
