import Seidel.Proofs.Solver.Alike

/-!
# Names do not matter

Whether symbols are equal is all that a system takes from them. If different symbols get different
names, the renamed equations are numbered alike (`symbolsOf_renamed`), the map has the same positions
under the new names (`Numbering.Inverse.lookup_map`), so that the rows are the same
(`LinearSystem.rows_renamed`), and what is computed from rows knows no names.
-/

namespace Seidel

variable {R : Type} {f : String → String}

/-- Different symbols get different names. -/
def Distinguishes (f : String → String) (symbols : List String) : Prop :=
  ∀ s ∈ symbols, ∀ t ∈ symbols, f s = f t → s = t

instance (f : String → String) (symbols : List String) : Decidable (Distinguishes f symbols) :=
  inferInstanceAs (Decidable (∀ s ∈ symbols, _))

namespace Distinguishes

variable {symbols symbols' : List String}

theorem mono (h : Distinguishes f symbols') (subset : symbols ⊆ symbols') :
    Distinguishes f symbols :=
  fun s hs t ht => h s (subset hs) t (subset ht)

theorem nodup (h : Distinguishes f symbols) (distinct : symbols.Nodup) :
    (symbols.map f).Nodup :=
  distinct.map_on h

end Distinguishes

/-! ## Equations -/

def Term.rename (f : String → String) (t : Term R) : Term R :=
  ⟨f t.symbol, t.coefficient⟩

/-- The same equation with other names for its variables. -/
structure Equation.Renamed (f : String → String) (e e' : Equation R) : Prop where
  terms_eq : e'.terms = e.terms.map (Term.rename f)
  constant_eq : e'.constant = e.constant

theorem Equation.symbols_rename (f : String → String) (terms : List (Term R)) :
    (terms.map (Term.rename f)).map Term.symbol = (terms.map Term.symbol).map f := by
  simp [Term.rename]

/-- Renaming repeats no variable. -/
theorem Equation.exists_renamed {e : Equation R} (different : Distinguishes f e.symbols) :
    ∃ e', ofTerms (e.terms.map (Term.rename f)) e.constant = .ok e' ∧ Renamed f e e' := by
  have distinct : ((e.terms.map (Term.rename f)).map Term.symbol).Nodup := by
    rw [symbols_rename]
    exact different.nodup e.distinct
  exact ⟨_, ofTerms_eq_ok distinct, rfl, rfl⟩

theorem exists_forall₂_renamed {equations : List (Equation R)}
    (different : Distinguishes f (equations.flatMap Equation.symbols)) :
    ∃ equations', List.Forall₂ (fun e e' =>
      Equation.ofTerms (e.terms.map (Term.rename f)) e.constant = .ok e' ∧ e.Renamed f e')
      equations equations' := by
  induction equations with
  | nil => exact ⟨[], .nil⟩
  | cons e rest ih =>
    rw [List.flatMap_cons] at different
    obtain ⟨e', renamed⟩ :=
      Equation.exists_renamed (different.mono (List.subset_append_left _ _))
    obtain ⟨rest', renamed'⟩ := ih (different.mono (List.subset_append_right _ _))
    exact ⟨e' :: rest', .cons renamed renamed'⟩

/-! ## Numbering -/

theorem appearances_map {known rest : List String} (different : Distinguishes f (known ++ rest)) :
    appearances (known.map f) (rest.map f) = (appearances known rest).map f := by
  induction rest generalizing known with
  | nil => rfl
  | cons s rest ih =>
    have mem_iff : f s ∈ known.map f ↔ s ∈ known := by
      constructor
      · intro mem
        obtain ⟨t, ht, same⟩ := List.mem_map.mp mem
        rwa [← different t (by simp [ht]) s (by simp) same]
      · exact List.mem_map_of_mem
    rw [List.map_cons, appearances, appearances]
    by_cases h : s ∈ known
    · rw [if_pos h, if_pos (mem_iff.mpr h)]
      apply ih
      apply different.mono
      intro t ht
      rcases List.mem_append.mp ht with ht | ht <;> simp [ht]
    · rw [if_neg h, if_neg (mt mem_iff.mp h), ← List.map_singleton, ← List.map_append]
      apply ih
      rwa [List.append_assoc]

variable {equations equations' : List (Equation R)}

theorem symbolsOf_renamed (different : Distinguishes f (equations.flatMap Equation.symbols))
    (renamed : List.Forall₂ (Equation.Renamed f) equations equations') :
    symbolsOf equations' = (symbolsOf equations).map f := by
  have names : equations'.flatMap Equation.symbols
      = (equations.flatMap Equation.symbols).map f := by
    clear different
    induction renamed with
    | nil => rfl
    | cons head _ ih =>
      rw [List.flatMap_cons, List.flatMap_cons, List.map_append, ih, Equation.symbols,
        head.terms_eq, Equation.symbols_rename, Equation.symbols]
  rw [symbolsOf, names]
  have different : Distinguishes f ([] ++ equations.flatMap Equation.symbols) := different
  exact appearances_map different

/-- A symbol has under its new name the position that it had. -/
theorem Numbering.Inverse.lookup_map {n n' : Numbering} {symbol : String} (numbered : n.Inverse)
    (numbered' : n'.Inverse) (names : n'.symbols = n.symbols.map f)
    (different : Distinguishes f n.symbols) (known : symbol ∈ n.symbols) :
    n'.positions[f symbol]? = n.positions[symbol]? := by
  apply Option.ext
  intro v
  rw [numbered.lookup_iff, numbered'.lookup_iff, names, List.getElem?_map,
    Option.map_eq_some_iff]
  constructor
  · rintro ⟨s, hs, same⟩
    rw [hs, different s (List.mem_of_getElem? hs) symbol known same]
  · intro hs
    exact ⟨symbol, hs, rfl⟩

/-! ## Systems -/

namespace LinearSystem

section Renamed

variable {s s' : LinearSystem R}
  (different : Distinguishes f (s.equations.flatMap Equation.symbols))
  (renamed : List.Forall₂ (Equation.Renamed f) s.equations s'.equations)

include different renamed

theorem symbols_renamed : s'.symbols = s.symbols.map f := by
  rw [s'.symbols_eq, s.symbols_eq, symbolsOf_renamed different renamed]

/-- Renamed equations have the rows they had. -/
theorem rows_renamed : s'.rows = s.rows := by
  have distinguished : Distinguishes f s.symbols := by
    apply different.mono
    intro symbol mem
    exact List.mem_flatMap.mpr ((s.canonicalOrder.mem_iff symbol).mp mem)
  have members : List.Forall₂ (fun e e' => e ∈ s.equations ∧ e.Renamed f e')
      s.equations s'.equations :=
    (List.forall₂_and_left _ _).mpr ⟨fun _ mem => mem, renamed⟩
  have same : s'.equations.mapM (Row.ofTerms? s'.positions ·.terms)
      = s.equations.mapM (Row.ofTerms? s.positions ·.terms) := by
    apply mapM_eq_of_forall₂
    apply members.imp
    rintro e e' ⟨mem, h⟩
    rw [h.terms_eq]
    apply mapM_eq_of_forall₂
    rw [List.forall₂_map_right_iff, List.forall₂_same]
    intro t ht
    have known : t.symbol ∈ s.symbols :=
      (s.canonicalOrder.mem_iff _).mpr ⟨e, mem, List.mem_map_of_mem ht⟩
    simp only [Term.rename, s.inverse.lookup_map s'.inverse (symbols_renamed different renamed)
      distinguished known]
  rw [s'.rows_eq, s.rows_eq] at same
  exact Option.some.inj same

end Renamed

variable [Scalar R]

/-- **Names do not matter.** If different symbols get different names, renaming the variables of
some equations repeats none and changes neither whether they can be assembled nor, but for the
names of its variables, the system they form. It is solved with the same values under the new
names, or refused for the same reason with the new name of its variable. -/
theorem solve_renamed (equations : List (Equation R)) (f : String → String)
    (different : Distinguishes f (equations.flatMap Equation.symbols)) :
    ∃ equations', List.Forall₂ (fun e e' =>
        Equation.ofTerms (e.terms.map (Term.rename f)) e.constant = .ok e')
        equations equations' ∧
      (ofEquations? equations' = none ↔ ofEquations? equations = none) ∧
      ∀ s, ofEquations? equations = some s → ∃ s', ofEquations? equations' = some s' ∧
        s'.symbols = s.symbols.map f ∧ s'.rows = s.rows ∧ s'.matrix = s.matrix ∧
        s'.constants = s.constants ∧ s'.validate = s.validate ∧
        ∀ n, s'.run n = (s.run n).rename f ∧
          s'.solve n = ((s.solve n).map (List.map (Snapshot.rename f))).mapError
            (SolverError.rename f) := by
  obtain ⟨equations', made⟩ := exists_forall₂_renamed different
  have renamed : List.Forall₂ (Equation.Renamed f) equations equations' :=
    made.imp fun _ _ h => h.2
  have names := symbolsOf_renamed different renamed
  refine ⟨equations', made.imp fun _ _ h => h.1, ?_, ?_⟩
  · rw [ofEquations?_eq_none_iff, ofEquations?_eq_none_iff, names, List.length_map]
  · intro s assembled
    obtain rfl := equations_of_ofEquations? assembled
    have few : (symbolsOf equations').length ≤ Variable.limit := by
      rw [names, List.length_map, ← s.symbols_eq]
      exact s.inverse.length_le
    obtain ⟨s', assembled', rfl⟩ := exists_ofEquations? few
    have names := symbols_renamed different renamed
    have rows := rows_renamed different renamed
    have constants := constants_eq_of_forall₂ (renamed.imp fun _ _ h => h.constant_eq)
    have alike := alike_of_rows names rows constants
    refine ⟨s', assembled', names, rows, ?_, constants, ?_, fun n => ?_⟩
    · rw [matrix, matrix, rows, alike.length_symbols]
    · simp only [validate, alike.isSquare_iff, alike.length_eq, alike.length_symbols]
    · exact ⟨alike.run_eq n, solve_eq_of_run (alike.run_eq n)⟩

/-- `x + 2y = 3` and `4y = 8`. -/
def slanted : List (Equation Float) :=
  [⟨[⟨"x", .ofBits 0x3FF0000000000000⟩, ⟨"y", .ofBits 0x4000000000000000⟩],
      .ofBits 0x4008000000000000, by decide⟩,
    ⟨[⟨"y", .ofBits 0x4010000000000000⟩], .ofBits 0x4020000000000000, by decide⟩]

/-- `x + y = 1` and `3x = 2`. -/
def headless : List (Equation Float) :=
  [⟨[⟨"x", .ofBits 0x3FF0000000000000⟩, ⟨"y", .ofBits 0x3FF0000000000000⟩],
      .ofBits 0x3FF0000000000000, by decide⟩,
    ⟨[⟨"x", .ofBits 0x4008000000000000⟩], .ofBits 0x4000000000000000, by decide⟩]

def exchange (symbol : String) : String :=
  if symbol = "x" then "y" else if symbol = "y" then "x" else symbol

/-- Exchanging the two names changes no value, and no position in an error. -/
theorem exchanged_solve_renamed :
    Distinguishes exchange (slanted.flatMap Equation.symbols) ∧
    Distinguishes exchange (headless.flatMap Equation.symbols) ∧
    (∃ equations' s', List.Forall₂ (fun e e' =>
        Equation.ofTerms (e.terms.map (Term.rename exchange)) e.constant = .ok e')
        slanted equations' ∧ ofEquations? equations' = some s' ∧ s'.solve 1 = .ok [⟨1, ⟨["y", "x"],
          [Float.ofBits 0x4008000000000000, Float.ofBits 0x4000000000000000]⟩⟩]) ∧
    ∃ equations' s', List.Forall₂ (fun e e' =>
        Equation.ofTerms (e.terms.map (Term.rename exchange)) e.constant = .ok e')
        headless equations' ∧ ofEquations? equations' = some s' ∧
        s'.solve 1 = .error (.zeroDiagonal "x" 1 1) := by
  have different : Distinguishes exchange (slanted.flatMap Equation.symbols) := by decide
  have different' : Distinguishes exchange (headless.flatMap Equation.symbols) := by decide
  have solved : ∃ s ∈ ofEquations? slanted, s.solve 1 = .ok [⟨1, ⟨["x", "y"],
      [Float.ofBits 0x4008000000000000, Float.ofBits 0x4000000000000000]⟩⟩] := by decide +kernel
  have refused : ∃ s ∈ ofEquations? headless, s.solve 1 = .error (.zeroDiagonal "y" 1 1) := by
    decide +kernel
  refine ⟨different, different', ?_, ?_⟩
  · obtain ⟨s, assembled, solved⟩ := solved
    obtain ⟨equations', made, _, renamed⟩ := solve_renamed slanted exchange different
    obtain ⟨s', assembled', _, _, _, _, _, runs⟩ := renamed s assembled
    refine ⟨equations', s', made, assembled', ?_⟩
    rw [(runs 1).2, solved]
    rfl
  · obtain ⟨s, assembled, refused⟩ := refused
    obtain ⟨equations', made, _, renamed⟩ := solve_renamed headless exchange different'
    obtain ⟨s', assembled', _, _, _, _, _, runs⟩ := renamed s assembled
    refine ⟨equations', s', made, assembled', ?_⟩
    rw [(runs 1).2, refused]
    rfl

end LinearSystem

end Seidel
