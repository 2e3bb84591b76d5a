import Seidel.Proofs.Binary64.Agreement
import Seidel.Proofs.System.Terms

/-!
# Residuals without the variables that are left out

The dense row of an equation has a zero for each variable that the equation leaves out. A zero times
a finite value is a zero, and a zero adds nothing to a sum, whether or not the sum has overflowed
(`Equation.denseProduct_agree`). So a residual is that of the equation as it is written, and a
variable that is left out changes neither the residual nor the verdict on it.
-/

namespace Seidel

open Binary64

/-! ## Dense and sparse products -/

namespace Equation

variable {R : Type} [Scalar R]

/-- The coefficients of the variables that an equation mentions, in canonical order, each with the
value of its variable. -/
def mentioned (e : Equation R) (symbols : List String) (values : List R) : List (R × R) :=
  (symbols.zip values).filterMap fun (symbol, x) => (e.coefficient? symbol).map (·, x)

/-- The left-hand side from the variables that the equation mentions. -/
def sparseProduct (e : Equation R) (symbols : List String) (values : List R) : R :=
  dotProduct ((e.mentioned symbols values).map Prod.fst) ((e.mentioned symbols values).map Prod.snd)

/-- The left-hand side from all variables. -/
def denseProduct (e : Equation R) (symbols : List String) (values : List R) : R :=
  dotProduct (symbols.map fun symbol => (e.coefficient? symbol).getD Scalar.zero) values

omit [Scalar R] in
/-- No value is read of a variable that is left out. -/
theorem mentioned_set {e : Equation R} {symbols : List String} {values : List R} {j : Nat}
    {symbol : String} {y : R} (hj : symbols[j]? = some symbol)
    (absent : e.coefficient? symbol = none) :
    e.mentioned symbols (values.set j y) = e.mentioned symbols values := by
  unfold mentioned
  induction symbols generalizing values j with
  | nil => rfl
  | cons s symbols ih =>
    cases values with
    | nil => rfl
    | cons x values =>
      cases j with
      | zero =>
        obtain rfl : s = symbol := Option.some.inj hj
        simp [absent]
      | succ j =>
        rw [List.set_cons_succ, List.zip_cons_cons, List.zip_cons_cons, List.filterMap_cons,
          List.filterMap_cons, ih hj]

end Equation

theorem decode_emptySum : decode (Scalar.emptySum : Float) = .zero .negative :=
  decode_encode (u := .zero .negative) trivial

theorem foldl_agree (ps : List Float) {a b : Float} (h : Agree a b) :
    Agree (ps.foldl (· + ·) a) (ps.foldl (· + ·) b) := by
  induction ps generalizing a b with
  | nil => exact h
  | cons p ps ih => exact ih (h.add (.refl _))

theorem dotProduct_agree_sum (coefficients values : List Float) :
    Agree (dotProduct coefficients values)
      (Scalar.sum (List.zipWith (· * ·) coefficients values)) := by
  unfold dotProduct Scalar.sum
  cases List.zipWith (· * ·) coefficients values with
  | nil => exact agree_iff.mpr (.zeros .positive .negative)
  | cons p ps => exact foldl_agree ps (Agree.zero_add decode_emptySum).symm

namespace Equation

variable {e : Equation Float}

/-- What a variable that is left out adds is a zero. -/
theorem foldl_mentioned {pairs : List (String × Float)}
    (finite : ∀ p ∈ pairs, p.2.isFinite = true) {a b : Float} (h : Agree a b) :
    Agree
      ((pairs.map fun p => (e.coefficient? p.1).getD Scalar.zero * p.2).foldl (· + ·) a)
      ((pairs.filterMap fun p => (e.coefficient? p.1).map (· * p.2)).foldl (· + ·) b) := by
  induction pairs generalizing a b with
  | nil => exact h
  | cons p pairs ih =>
    obtain ⟨hp, finite⟩ := List.forall_mem_cons.mp finite
    rw [List.map_cons, List.foldl_cons]
    cases hc : e.coefficient? p.1 with
    | none =>
      obtain ⟨s, zero⟩ := zero_mul_of_isFinite (x := Scalar.zero) decode_zero hp
      rw [List.filterMap_cons_none (by rw [hc]; rfl)]
      exact ih finite ((Agree.add_zero zero).trans h)
    | some c =>
      rw [List.filterMap_cons_some (by rw [hc]; rfl), List.foldl_cons]
      exact ih finite (h.add (.refl _))

theorem denseProduct_agree (e : Equation Float) (symbols : List String) {values : List Float}
    (finite : ∀ x ∈ values, x.isFinite = true) :
    Agree (e.denseProduct symbols values) (e.sparseProduct symbols values) := by
  have dense : List.zipWith (· * ·)
      (symbols.map fun symbol => (e.coefficient? symbol).getD Scalar.zero) values
        = (symbols.zip values).map fun p => (e.coefficient? p.1).getD Scalar.zero * p.2 := by
    rw [List.zipWith_map_left, List.zip, List.map_zipWith]
  have sparse : List.zipWith (· * ·) ((e.mentioned symbols values).map Prod.fst)
      ((e.mentioned symbols values).map Prod.snd)
        = (symbols.zip values).filterMap fun p => (e.coefficient? p.1).map (· * p.2) := by
    rw [List.zipWith_map, List.zipWith_self, mentioned, List.map_filterMap]
    apply List.filterMap_congr
    rintro ⟨symbol, x⟩ _
    exact Option.map_map _ _ _
  have values_finite : ∀ p ∈ symbols.zip values, p.2.isFinite = true :=
    fun p hp => finite p.2 (List.of_mem_zip hp).2
  unfold denseProduct sparseProduct
  refine ((dotProduct_agree_sum _ _).trans ?_).trans (dotProduct_agree_sum _ _).symm
  rw [dense, sparse]
  exact foldl_mentioned values_finite (.refl _)

theorem denseProduct_set {e : Equation Float} {symbols : List String} {values : List Float}
    {j : Nat} {symbol : String} {y : Float} (finite : ∀ x ∈ values, x.isFinite = true)
    (hj : symbols[j]? = some symbol) (absent : e.coefficient? symbol = none)
    (hy : y.isFinite = true) :
    Agree (e.denseProduct symbols (values.set j y)) (e.denseProduct symbols values) := by
  have finite' : ∀ x ∈ values.set j y, x.isFinite = true := by
    intro x hx
    rcases List.mem_or_eq_of_mem_set hx with old | rfl
    · exact finite x old
    · exact hy
  have same : e.sparseProduct symbols (values.set j y) = e.sparseProduct symbols values := by
    rw [sparseProduct, sparseProduct, mentioned_set hj absent]
  have agree := e.denseProduct_agree symbols finite'
  rw [same] at agree
  exact agree.trans (e.denseProduct_agree symbols finite).symm

end Equation

/-! ## Residuals and verdicts -/

theorem Tolerance.admits_congr (t : Tolerance) {a a' b : Float} (h : Agree a a') :
    t.admits a b = t.admits a' b := by
  unfold admits
  rw [(h.sub (.refl b)).abs_eq, h.abs_eq]

namespace LinearSystem

theorem residuals_eq_dense {R : Type} [Scalar R] (s : LinearSystem R) {values : List R}
    (h : values.length = s.symbols.length) :
    s.residuals values
      = .ok (s.equations.map fun e => e.denseProduct s.symbols values - e.constant) := by
  rw [residuals_eq s h, matrix_eq_map, constants, List.zipWith_map, List.zipWith_self]
  rfl

/-- For each equation, whether its left-hand side is its constant, within a tolerance. -/
def verdicts (s : LinearSystem Float) (values : List Float) (t : Tolerance) :
    Except SystemError (List Bool) :=
  (s.residuals values).map fun residuals =>
    (residuals.zip s.constants).map fun (r, k) => t.admits (k + r) k

variable (s : LinearSystem Float) {values : List Float}

theorem isSolvedBy_eq_verdicts (values : List Float) (t : Tolerance) :
    s.isSolvedBy values t = (s.verdicts values t).map (·.all id) := by
  unfold isSolvedBy verdicts
  cases s.residuals values with
  | error e => rfl
  | ok residuals =>
    simp only [Except.map, List.all_map]
    rfl

theorem verdicts_eq_dense (h : values.length = s.symbols.length) (t : Tolerance) :
    s.verdicts values t = .ok (s.equations.map fun e =>
      t.admits (e.constant + (e.denseProduct s.symbols values - e.constant)) e.constant) := by
  unfold verdicts
  rw [residuals_eq_dense s h, constants]
  simp only [Except.map, List.zip_map', List.map_map]
  rfl

/-- **Residuals need no variable that is left out.** On finite values every residual is, as floats
compare, what the equation gives from the variables that it mentions, in canonical order. Another
finite value for a variable that it leaves out changes nothing in the residual but the sign of a
zero, and nothing in the equation's part of the verdict. -/
theorem residuals_read_mentioned (values : List Float)
    (length : values.length = s.symbols.length) (finite : ∀ x ∈ values, x.isFinite = true) :
    (∀ xs t, s.isSolvedBy xs t = (s.verdicts xs t).map (·.all id)) ∧
    ∃ residuals, s.residuals values = .ok residuals ∧
      List.Forall₂ (fun e r => Agree r (e.sparseProduct s.symbols values - e.constant))
        s.equations residuals ∧
      ∀ (i j : Nat) (e : Equation Float) (symbol : String) (y : Float),
        s.equations[i]? = some e → s.symbols[j]? = some symbol →
        e.coefficient? symbol = none → y.isFinite = true →
        ∃ residuals' r r', s.residuals (values.set j y) = .ok residuals' ∧
          residuals[i]? = some r ∧ residuals'[i]? = some r' ∧
          SameButZero (decode r') (decode r) ∧
          ∀ t, ∃ parts parts' v, s.verdicts values t = .ok parts ∧
            s.verdicts (values.set j y) t = .ok parts' ∧
            parts[i]? = some v ∧ parts'[i]? = some v := by
  refine ⟨s.isSolvedBy_eq_verdicts, _, s.residuals_eq_dense length, ?_, ?_⟩
  · rw [List.forall₂_map_right_iff, List.forall₂_same]
    intro e _
    exact (e.denseProduct_agree s.symbols finite).sub (.refl e.constant)
  · intro i j e symbol y he hj absent hy
    have length' : (values.set j y).length = s.symbols.length := by rw [List.length_set, length]
    have products := Equation.denseProduct_set finite hj absent hy
    have residual := products.sub (.refl e.constant)
    refine ⟨_, e.denseProduct s.symbols values - e.constant, _, s.residuals_eq_dense length',
      by rw [List.getElem?_map, he]; rfl, by rw [List.getElem?_map, he]; rfl,
      agree_iff.mp residual, fun t => ?_⟩
    refine ⟨_, _, _, s.verdicts_eq_dense length t, s.verdicts_eq_dense length' t,
      by rw [List.getElem?_map, he]; rfl, ?_⟩
    rw [List.getElem?_map, he, Option.map_some,
      t.admits_congr ((Agree.refl e.constant).add residual)]

/-- `6x - 6z = 1` and `5y = 0`. -/
def gapped : LinearSystem Float :=
  (ofEquations? [⟨[⟨"x", .ofBits 0x4018000000000000⟩, ⟨"z", .ofBits 0xC018000000000000⟩],
      .ofBits 0x3FF0000000000000, by decide⟩,
    ⟨[⟨"y", .ofBits 0x4014000000000000⟩], .ofBits 0, by decide⟩]).get (by decide +kernel)

/-- With `z = -2` and `y = -0.0`, the second residual is `0.0` for `x = 1` and `-0.0` for `x = -1`.
-/
theorem gapped_residuals_read_mentioned :
    let values := [.ofBits 0x3FF0000000000000, .ofBits 0xC000000000000000,
      .ofBits 0x8000000000000000]
    let others := values.set 0 (.ofBits 0xBFF0000000000000)
    gapped.symbols = ["x", "z", "y"] ∧
    gapped.residuals values = .ok [.ofBits 0x4031000000000000, .ofBits 0] ∧
    gapped.residuals others = .ok [.ofBits 0x4014000000000000, .ofBits 0x8000000000000000] ∧
    ∀ t, ∃ parts parts' v, gapped.verdicts values t = .ok parts ∧
      gapped.verdicts others t = .ok parts' ∧ parts[1]? = some v ∧ parts'[1]? = some v := by
  intro values others
  have equation : gapped.equations[1]?
      = some ⟨[⟨"y", .ofBits 0x4014000000000000⟩], .ofBits 0, by decide⟩ := by decide +kernel
  obtain ⟨_, _, _, _, each⟩ := gapped.residuals_read_mentioned values
    (by decide +kernel) (by decide +kernel)
  obtain ⟨_, _, _, _, _, _, _, parts⟩ := each 1 0 _ "x" (.ofBits 0xBFF0000000000000) equation
    (by decide +kernel) (by decide +kernel) (by decide)
  exact ⟨by decide +kernel, by decide +kernel, by decide +kernel, parts⟩

end LinearSystem

end Seidel
