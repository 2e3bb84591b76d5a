import Seidel.Proofs.Solver.Sweeping

/-!
# How a solve ends

What can go wrong goes wrong in a fixed order: the first text that is no equation, the number of
equations, the first equation that cannot be solved for its own variable. Whether the last can be
solved does not depend on the values, so a zero on the diagonal is met in the first sweep or never,
and a run delivers all its sweeps or none (`solveSources_outcome`).
-/

namespace Seidel

/-! ## Runs -/

namespace Solver

variable {R : Type} [Scalar R] {s : Solver R}

theorem run_singular (ready : s.Ready) {p : Nat} (hp : p < s.system.symbols.length)
    (zero : s.system.ZeroDiagonal p) (first : ∀ i < p, ¬ s.system.ZeroDiagonal i) (n : Nat) :
    ∃ symbol, s.system.symbols[p]? = some symbol ∧
      s.run (n + 1) = ⟨[], .error (.zeroDiagonal symbol p (s.sweeps + 1))⟩ := by
  obtain ⟨t, symbol, _, _, hsymbol, sweep⟩ := sweep_singular ready hp zero first
  exact ⟨symbol, hsymbol, by rw [run, sweep]⟩

/-- Without a zero on the diagonal every sweep succeeds, whatever the values become. -/
theorem run_regular (ready : s.Ready) {n : Nat}
    (regular : 0 < n → ∀ i < s.system.symbols.length, ¬ s.system.ZeroDiagonal i) :
    ∃ last, (s.run n).result = .ok last ∧
      last.values.length = s.system.symbols.length ∧
      (s.run n).snapshots.map Snapshot.iteration = List.range' (s.sweeps + 1) n := by
  induction n generalizing s with
  | zero => exact ⟨s.approximation, rfl, ready.values_length, rfl⟩
  | succ n ih =>
    have regular := regular (Nat.succ_pos n)
    obtain ⟨t, updated, _, sweep⟩ := sweep_regular ready regular
    have next : Ready { t with sweeps := s.sweeps + 1 } :=
      ⟨(updated.ready ready).square, (updated.ready ready).values_length⟩
    have system : t.system = s.system := updated.system_eq
    obtain ⟨last, result, length, iterations⟩ := ih next fun _ => system ▸ regular
    rw [run, sweep]
    refine ⟨last, result, length.trans (congrArg (·.symbols.length) system), ?_⟩
    simp only [List.map_cons, iterations, List.range'_succ]

end Solver

/-! ## Reading the equations -/

/-- Where not all entries have a property, one is the first without it. -/
theorem exists_first_not {α : Type} {p : α → Prop} {xs : List α} (h : ∃ x ∈ xs, ¬ p x) :
    ∃ i x, xs[i]? = some x ∧ ¬ p x ∧ ∀ y ∈ xs.take i, p y := by
  induction xs with
  | nil => simp at h
  | cons x rest ih =>
    by_cases hx : p x
    · obtain ⟨y, mem, hy⟩ := h
      have later : y ∈ rest := by
        rcases List.mem_cons.mp mem with rfl | later
        · exact absurd hx hy
        · exact later
      obtain ⟨i, z, hi, hz, before⟩ := ih ⟨y, later, hy⟩
      refine ⟨i + 1, z, hi, hz, ?_⟩
      rw [List.take_succ_cons, List.forall_mem_cons]
      exact ⟨hx, before⟩
    · exact ⟨0, x, rfl, hx, by simp⟩

/-- The first text that is no equation, and what is wrong with it. -/
structure FirstFault (sources : List String) (i : Nat) (cause : ParseError) : Prop where
  faulty : ∃ source, sources[i]? = some source ∧ Equation.parse source = .error cause
  first : ∀ source ∈ sources.take i, ∃ e, Equation.parse source = .ok e

theorem exists_firstFault {sources : List String} {source : String} {cause : ParseError}
    (mem : source ∈ sources) (faulty : Equation.parse source = .error cause) :
    ∃ i cause, FirstFault sources i cause := by
  have unreadable : ¬ ∃ e, Equation.parse source = .ok e := by
    rintro ⟨e, h⟩
    rw [faulty] at h
    cases h
  obtain ⟨i, first, hi, unreadable, before⟩ :=
    exists_first_not (p := fun s => ∃ e, Equation.parse s = .ok e) ⟨source, mem, unreadable⟩
  cases h : Equation.parse first with
  | ok e => exact absurd ⟨e, h⟩ unreadable
  | error cause => exact ⟨i, cause, ⟨first, hi, h⟩, before⟩

theorem parseEquations_of_fault {sources : List String} {i : Nat} {cause : ParseError}
    (h : FirstFault sources i cause) (index : Nat) :
    parseEquations index sources = .error (.parse (index + i) cause) := by
  obtain ⟨⟨source, hi, faulty⟩, first⟩ := h
  induction sources generalizing i index with
  | nil => simp at hi
  | cons head rest ih =>
    cases i with
    | zero =>
      obtain rfl : head = source := by simpa using hi
      simp only [parseEquations, faulty, Nat.add_zero]
    | succ i =>
      obtain ⟨e, readable⟩ := first head List.mem_cons_self
      have later := ih (index + 1) (fun s hs => first s (List.mem_cons_of_mem _ hs))
        (by simpa using hi)
      simp only [parseEquations, readable, later]
      rw [Nat.add_right_comm]
      rfl

theorem parseEquations_of_readable {sources : List String} {equations : List (Equation Float)}
    (h : List.Forall₂ (fun source e => Equation.parse source = .ok e) sources equations)
    (index : Nat) : parseEquations index sources = .ok equations := by
  induction h generalizing index with
  | nil => rfl
  | cons head _ ih =>
    simp only [parseEquations, head, ih]
    rfl

namespace LinearSystem

theorem parse_of_fault {sources : List String} {i : Nat} {cause : ParseError}
    (h : FirstFault sources i cause) : parse sources = .error (.parse i cause) := by
  rw [parse, parseEquations_of_fault h, Nat.zero_add]
  rfl

theorem parse_of_readable {sources symbols : List String} {equations : List (Equation Float)}
    (readable : List.Forall₂ (fun source e => Equation.parse source = .ok e) sources equations)
    (order : CanonicalOrder equations symbols) (numbered : symbols.length ≤ Variable.limit) :
    ∃ s, parse sources = .ok s ∧ s.equations = equations ∧ s.symbols = symbols := by
  have few : (symbolsOf equations).length ≤ Variable.limit := by
    rwa [(canonicalOrder_symbolsOf equations).unique order]
  obtain ⟨s, assembled, rfl⟩ := exists_ofEquations? few
  refine ⟨s, ?_, rfl, s.canonicalOrder.unique order⟩
  rw [parse, parseEquations_of_readable readable]
  simp only [Except.bind, ofEquations, assembled]

/-! ## Solving a system -/

section Start

variable {R : Type} [Scalar R] {s : LinearSystem R} {n : Nat}

theorem run_of_not_square (h : ¬ s.IsSquare) :
    s.run n = ⟨[], .error (.system (.structural s.equations.length s.symbols.length))⟩ := by
  simp only [LinearSystem.run, Solver.start, h, ↓reduceIte]

theorem run_of_square (h : s.IsSquare) :
    s.run n = Solver.run ⟨s, .zeros s.symbols, 0⟩ n := by
  simp only [LinearSystem.run, Solver.start, h, ↓reduceIte]

theorem ready_zeros (h : s.IsSquare) : Solver.Ready ⟨s, .zeros s.symbols, 0⟩ :=
  ⟨h, List.length_replicate⟩

end Start

variable {s : LinearSystem Float} {n : Nat}

/-- The first equation without a coefficient other than zero for its own variable. -/
structure FirstZero (equations : List (Equation Float)) (symbols : List String) (i : Nat)
    (symbol : String) : Prop where
  symbol_eq : symbols[i]? = some symbol
  vanishes : ∃ e, equations[i]? = some e ∧ e.hasPivot symbol = false
  first : ∀ p ∈ (equations.zip symbols).take i, p.1.hasPivot p.2 = true

theorem exists_firstZero {equations : List (Equation Float)} {symbols : List String}
    (h : ∃ p ∈ equations.zip symbols, p.1.hasPivot p.2 = false) :
    ∃ i symbol, FirstZero equations symbols i symbol := by
  simp only [← Bool.not_eq_true] at h
  obtain ⟨i, ⟨e, symbol⟩, hi, vanishes, before⟩ := exists_first_not h
  obtain ⟨he, hsymbol⟩ := List.getElem?_zip_eq_some.mp hi
  exact ⟨i, symbol, hsymbol, ⟨e, he, Bool.eq_false_iff.mpr vanishes⟩, before⟩

namespace FirstZero

variable {i : Nat} {symbol : String}

theorem zeroDiagonal (h : FirstZero s.equations s.symbols i symbol) : s.ZeroDiagonal i := by
  obtain ⟨hsymbol, ⟨e, he, vanishes⟩, _⟩ := h
  exact (zeroDiagonal_iff he hsymbol).mpr vanishes

theorem position_lt (h : FirstZero s.equations s.symbols i symbol) : i < s.symbols.length :=
  (List.getElem?_eq_some_iff.mp h.symbol_eq).1

theorem regular_before (h : FirstZero s.equations s.symbols i symbol) (square : s.IsSquare) :
    ∀ j < i, ¬ s.ZeroDiagonal j := by
  intro j hj
  obtain ⟨e, symbol, _, he, hsymbol, _⟩ := exists_equation square (Nat.lt_trans hj h.position_lt)
  have mem : (e, symbol) ∈ (s.equations.zip s.symbols).take i := by
    apply List.mem_of_getElem? (i := j)
    rw [List.getElem?_take_of_lt hj]
    exact List.getElem?_zip_eq_some.mpr ⟨he, hsymbol⟩
  rw [zeroDiagonal_iff he hsymbol, h.first _ mem]
  exact Bool.noConfusion

theorem run_eq (h : FirstZero s.equations s.symbols i symbol) (square : s.IsSquare)
    (positive : 0 < n) : s.run n = ⟨[], .error (.zeroDiagonal symbol i 1)⟩ := by
  obtain ⟨m, rfl⟩ := Nat.exists_eq_succ_of_ne_zero (Nat.ne_of_gt positive)
  obtain ⟨_, found, run⟩ := Solver.run_singular (ready_zeros square) h.position_lt h.zeroDiagonal
    (h.regular_before square) m
  cases h.symbol_eq.symm.trans found
  rw [run_of_square square, run]

end FirstZero

theorem run_of_regular (square : s.IsSquare) (regular : n = 0 ∨ s.Regular) :
    ∃ snapshots last, s.run n = ⟨snapshots, .ok last⟩ ∧
      snapshots.map Snapshot.iteration = List.range' 1 n ∧
      ∃ residuals, s.residuals last.values = .ok residuals := by
  have nonzero : 0 < n → ∀ i < s.symbols.length, ¬ s.ZeroDiagonal i := by
    intro positive i hi
    rcases regular with rfl | regular
    · cases positive
    · exact regular.not_zeroDiagonal square hi
  obtain ⟨last, result, length, iterations⟩ := Solver.run_regular (ready_zeros square) nonzero
  rw [run_of_square square]
  exact ⟨_, last, by rw [← result], iterations, _, residuals_eq s length⟩

/-- **How a solve ends.** If some text is no equation, with what is wrong with the first such text.
Otherwise, if there are not as many equations as variables, with both numbers, even if no sweep is
wanted. Otherwise, if any sweep is wanted and some equation has no coefficient other than zero for
its own variable, with the first such equation, in the first sweep. Otherwise all sweeps are
delivered in order. Before a failure none is delivered. -/
theorem solveSources_outcome (sources : List String) (n : Nat) :
    ((∃ source ∈ sources, ∃ cause, Equation.parse source = .error cause) →
      ∃ i cause, FirstFault sources i cause ∧
        solveSources sources n = .error (.system (.parse i cause))) ∧
    ∀ equations symbols,
      List.Forall₂ (fun source e => Equation.parse source = .ok e) sources equations →
      CanonicalOrder equations symbols → symbols.length ≤ 2 ^ 32 - 1 →
      ∃ s : LinearSystem Float, parse sources = .ok s ∧
        (equations.length ≠ symbols.length →
          solveSources sources n
            = .error (.system (.structural equations.length symbols.length)) ∧
          s.run n = ⟨[], .error (.system (.structural equations.length symbols.length))⟩) ∧
        (equations.length = symbols.length →
          0 < n ∧ (∃ p ∈ equations.zip symbols, p.1.hasPivot p.2 = false) →
            ∃ i symbol, FirstZero equations symbols i symbol ∧
              solveSources sources n = .error (.zeroDiagonal symbol i 1) ∧
              s.run n = ⟨[], .error (.zeroDiagonal symbol i 1)⟩) ∧
        (equations.length = symbols.length →
          n = 0 ∨ (∀ p ∈ equations.zip symbols, p.1.hasPivot p.2 = true) →
            ∃ snapshots last, solveSources sources n = .ok snapshots ∧
              s.run n = ⟨snapshots, .ok last⟩ ∧
              snapshots.map Snapshot.iteration = List.range' 1 n ∧
              ∃ residuals, s.residuals last.values = .ok residuals) := by
  constructor
  · rintro ⟨source, mem, cause, faulty⟩
    obtain ⟨i, cause, fault⟩ := exists_firstFault mem faulty
    refine ⟨i, cause, fault, ?_⟩
    rw [solveSources, parse_of_fault fault]
    rfl
  · intro equations symbols readable order numbered
    obtain ⟨s, parsed, rfl, rfl⟩ := parse_of_readable readable order numbered
    have solved : solveSources sources n = (s.run n).result.map fun _ => (s.run n).snapshots := by
      rw [solveSources, parsed]
      rfl
    refine ⟨s, parsed, fun uneven => ?_, fun square ⟨positive, zero⟩ => ?_,
      fun square regular => ?_⟩
    · have run := run_of_not_square (n := n) uneven
      exact ⟨by rw [solved, run]; rfl, run⟩
    · obtain ⟨i, symbol, first⟩ := exists_firstZero zero
      have run := first.run_eq square positive
      exact ⟨i, symbol, first, by rw [solved, run]; rfl, run⟩
    · obtain ⟨snapshots, last, run, rest⟩ := run_of_regular square regular
      exact ⟨snapshots, last, by rw [solved, run]; rfl, run, rest⟩

end LinearSystem

end Seidel
