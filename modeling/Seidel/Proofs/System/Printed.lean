import Seidel.Proofs.Solver.Agreement
import Seidel.Proofs.Solver.Calls
import Seidel.Proofs.Solver.Outcome

/-!
# Printed systems

A system is shown with one line for each equation, which names the variable that this equation
determines, and what is shown of the equations can be read and assembled again
(`text_reads_back`). The new system compares as equal to the old one: after the first term of an
equation the sign of a zero coefficient is lost, and no sweep ever makes a number of the
difference.
-/

namespace Seidel

open Binary64

/-! ## Lines -/

/-- Text that stands on one line. -/
def IsLine (cs : List Char) : Prop :=
  '\n' ∉ cs

instance (cs : List Char) : Decidable (IsLine cs) :=
  inferInstanceAs (Decidable (_ ∉ _))

theorem isLine_append {cs ds : List Char} : IsLine (cs ++ ds) ↔ IsLine cs ∧ IsLine ds := by
  rw [IsLine, List.mem_append, not_or]
  rfl

theorem isLine_cons {c : Char} {cs : List Char} : IsLine (c :: cs) ↔ c ≠ '\n' ∧ IsLine cs := by
  rw [IsLine, List.mem_cons, not_or, ne_comm]
  rfl

theorem isLine_of_isWord {cs : List Char} (h : Text.IsWord cs) : IsLine cs :=
  fun mem => absurd (h.2 _ mem) (by decide)

theorem isLine_repr (n : Nat) : IsLine n.repr.toList := by
  rw [Nat.toList_repr]
  exact fun mem => absurd (Nat.isDigit_of_mem_toDigits (by decide) (by decide) mem) (by decide)

/-- Text with a line feed after each line falls apart into these lines. -/
theorem splitOn_lines {lines : List (List Char)} (h : ∀ line ∈ lines, IsLine line) :
    (lines.flatMap (· ++ ['\n'])).splitOn '\n' = lines ++ [[]] := by
  induction lines with
  | nil => rfl
  | cons line rest ih =>
    rw [List.flatMap_cons, List.append_assoc, List.singleton_append, List.splitOn_append_cons_self,
      List.splitOn_eq_singleton (h line List.mem_cons_self),
      ih fun l hl => h l (List.mem_cons_of_mem _ hl)]
    rfl

theorem Term.Readable.isLine_continuation {t : Term Float} (h : t.Readable) :
    IsLine t.continuation.toList := by
  rw [toList_continuation, isLine_cons, isLine_append, isLine_cons]
  exact ⟨by decide, isLine_of_isWord t.sign.isWord, by decide, isLine_of_isWord h.unsigned.isWord⟩

theorem Equation.Readable.isLine_text {e : Equation Float} (h : e.Readable) :
    IsLine e.text.toList := by
  obtain ⟨t, rest, terms⟩ := List.exists_cons_of_ne_nil h.terms_ne_nil
  have readable := h.terms
  rw [terms, List.forall_mem_cons] at readable
  have others : IsLine (rest.flatMap (·.continuation.toList)) := by
    intro mem
    obtain ⟨u, hu, mem⟩ := List.mem_flatMap.mp mem
    exact (readable.2 u hu).isLine_continuation mem
  have constant := isLine_of_isWord (isWord_format h.constant)
  simp only [toList_text terms, isLine_append, isLine_cons]
  exact ⟨isLine_of_isWord readable.1.isWord, others, by decide, ⟨by decide, by decide⟩, by decide,
    constant⟩

/-! ## What has been read -/

theorem equations_of_parseEquations {sources : List String} {index : Nat}
    {equations : List (Equation Float)} (h : parseEquations index sources = .ok equations) :
    List.Forall₂ (fun source e => Equation.parse source = .ok e) sources equations := by
  induction sources generalizing index equations with
  | nil =>
    cases h
    exact .nil
  | cons source rest ih =>
    rw [parseEquations] at h
    cases read : Equation.parse source with
    | error cause =>
      rw [read] at h
      cases h
    | ok e =>
      rw [read] at h
      cases later : parseEquations (index + 1) rest with
      | error cause =>
        rw [later] at h
        cases h
      | ok es =>
        rw [later] at h
        cases h
        exact .cons read (ih later)

/-- Equations of what can be read can be read again. -/
theorem exists_parse_texts {equations : List (Equation Float)}
    (h : ∀ e ∈ equations, e.Readable) :
    ∃ equations', List.Forall₂ (fun source e => Equation.parse source = .ok e)
        (equations.map Equation.text) equations' ∧
      List.Forall₂ Equation.Same equations' equations := by
  induction equations with
  | nil => exact ⟨[], .nil, .nil⟩
  | cons e rest ih =>
    obtain ⟨e', read, same⟩ := Equation.exists_parse_text (h e List.mem_cons_self)
    obtain ⟨rest', reads, sames⟩ := ih fun e he => h e (List.mem_cons_of_mem _ he)
    exact ⟨e' :: rest', .cons read reads, .cons same sames⟩

namespace LinearSystem

variable {sources : List String} {s : LinearSystem Float}

theorem equations_of_parse (h : parse sources = .ok s) :
    List.Forall₂ (fun source e => Equation.parse source = .ok e) sources s.equations := by
  rw [parse] at h
  cases read : parseEquations 0 sources with
  | error cause =>
    rw [read] at h
    cases h
  | ok equations =>
    rw [read] at h
    change ofEquations equations = .ok s at h
    unfold ofEquations at h
    split at h
    · cases h
      rw [equations_of_ofEquations? (by assumption)]
      exact equations_of_parseEquations read
    · cases h

theorem readable_of_parse (h : parse sources = .ok s) : ∀ e ∈ s.equations, e.Readable :=
  forall_mem_of_forall₂ (equations_of_parse h) (p := fun _ => True) (fun _ _ => trivial)
    fun _ _ _ read => Equation.readable_of_parse read

/-- A symbol of what has been read is a word of letters. -/
theorem letters_of_parse (h : parse sources = .ok s) {symbol : String} (mem : symbol ∈ s.symbols) :
    symbol.toList.all Text.isLetter = true := by
  obtain ⟨e, he, mem⟩ := (s.canonicalOrder.mem_iff symbol).mp mem
  obtain ⟨t, ht, rfl⟩ := List.mem_map.mp mem
  exact ((readable_of_parse h e he).terms t ht).letters

/-! ## The variable of an equation -/

/-- How the variable that an equation determines is shown. -/
def target (s : LinearSystem Float) (i : Nat) : String :=
  (s.symbols[i]?).getD "?"

theorem target_eq_iff (h : parse sources = .ok s) (i : Nat) :
    s.target i = "?" ↔ s.symbols.length ≤ i := by
  unfold target
  constructor
  · intro eq
    by_contra lt
    rw [List.getElem?_eq_getElem (Nat.lt_of_not_le lt)] at eq
    have letters := letters_of_parse h (List.getElem_mem (Nat.lt_of_not_le lt))
    rw [Option.getD_some] at eq
    rw [eq] at letters
    have letter : Text.isLetter '?' = true := List.all_eq_true.mp letters '?' (by decide)
    exact absurd (Text.ge_of_isLetter letter) (by decide)
  · intro ge
    rw [List.getElem?_eq_none ge]
    rfl

/-- An update writes the variable that its equation is shown with, or nothing. -/
theorem update_target {t : Solver Float} (h : Solver.Serves s t) (i : Nat) :
    match t.update i with
    | (.ok value, u) => u.approximation.get? (s.target i) = some value ∧
        ∀ other ≠ s.target i, u.approximation.get? other = t.approximation.get? other
    | (.error _, u) => u = t := by
  rcases Solver.update_cases h i with ⟨_, eq⟩ | ⟨_, _, _, eq⟩ | ⟨hi, _, value, eq⟩
  · rw [eq]
  · rw [eq]
  · have found := List.getElem?_eq_getElem hi
    have lt : i < t.approximation.values.length := h.length_eq ▸ hi
    have shown : s.target i = s.symbols[i] := by rw [target, found, Option.getD_some]
    rw [eq]
    constructor
    · rw [Approximation.get?, (h.store i value).symbols_eq, shown,
        idxOf?_of_getElem? s.canonicalOrder.nodup found]
      exact List.getElem?_set_self lt
    · intro other ne
      rw [Approximation.get?, Approximation.get?, (h.store i value).symbols_eq, h.symbols_eq]
      cases position : s.symbols.idxOf? other with
      | none => rfl
      | some j =>
        obtain ⟨hj, symbol, _⟩ := List.idxOf?_eq_some_iff.mp position
        refine List.getElem?_set_ne ?_
        rintro rfl
        exact ne (symbol.symm.trans shown.symm)

/-! ## The text -/

theorem isLine_target (h : parse sources = .ok s) (i : Nat) : IsLine (s.target i).toList := by
  unfold target
  cases found : s.symbols[i]? with
  | none => exact (by decide : IsLine "?".toList)
  | some symbol =>
    intro mem
    have letters := letters_of_parse h (List.mem_of_getElem? found)
    exact absurd (Text.ge_of_isLetter (List.all_eq_true.mp letters _ mem)) (by decide)

theorem isLine_line (h : parse sources = .ok s) {e : Equation Float} (mem : e ∈ s.equations)
    (i : Nat) : IsLine (s.line i e).toList := by
  have equation := (readable_of_parse h e mem).isLine_text
  simp only [line, String.toList_append, isLine_append]
  exact ⟨⟨⟨⟨⟨by decide, isLine_repr i⟩, by decide⟩, isLine_target h i⟩, by decide⟩, equation⟩

theorem toList_text (s : LinearSystem Float) :
    s.text.toList = ((s.equations.mapIdx s.line).map String.toList).flatMap (· ++ ['\n']) := by
  rw [text, String.toList_join, List.flatMap_map, List.flatMap_map]
  simp only [String.toList_append]
  rfl

/-- There is one line for each equation. -/
theorem splitOn_text (h : parse sources = .ok s) :
    s.text.toList.splitOn '\n' = (s.equations.mapIdx s.line).map String.toList ++ [[]] := by
  rw [toList_text]
  apply splitOn_lines
  intro line mem
  obtain ⟨_, printed, rfl⟩ := List.mem_map.mp mem
  obtain ⟨i, hi, rfl⟩ := List.mem_mapIdx.mp printed
  exact isLine_line h (List.getElem_mem hi) i

/-- The equations as they are shown give a system with the same variables that compares as
equal. -/
theorem exists_parse_reprinted (h : parse sources = .ok s) :
    ∃ s', parse (s.equations.map Equation.text) = .ok s' ∧
      List.Forall₂ Equation.Same s'.equations s.equations ∧ s'.symbols = s.symbols := by
  obtain ⟨equations, read, same⟩ := exists_parse_texts (readable_of_parse h)
  have symbols : symbolsOf equations = s.symbols :=
    (symbolsOf_eq_of_same same).trans s.symbols_eq.symm
  have order : CanonicalOrder equations s.symbols :=
    symbols ▸ canonicalOrder_symbolsOf equations
  obtain ⟨s', assembled, rfl, symbols'⟩ := parse_of_readable read order s.inverse.length_le
  exact ⟨s', assembled, same, symbols'⟩

/-- **A printed system can be fed back.** It has one line for each equation, with the position of
the equation, the variable that an update at this position writes, and the equation; the variable
is a question mark where there is no variable at the position. The equations as they are shown give
a system with equal equations, the same variables at the same positions, and the same solutions as
floats compare, after any number of sweeps. -/
theorem text_reads_back (h : parse sources = .ok s) :
    s.text.toList.splitOn '\n' = (s.equations.mapIdx fun i e =>
      ("[" ++ i.repr ++ "] " ++ s.target i ++ ": " ++ e.text).toList) ++ [[]] ∧
    (∀ i, s.target i = "?" ↔ s.symbols.length ≤ i) ∧
    (∀ t, Solver.Reachable s t → ∀ i,
      match t.update i with
      | (.ok value, u) => u.approximation.get? (s.target i) = some value ∧
          ∀ other ≠ s.target i, u.approximation.get? other = t.approximation.get? other
      | (.error _, u) => u = t) ∧
    ∃ s', parse (s.equations.map Equation.text) = .ok s' ∧
      List.Forall₂ Equation.Same s'.equations s.equations ∧
      s'.symbols = s.symbols ∧ s'.variableOf? = s.variableOf? ∧
      ∀ n, EndsAlike (s'.solve n) (s.solve n) := by
  obtain ⟨s', assembled, same, symbols⟩ := exists_parse_reprinted h
  refine ⟨?_, target_eq_iff h, fun t reachable i => update_target reachable.serves i,
    s', assembled, same, symbols, ?_, solve_agrees same⟩
  · rw [splitOn_text h, List.mapIdx_eq_zipIdx_map, List.mapIdx_eq_zipIdx_map, List.map_map]
    rfl
  · funext symbol
    apply Option.ext
    intro v
    rw [variableOf?_eq_some_iff, variableOf?_eq_some_iff, symbol?, symbol?, symbols]

/-- The zero of `y` in `2x - 0y = 4` is shown without its sign, so the equations that are read are
not the same floats. -/
theorem negativeZero_text_reads_back :
    ∃ s s', parse ["2x - 0y = 4", "3y + x = 1"] = .ok s ∧
      s.text = "[0] x: 2x + 0y = 4\n[1] y: 3y + x = 1\n" ∧
      parse ["2x + 0y = 4", "3y + x = 1"] = .ok s' ∧ s'.equations ≠ s.equations ∧
      ∀ n, EndsAlike (s'.solve n) (s.solve n) := by
  have read : ((parse ["2x - 0y = 4", "3y + x = 1"]).map fun s =>
      (s.text, s.equations.map Equation.text)).toOption
      = some ("[0] x: 2x + 0y = 4\n[1] y: 3y + x = 1\n", ["2x + 0y = 4", "3y + x = 1"]) := by
    decide +kernel
  have different : ((parse ["2x + 0y = 4", "3y + x = 1"]).map equations).toOption
      ≠ ((parse ["2x - 0y = 4", "3y + x = 1"]).map equations).toOption := by
    decide +kernel
  cases h : parse ["2x - 0y = 4", "3y + x = 1"] with
  | error cause =>
    rw [h] at read
    cases read
  | ok s =>
    obtain ⟨_, _, _, s', assembled, _, _, _, alike⟩ := text_reads_back h
    rw [h] at read different
    obtain ⟨text, texts⟩ := Prod.mk.inj (Option.some.inj read)
    rw [texts] at assembled
    rw [assembled] at different
    exact ⟨s, s', rfl, text, assembled, fun same => different (congrArg some same), alike⟩

end LinearSystem

end Seidel
