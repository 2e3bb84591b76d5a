import Seidel.Equation.Printer
import Seidel.Proofs.Decimal.Printing
import Seidel.Proofs.Equation.Reading
import Seidel.Proofs.Text.Words

/-!
# Printed equations read back

The text of an equation is a written equation (`Equation.written`): its first term carries its own
sign, every other one has an operator for the sign and is written without it. What can be read at
all is read back from its text, up to the sign of zeros.
-/

namespace Seidel

open Binary64

theorem forall_mem_of_forall₂ {α β : Type} {r : α → β → Prop} {p : α → Prop} {q : β → Prop}
    {as : List α} {bs : List β} (h : List.Forall₂ r as bs) (all : ∀ a ∈ as, p a)
    (step : ∀ a b, p a → r a b → q b) : ∀ b ∈ bs, q b := by
  induction h with
  | nil => exact nofun
  | cons related _ ih =>
    intro b hb
    rcases List.mem_cons.mp hb with rfl | hb
    · exact step _ _ (all _ List.mem_cons_self) related
    · exact ih (fun a ha => all a (List.mem_cons_of_mem _ ha)) b hb

theorem isFinite_iterate_neg (k : Nat) (x : Float) : ((- ·)^[k] x).isFinite = x.isFinite := by
  induction k with
  | zero => rfl
  | succ k ih => rw [Function.iterate_succ_apply', isFinite_neg, ih]

/-! ## Numerals and letters -/

theorem toNat_of_isNumeralChar {c : Char} (h : isNumeralChar c = true) :
    45 ≤ c.toNat ∧ c.toNat ≤ 57 := by
  simp only [isNumeralChar, Char.isDigit, Bool.or_eq_true, Bool.and_eq_true, decide_eq_true_eq,
    beq_iff_eq] at h
  rcases h with (⟨lower, upper⟩ | rfl) | rfl
  · have lower : 48 ≤ c.toNat := UInt32.le_iff_toNat_le.mp lower
    have upper : c.toNat ≤ 57 := UInt32.le_iff_toNat_le.mp upper
    omega
  · decide
  · decide

theorem not_blank_of_isNumeralChar {c : Char} (h : isNumeralChar c = true) :
    Text.isBlank c = false := by
  have := toNat_of_isNumeralChar h
  simp only [Text.isBlank, Bool.or_eq_false_iff, Bool.and_eq_false_iff, decide_eq_false_iff_not,
    beq_eq_false_iff_ne]
  omega

theorem not_isNumeralChar_of_isLetter {c : Char} (h : Text.isLetter c = true) :
    isNumeralChar c = false := by
  have := Text.ge_of_isLetter h
  cases numeral : isNumeralChar c
  · rfl
  · have := toNat_of_isNumeralChar numeral
    omega

theorem isNumeralChar_format {x : Float} (h : x.isFinite = true) :
    ∀ c ∈ Decimal.plain.format x, isNumeralChar c = true := by
  intro c hc
  rcases Decimal.format_chars h c hc with digit | rfl | rfl
  · simp [isNumeralChar, digit]
  · rfl
  · rfl

theorem isWord_format {x : Float} (h : x.isFinite = true) :
    Text.IsWord (Decimal.plain.format x) := by
  constructor
  · intro empty
    have read := Decimal.floatOfText?_format (l := Decimal.plain) h
    rw [empty] at read
    cases read
  · intro c hc
    exact not_blank_of_isNumeralChar (isNumeralChar_format h c hc)

/-! ## One term -/

namespace Term

/-- What can stand in an equation that is read. -/
structure Readable (t : Term Float) : Prop where
  symbol_ne_empty : t.symbol ≠ ""
  letters : t.symbol.toList.all Text.isLetter = true
  finite : t.coefficient.isFinite = true

/-- What stands before the variable. -/
def coefficientText (t : Term Float) : List Char :=
  if t.coefficient == .ofBits 0x3FF0000000000000 then []
  else if t.coefficient == .ofBits 0xBFF0000000000000 then ['-']
  else Decimal.plain.format t.coefficient

theorem toList_text (t : Term Float) : t.text.toList = t.coefficientText ++ t.symbol.toList := by
  unfold text coefficientText
  split
  · rfl
  · split
    · exact String.toList_append
    · rw [String.toList_append, String.toList_ofList]

variable {t : Term Float}

theorem isNumeralChar_coefficientText (h : t.coefficient.isFinite = true) :
    ∀ c ∈ t.coefficientText, isNumeralChar c = true := by
  unfold coefficientText
  split
  · exact nofun
  · split
    · intro c hc
      rw [List.mem_singleton.mp hc]
      rfl
    · exact isNumeralChar_format h

theorem coefficientText_means (h : t.coefficient.isFinite = true) :
    CoefficientText t.coefficientText t.coefficient := by
  unfold coefficientText
  split
  · rename_i one
    rw [eq_of_beq one (by decide)]
    exact .omitted
  · split
    · rename_i minusOne
      rw [eq_of_beq minusOne (by decide)]
      exact .hyphen
    · exact .numeral (Decimal.floatOfText?_format h)

theorem span_text (h : t.Readable) (signs : List Sign) :
    (⟨signs, t.text.toList⟩ : WrittenTerm).digits = t.coefficientText ∧
      (⟨signs, t.text.toList⟩ : WrittenTerm).symbol = t.symbol.toList := by
  have stop : ∀ c ∈ t.symbol.toList.head?, isNumeralChar c = false := by
    intro c hc
    have mem := List.mem_of_mem_head? hc
    exact not_isNumeralChar_of_isLetter (List.all_eq_true.mp h.letters c mem)
  unfold WrittenTerm.digits WrittenTerm.symbol
  rw [toList_text]
  exact Decimal.span_run (isNumeralChar_coefficientText h.finite) _ stop

theorem Readable.wellFormed (h : t.Readable) (signs : List Sign) :
    (⟨signs, t.text.toList⟩ : WrittenTerm).WellFormed := by
  obtain ⟨digits, symbol⟩ := span_text h signs
  refine ⟨?_, ?_, t.coefficient, ?_, h.finite⟩
  · rw [symbol]
    simpa using h.symbol_ne_empty
  · rw [symbol]
    exact h.letters
  · rw [digits]
    exact coefficientText_means h.finite

theorem Readable.isWord (h : t.Readable) : Text.IsWord t.text.toList := by
  rw [toList_text]
  constructor
  · simpa using fun _ => h.symbol_ne_empty
  · intro c hc
    rcases List.mem_append.mp hc with hc | hc
    · exact not_blank_of_isNumeralChar (isNumeralChar_coefficientText h.finite c hc)
    · exact Text.not_blank_of_isLetter (List.all_eq_true.mp h.letters c hc)

/-- The same variable with a coefficient that compares equal. -/
def Same (t t' : Term Float) : Prop :=
  t.symbol = t'.symbol ∧ (t.coefficient == t'.coefficient) = true

/-- What the text of a term is read as. -/
theorem eq_of_means (h : t.Readable) {signs : List Sign} {t' : Term Float}
    (means : (⟨signs, t.text.toList⟩ : WrittenTerm).Means t') :
    t' = ⟨t.symbol, (- ·)^[signs.count .minus] t.coefficient⟩ := by
  obtain ⟨digits, symbol⟩ := span_text h signs
  obtain ⟨x, text, eq⟩ := means.coefficient_eq
  rw [digits] at text
  rw [text.unique (coefficientText_means h.finite)] at eq
  have name := means.symbol_eq
  rw [symbol, String.ofList_toList] at name
  cases t'
  exact Term.mk.injEq .. ▸ ⟨name, eq⟩

/-! ## Terms after the first -/

def sign (t : Term Float) : Sign := if t.coefficient < .ofBits 0 then .minus else .plus

def unsigned (t : Term Float) : Term Float := { t with coefficient := t.coefficient.abs }

/-- How a term after the first is written. -/
def written (t : Term Float) : WrittenTerm := ⟨[t.sign], t.unsigned.text.toList⟩

theorem Readable.unsigned (h : t.Readable) : t.unsigned.Readable :=
  ⟨h.symbol_ne_empty, h.letters, (isFinite_abs _).trans h.finite⟩

theorem toList_continuation (t : Term Float) :
    t.continuation.toList = ' ' :: (t.sign.word ++ ' ' :: t.unsigned.text.toList) := by
  unfold continuation sign
  split
  · rw [String.toList_append]
    rfl
  · rw [String.toList_append]
    rfl

theorem Same.readable {t' : Term Float} (same : t'.Same t) (h : t'.Readable) : t.Readable :=
  ⟨same.1 ▸ h.symbol_ne_empty, same.1 ▸ h.letters, isFinite_of_beq same.2 h.finite⟩

theorem readable_of_means {w : WrittenTerm} (h : w.WellFormed) (means : w.Means t) :
    t.Readable := by
  obtain ⟨x, text, finite⟩ := h.coefficient
  obtain ⟨y, text', eq⟩ := means.coefficient_eq
  refine ⟨?_, ?_, ?_⟩
  · rw [means.symbol_eq]
    simpa using h.symbol_ne_nil
  · rw [means.symbol_eq, String.toList_ofList]
    exact h.letters
  · rw [eq, isFinite_iterate_neg, text'.unique text]
    exact finite

theorem same_of_written (h : t.Readable) {t' : Term Float} (means : t.written.Means t') :
    t'.Same t := by
  rw [eq_of_means h.unsigned means]
  refine ⟨rfl, ?_⟩
  unfold sign Term.unsigned
  by_cases negative : t.coefficient < .ofBits 0
  · rw [if_pos negative]
    change (-t.coefficient.abs == t.coefficient) = true
    rw [neg_abs_of_lt_zero negative]
    exact beq_self h.finite
  · rw [if_neg negative]
    exact abs_beq_of_not_lt_zero negative h.finite

theorem forall₂_same {rest : List (Term Float)} (h : ∀ t ∈ rest, t.Readable)
    {rest' : List (Term Float)} (means : List.Forall₂ WrittenTerm.Means (rest.map written) rest') :
    List.Forall₂ Same rest' rest := by
  induction rest generalizing rest' with
  | nil =>
    cases means
    exact .nil
  | cons t rest ih =>
    cases means with
    | cons first others =>
      exact .cons (same_of_written (h t List.mem_cons_self) first)
        (ih (fun u hu => h u (List.mem_cons_of_mem _ hu)) others)

end Term

theorem Sign.isWord (s : Sign) : Text.IsWord s.word := by
  cases s <;> exact Text.isWord_singleton rfl

/-! ## Equations -/

namespace Equation

variable {e : Equation Float}

/-- An equation with terms, all of which can be read, and a finite constant. -/
structure Readable (e : Equation Float) : Prop where
  terms_ne_nil : e.terms ≠ []
  terms : ∀ t ∈ e.terms, t.Readable
  constant : e.constant.isFinite = true

/-- The same terms in the same order and the same constant, as floats compare. -/
def Same (e e' : Equation Float) : Prop :=
  List.Forall₂ Term.Same e.terms e'.terms ∧ (e.constant == e'.constant) = true

def written (e : Equation Float) : WrittenEquation where
  terms := match e.terms with
    | [] => []
    | t :: rest => ⟨[], t.text.toList⟩ :: rest.map Term.written
  constant := Decimal.plain.format e.constant

theorem words_continuations {rest : List (Term Float)} (h : ∀ t ∈ rest, t.Readable)
    {run : List Char} (word : Text.IsWord run) (tail : List Char) :
    Text.words (run ++ (rest.flatMap (·.continuation.toList) ++ ' ' :: tail))
      = run :: (rest.flatMap (·.written.words) ++ Text.words tail) := by
  induction rest generalizing run with
  | nil => exact Text.words_append_blank word rfl tail
  | cons t rest ih =>
    have first := h t List.mem_cons_self
    rw [List.flatMap_cons, Term.toList_continuation]
    simp only [List.cons_append, List.append_assoc]
    rw [Text.words_append_blank word rfl, Text.words_append_blank t.sign.isWord rfl,
      ih (fun u hu => h u (List.mem_cons_of_mem _ hu)) first.unsigned.isWord]
    rfl

theorem toList_text {t : Term Float} {rest : List (Term Float)} (terms : e.terms = t :: rest) :
    e.text.toList = t.text.toList ++ (rest.flatMap (·.continuation.toList)
      ++ ' ' :: (['='] ++ ' ' :: Decimal.plain.format e.constant)) := by
  simp [Equation.text, Term.sumText, String.toList_join, List.flatMap_map, terms]

theorem words_text (h : e.Readable) : Text.words e.text.toList = e.written.words := by
  obtain ⟨terms, constant, distinct⟩ := e
  obtain ⟨t, rest, rfl⟩ := List.exists_cons_of_ne_nil h.terms_ne_nil
  have text := toList_text (e := ⟨t :: rest, constant, distinct⟩) rfl
  have equals : Text.IsWord ['='] := Text.isWord_singleton rfl
  have first := h.terms t List.mem_cons_self
  rw [text, words_continuations (fun u hu => h.terms u (List.mem_cons_of_mem _ hu)) first.isWord,
    Text.words_append_blank equals rfl, Text.words_of_isWord (isWord_format h.constant)]
  simp [written, WrittenEquation.words, WrittenTerm.words, List.flatMap_map]

theorem symbols_written (h : e.Readable) :
    e.written.terms.map WrittenTerm.symbol = e.terms.map (·.symbol.toList) := by
  obtain ⟨terms, constant, distinct⟩ := e
  obtain ⟨t, rest, rfl⟩ := List.exists_cons_of_ne_nil h.terms_ne_nil
  simp only [written, List.map_cons, List.map_map, List.cons.injEq]
  constructor
  · exact (Term.span_text (h.terms t List.mem_cons_self) []).2
  · apply List.map_congr_left
    intro u hu
    exact (Term.span_text (h.terms u (List.mem_cons_of_mem _ hu)).unsigned [u.sign]).2

theorem Readable.wellFormed (h : e.Readable) : e.written.WellFormed := by
  have symbols := symbols_written h
  obtain ⟨terms, constant, distinct⟩ := e
  obtain ⟨t, rest, rfl⟩ := List.exists_cons_of_ne_nil h.terms_ne_nil
  refine ⟨List.cons_ne_nil _ _, ?_, ?_, ?_, constant, Decimal.floatOfText?_format h.constant,
    h.constant⟩
  · intro w hw
    obtain ⟨u, _, rfl⟩ := List.mem_map.mp hw
    exact List.cons_ne_nil _ _
  · intro w hw
    rcases List.mem_cons.mp hw with rfl | hw
    · exact (h.terms t List.mem_cons_self).wellFormed []
    · obtain ⟨u, hu, rfl⟩ := List.mem_map.mp hw
      exact (h.terms u (List.mem_cons_of_mem _ hu)).unsigned.wellFormed [u.sign]
  · have := distinct.map (f := String.toList) fun _ _ => String.toList_injective
    rw [List.map_map] at this
    rw [symbols]
    exact this

theorem Readable.same_of_means (h : e.Readable) {e' : Equation Float} (means : e.written.Means e') :
    e'.Same e := by
  obtain ⟨terms, constant, distinct⟩ := e
  obtain ⟨t, rest, rfl⟩ := List.exists_cons_of_ne_nil h.terms_ne_nil
  constructor
  · have terms_mean := means.terms_mean
    cases eq : e'.terms with
    | nil =>
      rw [eq] at terms_mean
      cases terms_mean
    | cons t' rest' =>
      rw [eq] at terms_mean
      obtain ⟨first, others⟩ := List.forall₂_cons.mp terms_mean
      have readable := h.terms t List.mem_cons_self
      refine .cons ?_ (Term.forall₂_same (fun u hu => h.terms u (List.mem_cons_of_mem _ hu)) others)
      rw [Term.eq_of_means readable first]
      exact ⟨rfl, beq_self readable.finite⟩
  · have read := (Decimal.floatOfText?_format h.constant).symm.trans means.constant_eq
    rw [← Option.some.inj read]
    exact beq_self h.constant

/-- What the parser returns can be read again. -/
theorem readable_of_parse {source : String} (h : Equation.parse source = .ok e) : e.Readable := by
  obtain ⟨w, _, wellFormed, means⟩ := exists_of_parse h
  refine ⟨?_, ?_, ?_⟩
  · intro empty
    have terms_mean := means.terms_mean
    rw [empty, List.forall₂_nil_right_iff] at terms_mean
    exact wellFormed.terms_ne_nil terms_mean
  · exact forall_mem_of_forall₂ means.terms_mean wellFormed.terms_wellFormed
      fun _ _ => Term.readable_of_means
  · obtain ⟨c, value, finite⟩ := wellFormed.constant_finite
    rwa [Option.some.inj (means.constant_eq.symm.trans value)]

theorem Same.readable {e' : Equation Float} (same : e'.Same e) (h : e'.Readable) : e.Readable := by
  refine ⟨?_, ?_, isFinite_of_beq same.2 h.constant⟩
  · intro empty
    have terms := same.1
    rw [empty, List.forall₂_nil_right_iff] at terms
    exact h.terms_ne_nil terms
  · exact forall_mem_of_forall₂ same.1 h.terms fun _ _ h same => same.readable h

theorem exists_parse_text (h : e.Readable) : ∃ e', Equation.parse e.text = .ok e' ∧ e'.Same e := by
  obtain ⟨e', parsed, means⟩ := parse_of_wellFormed (words_text h).symm h.wellFormed
  exact ⟨e', parsed, h.same_of_means means⟩

/-- **Round trip.** Printing and reading are inverse, as floats compare, exactly on the equations
that have a term, only variables of letters and only finite numbers. All equations that are read
are among them. -/
theorem parse_text_iff :
    (∀ e : Equation Float, (∃ e', Equation.parse e.text = .ok e' ∧ e'.Same e) ↔
      e.terms ≠ [] ∧
      (∀ t ∈ e.terms, t.symbol ≠ "" ∧ t.symbol.toList.all Text.isLetter = true ∧
        t.coefficient.isFinite = true) ∧
      e.constant.isFinite = true) ∧
    ∀ source e, Equation.parse source = .ok e →
      ∃ e', Equation.parse e.text = .ok e' ∧ e'.Same e := by
  refine ⟨fun e => ⟨?_, ?_⟩, fun source e h => exists_parse_text (readable_of_parse h)⟩
  · rintro ⟨e', parsed, same⟩
    have h := same.readable (readable_of_parse parsed)
    exact ⟨h.terms_ne_nil, fun t ht => ⟨(h.terms t ht).1, (h.terms t ht).2, (h.terms t ht).3⟩,
      h.constant⟩
  · rintro ⟨nonempty, terms, constant⟩
    exact exists_parse_text
      ⟨nonempty, fun t ht => ⟨(terms t ht).1, (terms t ht).2.1, (terms t ht).2.2⟩, constant⟩

end Equation

end Seidel
