import Seidel.Json.Parser
import Seidel.Proofs.Decimal.Printing

/-!
# Numbers in JSON

A numeral of any layout is the literal of a number, as long as no zero stands before another digit
(`isLiteral_finite`). Where a literal ends matters: no character may come that could continue it.
-/

namespace Seidel.Json

/-! ## Where numbers start and end -/

/-- A number is over: no digit, point or exponent comes next. -/
def EndsNumber (cs : List Char) : Prop :=
  ∀ c ∈ cs.head?, c.isDigit = false ∧ c ≠ '.' ∧ c ≠ 'e' ∧ c ≠ 'E'

/-- A character that a number can start with. -/
def StartsNumber (c : Char) : Prop :=
  c = '-' ∨ c.isDigit = true

theorem StartsNumber.ne {c d : Char} (h : StartsNumber c) (other : d ≠ '-' ∧ d.isDigit = false) :
    c ≠ d := by
  rintro rfl
  rcases h with rfl | digit
  · exact other.1 rfl
  · rw [other.2] at digit
    cases digit

theorem StartsNumber.not_isSpace {c : Char} (h : StartsNumber c) : isSpace c = false := by
  simp only [isSpace, Bool.or_eq_false_iff, beq_eq_false_iff_ne]
  exact ⟨⟨⟨h.ne (by decide), h.ne (by decide)⟩, h.ne (by decide)⟩, h.ne (by decide)⟩

/-- The literal of a number, which is read as far as it goes. -/
structure IsLiteral (literal : List Char) : Prop where
  starts : ∃ c cs, literal = c :: cs ∧ StartsNumber c
  reads : ∀ rest, EndsNumber rest → number? (literal ++ rest) = some (literal, rest)

/-! ## Numerals -/

theorem digits?_append {ds : List Char} (digits : ∀ c ∈ ds, c.isDigit = true) (nonempty : ds ≠ [])
    {rest : List Char} (stop : ∀ c ∈ rest.head?, c.isDigit = false) :
    digits? (ds ++ rest) = some (ds, rest) := by
  obtain ⟨taken, dropped⟩ := Decimal.span_run digits rest stop
  unfold digits?
  rw [taken, dropped]
  cases ds with
  | nil => exact absurd rfl nonempty
  | cons d ds => rfl

/-- No zero stands before another digit. -/
def Unpadded (whole : List Char) : Prop :=
  whole.head? = some '0' → whole = ['0']

theorem unpadded_toDigits (n : Nat) : Unpadded (Nat.toDigits 10 n) :=
  fun zero => Decimal.toDigits_of_head_zero zero

section Parts

variable {rest : List Char}

theorem wholePart?_append {whole : List Char} (digits : ∀ c ∈ whole, c.isDigit = true)
    (nonempty : whole ≠ []) (unpadded : Unpadded whole)
    (stop : ∀ c ∈ rest.head?, c.isDigit = false) :
    wholePart? (whole ++ rest) = some (whole, rest) := by
  unfold wholePart?
  rw [digits?_append digits nonempty stop, Option.bind_some]
  apply if_neg
  rintro ⟨zero, long⟩
  rw [unpadded zero] at long
  exact absurd long (by decide)

theorem mem_head?_append {α : Type} {left right : List α} {c : α}
    (h : c ∈ (left ++ right).head?) : c ∈ left.head? ∨ c ∈ right.head? := by
  cases left with
  | nil => exact .inr h
  | cons d left => exact .inl h

theorem eq_point_of_mem_fractionText {n : Decimal.Numeral} {c : Char}
    (h : c ∈ n.fractionText.head?) : c = '.' := by
  unfold Decimal.Numeral.fractionText at h
  split at h
  · cases h
  · exact (Option.some.inj h).symm

theorem fractionPart?_append {n : Decimal.Numeral} (h : n.WellFormed)
    (stop : ∀ c ∈ rest.head?, c.isDigit = false ∧ c ≠ '.') :
    fractionPart? (n.fractionText ++ rest) = some (n.fractionText, rest) := by
  unfold Decimal.Numeral.fractionText
  by_cases none : n.fraction = []
  · rw [if_pos none, List.nil_append]
    unfold fractionPart?
    split
    · exact absurd rfl (stop '.' rfl).2
    · rfl
  · have read := digits?_append h.fraction_isDigit none fun c hc => (stop c hc).1
    rw [if_neg none, List.cons_append, fractionPart?, read]
    rfl

/-- Without a sign, the digits of an exponent follow its letter. -/
theorem exponentPart?_unsigned {c : Char} (digit : c.isDigit = true) (cs : List Char) :
    exponentPart? ('e' :: c :: cs)
      = (digits? (c :: cs)).map fun (ds, rest) => ('e' :: ds, rest) := by
  simp only [exponentPart?, true_or, ↓reduceIte]
  split
  · rename_i eq
    cases eq
    exact absurd digit (by decide)
  · rename_i eq
    cases eq
    exact absurd digit (by decide)
  · rfl

theorem exponentPart?_append (plusSign : Bool) (exponent : Option Int) (ends : EndsNumber rest) :
    exponentPart? (Decimal.Numeral.exponentText plusSign exponent ++ rest)
      = some (Decimal.Numeral.exponentText plusSign exponent, rest) := by
  cases exponent with
  | none =>
    change exponentPart? rest = some ([], rest)
    unfold exponentPart?
    split
    · rfl
    · rename_i e rest
      rw [if_neg]
      rintro (rfl | rfl)
      · exact (ends 'e' rfl).2.2.1 rfl
      · exact (ends 'E' rfl).2.2.2 rfl
  | some e =>
    have read := digits?_append (Decimal.toDigits_isDigit e.natAbs) Nat.toDigits_ne_nil
      fun c hc => (ends c hc).1
    obtain ⟨c, cs, digits, isDigit⟩ := Decimal.exists_toDigits e.natAbs
    unfold Decimal.Numeral.exponentText
    by_cases negative : e < 0
    · simp [exponentPart?, negative, read]
    · cases plusSign with
      | true => simp [exponentPart?, negative, read]
      | false =>
        rw [digits, List.cons_append] at read
        simp [exponentPart?_unsigned isDigit, negative, digits, read]

theorem magnitude?_append {n : Decimal.Numeral} (h : n.WellFormed) (unpadded : Unpadded n.whole)
    (plusSign : Bool) (ends : EndsNumber rest) :
    magnitude? (n.text plusSign ++ rest) = some (n.text plusSign, rest) := by
  have afterFraction : ∀ c ∈ (Decimal.Numeral.exponentText plusSign n.exponent ++ rest).head?,
      c.isDigit = false ∧ c ≠ '.' := by
    intro c hc
    rcases mem_head?_append hc with exponent | next
    · exact Decimal.Numeral.exponentText_head plusSign n.exponent c exponent
    · exact ⟨(ends c next).1, (ends c next).2.1⟩
  have afterWhole : ∀ c ∈ (n.fractionText
      ++ (Decimal.Numeral.exponentText plusSign n.exponent ++ rest)).head?, c.isDigit = false := by
    intro c hc
    rcases mem_head?_append hc with fraction | next
    · rw [eq_point_of_mem_fractionText fraction]
      rfl
    · exact (afterFraction c next).1
  have whole := wholePart?_append h.whole_isDigit h.whole_ne_nil unpadded afterWhole
  have fraction := fractionPart?_append h afterFraction
  have exponent := exponentPart?_append plusSign n.exponent ends
  simp [magnitude?, Decimal.Numeral.text, whole, fraction, exponent]

end Parts

/-! ## Literals -/

theorem isLiteral_text {n : Decimal.Numeral} (h : n.WellFormed) (unpadded : Unpadded n.whole)
    (plusSign : Bool) : IsLiteral (n.text plusSign) := by
  obtain ⟨c, cs, eq, digit⟩ := Decimal.Numeral.exists_text h plusSign
  refine ⟨⟨c, cs, eq, .inr digit⟩, fun rest ends => ?_⟩
  have read := magnitude?_append h unpadded plusSign ends
  rw [← read, eq, List.cons_append]
  unfold number?
  split
  · rename_i eq
    cases eq
    exact absurd digit (by decide)
  · rfl

theorem isLiteral_negative {n : Decimal.Numeral} (h : n.WellFormed) (unpadded : Unpadded n.whole)
    (plusSign : Bool) : IsLiteral ('-' :: n.text plusSign) := by
  refine ⟨⟨'-', _, rfl, .inl rfl⟩, fun rest ends => ?_⟩
  rw [List.cons_append, number?, magnitude?_append h unpadded plusSign ends]
  rfl

theorem isLiteral_toDigits (n : Nat) : IsLiteral (Nat.toDigits 10 n) := by
  have literal := isLiteral_text (n := ⟨Nat.toDigits 10 n, [], none⟩)
    ⟨Nat.toDigits_ne_nil, Decimal.toDigits_isDigit n, nofun⟩ (unpadded_toDigits n) false
  rwa [Decimal.Numeral.text, Decimal.Numeral.fractionText, if_pos rfl,
    Decimal.Numeral.exponentText, List.append_nil, List.append_nil] at literal

/-! ## Floats -/

/-- Zero has no digits that a point could be moved past. -/
theorem unpadded_numeral (l : Decimal.Layout) {d : Decimal}
    (zero : d.digits = 0 → d.exponent ≤ 0) : Unpadded (l.numeral d).whole := by
  have nonempty : d.text ≠ [] := Nat.toDigits_ne_nil
  have single (h : d.text.head? = some '0') : d.text = ['0'] ∧ d.exponent ≤ 0 := by
    have text : d.text = ['0'] := Decimal.toDigits_of_head_zero h
    refine ⟨text, zero ?_⟩
    rw [← Decimal.natOfDigits_text d, text]
    rfl
  have point : d.leadingExponent = d.exponent + d.text.length - 1 := rfl
  unfold Unpadded Decimal.Layout.numeral Decimal.Numeral.ofDigits
  split
  · split
    · exact fun _ => rfl
    · split
      · intro head
        dsimp only at head ⊢
        rw [List.head?_append_of_ne_nil _ nonempty] at head
        obtain ⟨text, small⟩ := single head
        have none : (d.leadingExponent + 1).natAbs - d.text.length = 0 := by omega
        rw [none, text]
        rfl
      · intro head
        dsimp only at head ⊢
        rw [List.head?_take, if_neg (by omega)] at head
        rw [(single head).1]
        exact List.take_of_length_le (by rw [List.length_singleton]; omega)
  · intro head
    dsimp only at head ⊢
    rw [List.head?_take, if_neg Nat.one_ne_zero] at head
    rw [(single head).1]
    rfl

theorem unpadded_shortest (l : Decimal.Layout) {x : Float} (h : Decimal.Unsigned x) :
    Unpadded (l.numeral (Decimal.shortest l.tie x)).whole :=
  unpadded_numeral l (Decimal.exponent_shortest h)

/-- The text of a finite float is the literal of a number. -/
theorem isLiteral_finite (l : Decimal.Layout) {x : Float} (h : x.isFinite = true) :
    IsLiteral (l.finite x) := by
  have wellFormed := l.wellFormed_numeral (Decimal.shortest l.tie x.abs)
  have unpadded := unpadded_shortest l (Decimal.unsigned_abs h)
  unfold Decimal.Layout.finite
  rw [← l.text_numeral]
  split
  · exact isLiteral_negative wellFormed unpadded l.plusSign
  · exact isLiteral_text wellFormed unpadded l.plusSign

end Seidel.Json
