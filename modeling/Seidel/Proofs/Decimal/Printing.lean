import Seidel.Decimal.Layout
import Seidel.Decimal.Numeral
import Seidel.Proofs.Decimal.Expansion
import Seidel.Proofs.Decimal.Tenths
import Seidel.Proofs.Decimal.Whole

/-!
# Printed floats read back

Every layout writes a decimal as a numeral: digits, perhaps a point with more digits, perhaps an
exponent (`Layout.text_numeral`). The numeral is read as the same digits with the same power of
ten, or with zeros for a positive one. Together with the digits themselves reading back, a finite
float survives printing in every layout (`floatOfText?_format`).
-/

namespace Seidel.Decimal

open Float.Model Binary64

/-! ## Numerals -/

/-- A numeral without its sign: the digits before the point, those after it, and the exponent. There
is no point without digits after it. -/
structure Numeral where
  whole : List Char
  fraction : List Char
  exponent : Option Int

namespace Numeral

/-- An exponent with its letter and its sign. -/
def exponentText (plusSign : Bool) : Option Int → List Char
  | none => []
  | some e =>
    'e' :: ((if e < 0 then ['-'] else if plusSign then ['+'] else []) ++ Nat.toDigits 10 e.natAbs)

def fractionText (n : Numeral) : List Char :=
  if n.fraction = [] then [] else '.' :: n.fraction

def text (plusSign : Bool) (n : Numeral) : List Char :=
  n.whole ++ (n.fractionText ++ exponentText plusSign n.exponent)

def value (n : Numeral) : Decimal :=
  ⟨natOfDigits (n.whole ++ n.fraction), n.exponent.getD 0 - n.fraction.length⟩

structure WellFormed (n : Numeral) : Prop where
  whole_ne_nil : n.whole ≠ []
  whole_isDigit : ∀ c ∈ n.whole, c.isDigit = true
  fraction_isDigit : ∀ c ∈ n.fraction, c.isDigit = true

end Numeral

/-- A run ends where what follows does not continue it. -/
theorem span_run {α : Type} {p : α → Bool} {run : List α} (inside : ∀ c ∈ run, p c = true)
    (rest : List α) (stop : ∀ c ∈ rest.head?, p c = false) :
    (run ++ rest).takeWhile p = run ∧ (run ++ rest).dropWhile p = rest := by
  rw [List.takeWhile_append_of_pos inside, List.dropWhile_append_of_pos inside]
  cases rest with
  | nil => simp
  | cons c rest => simp [stop c rfl]

theorem signOf_of_isDigit {c : Char} (digit : c.isDigit = true) (cs : List Char) :
    signOf (c :: cs) = (false, c :: cs) := by
  unfold signOf
  split
  · rename_i eq
    cases eq
    cases digit
  · rename_i eq
    cases eq
    cases digit
  · rfl

theorem text_isDigit (d : Decimal) : ∀ c ∈ d.text, c.isDigit = true :=
  toDigits_isDigit d.digits

theorem natOfDigits_zeros (digits : List Char) (k : Nat) :
    natOfDigits (List.replicate k '0' ++ digits) = natOfDigits digits := by
  unfold natOfDigits
  rw [Nat.ofDigitChars_append, Nat.ofDigitChars_replicate_zero, Nat.mul_zero]

theorem natOfDigits_append_zeros (digits : List Char) (k : Nat) :
    natOfDigits (digits ++ List.replicate k '0') = natOfDigits digits * 10 ^ k := by
  unfold natOfDigits
  rw [Nat.ofDigitChars_append, Nat.ofDigitChars_replicate_zero, Nat.mul_comm]

theorem natOfDigits_text (d : Decimal) : natOfDigits d.text = d.digits :=
  natOfDigits_toDigits d.digits

namespace Numeral

variable {n : Numeral}

theorem exponentText_head (plusSign : Bool) (exponent : Option Int) :
    ∀ c ∈ (exponentText plusSign exponent).head?, c.isDigit = false ∧ c ≠ '.' := by
  cases exponent with
  | none => exact nofun
  | some e =>
    intro c hc
    obtain rfl : 'e' = c := by simpa [exponentText] using hc
    decide

theorem exponentOf?_exponentText (plusSign : Bool) (exponent : Option Int) :
    exponentOf? (exponentText plusSign exponent) = some (exponent.getD 0) := by
  cases exponent with
  | none => rfl
  | some e =>
    obtain ⟨c, cs, digits, isDigit⟩ := exists_toDigits e.natAbs
    have all : (c :: cs).all Char.isDigit = true := by
      rw [← digits]
      exact List.all_eq_true.mpr (toDigits_isDigit _)
    have size : natOfDigits (c :: cs) = e.natAbs := by rw [← digits, natOfDigits_toDigits]
    simp only [exponentText, digits]
    by_cases negative : e < 0
    · simp [exponentOf?, negative, signOf, all, size, abs_of_neg negative]
    · have absolute : |e| = e := abs_of_nonneg (Int.not_lt.mp negative)
      cases plusSign with
      | false => simp [exponentOf?, negative, signOf_of_isDigit isDigit, all, size, absolute]
      | true => simp [exponentOf?, negative, signOf, all, size, absolute]

/-- A numeral is read as its value. -/
theorem ofNumeral?_text (h : n.WellFormed) (plusSign : Bool) :
    ofNumeral? (n.text plusSign) = some n.value := by
  have exponent := exponentOf?_exponentText plusSign n.exponent
  have stop := exponentText_head plusSign n.exponent
  have nonempty := h.whole_ne_nil
  unfold text fractionText value
  generalize exponentText plusSign n.exponent = e at *
  by_cases none : n.fraction = []
  · obtain ⟨taken, dropped⟩ := span_run h.whole_isDigit e fun c hc => (stop c hc).1
    have noPoint : fractionOf e = ([], e) := by
      unfold fractionOf
      split
      · exact absurd rfl (stop '.' rfl).2
      · rfl
    simp [ofNumeral?, none, taken, dropped, noPoint, nonempty, exponent]
  · obtain ⟨taken, dropped⟩ := span_run h.whole_isDigit ('.' :: (n.fraction ++ e)) (by simp)
    obtain ⟨taken', dropped'⟩ := span_run h.fraction_isDigit e fun c hc => (stop c hc).1
    simp [ofNumeral?, none, taken, dropped, fractionOf, taken', dropped', nonempty, exponent]

theorem exists_text (h : n.WellFormed) (plusSign : Bool) :
    ∃ c cs, n.text plusSign = c :: cs ∧ c.isDigit = true := by
  obtain ⟨c, cs, eq⟩ := List.exists_cons_of_ne_nil h.whole_ne_nil
  have digit : c.isDigit = true := h.whole_isDigit c (eq ▸ List.mem_cons_self)
  exact ⟨c, _, by rw [text, eq, List.cons_append], digit⟩

theorem mem_text (h : n.WellFormed) {plusSign : Bool} {c : Char} (mem : c ∈ n.text plusSign) :
    c.isDigit = true ∨ c = '.' ∨ n.exponent.isSome = true ∧ (c = 'e' ∨ c = '-' ∨ c = '+') := by
  unfold text fractionText at mem
  rcases List.mem_append.mp mem with mem | mem
  · exact .inl (h.whole_isDigit c mem)
  rcases List.mem_append.mp mem with mem | mem
  · split at mem
    · cases mem
    · rcases List.mem_cons.mp mem with rfl | mem
      · exact .inr (.inl rfl)
      · exact .inl (h.fraction_isDigit c mem)
  · cases exponent : n.exponent with
    | none =>
      rw [exponent] at mem
      cases mem
    | some e =>
      rw [exponent] at mem
      unfold exponentText at mem
      rcases List.mem_cons.mp mem with rfl | mem
      · exact .inr (.inr ⟨rfl, .inl rfl⟩)
      rcases List.mem_append.mp mem with mem | mem
      · split at mem
        · exact .inr (.inr ⟨rfl, .inr (.inl (List.mem_singleton.mp mem))⟩)
        · split at mem
          · exact .inr (.inr ⟨rfl, .inr (.inr (List.mem_singleton.mp mem))⟩)
          · cases mem
      · exact .inl (toDigits_isDigit _ c mem)

end Numeral

/-! ## Layouts -/

/-- The numeral of digits with a point `point` places after their start. -/
def Numeral.ofDigits (digits : List Char) (point : Int) (pointZero : Bool) : Numeral :=
  if point ≤ 0 then ⟨['0'], List.replicate point.natAbs '0' ++ digits, none⟩
  else if digits.length ≤ point.natAbs then
    ⟨digits ++ List.replicate (point.natAbs - digits.length) '0', if pointZero then ['0'] else [],
      none⟩
  else ⟨digits.take point.natAbs, digits.drop point.natAbs, none⟩

/-- The numeral that a layout writes. -/
def Layout.numeral (l : Layout) (d : Decimal) : Numeral :=
  if l.isPositional d.leadingExponent then
    .ofDigits d.text (d.leadingExponent + 1) l.pointZero
  else ⟨d.text.take 1, d.text.drop 1, some d.leadingExponent⟩

namespace Layout

variable {l : Layout}

theorem text_numeral (l : Layout) (d : Decimal) : (l.numeral d).text l.plusSign = l.decimal d := by
  have nonempty : d.text ≠ [] := Nat.toDigits_ne_nil
  simp only [numeral, decimal]
  split
  · unfold Numeral.ofDigits positional Numeral.text Numeral.fractionText
    split
    · simp [nonempty, Numeral.exponentText]
    · split
      · cases l.pointZero <;> simp [Numeral.exponentText]
      · have more : d.text.drop (d.leadingExponent + 1).natAbs ≠ [] := by
          rw [ne_eq, List.drop_eq_nil_iff]
          assumption
        simp [more, Numeral.exponentText]
  · unfold scientific Numeral.text Numeral.fractionText Numeral.exponentText
    have single : d.text.drop 1 = [] ↔ ¬ 1 < d.text.length := by
      rw [List.drop_eq_nil_iff, Nat.not_lt]
    simp only [single, ite_not, List.append_assoc]

theorem wellFormed_numeral (l : Layout) (d : Decimal) : (l.numeral d).WellFormed := by
  have digits := text_isDigit d
  have nonempty : d.text ≠ [] := Nat.toDigits_ne_nil
  have zeros (k : Nat) : ∀ c ∈ List.replicate k '0', c.isDigit = true := by
    intro c hc
    rw [List.eq_of_mem_replicate hc]
    rfl
  have both {left right : List Char} (hl : ∀ c ∈ left, c.isDigit = true)
      (hr : ∀ c ∈ right, c.isDigit = true) : ∀ c ∈ left ++ right, c.isDigit = true := by
    intro c hc
    exact (List.mem_append.mp hc).elim (hl c) (hr c)
  have first (k : Nat) : ∀ c ∈ d.text.take k, c.isDigit = true :=
    fun c hc => digits c (List.mem_of_mem_take hc)
  have rest (k : Nat) : ∀ c ∈ d.text.drop k, c.isDigit = true :=
    fun c hc => digits c (List.mem_of_mem_drop hc)
  unfold numeral Numeral.ofDigits
  split
  · split
    · exact ⟨List.cons_ne_nil _ _, zeros 1, both (zeros _) digits⟩
    · split
      · refine ⟨by simp [nonempty], both digits (zeros _), ?_⟩
        cases l.pointZero
        · exact nofun
        · exact zeros 1
      · exact ⟨by simp [nonempty]; omega, first _, rest _⟩
  · exact ⟨by simp [nonempty], first 1, rest 1⟩

/-- What is written is the decimal itself, or one with the zeros of a positive exponent among its
digits, and perhaps one more after the point. -/
theorem value_numeral (l : Layout) (d : Decimal) :
    (l.numeral d).value = d ∨ ∃ k : Nat, d.exponent = k ∧
      ((l.numeral d).value = ⟨d.digits * 10 ^ k, 0⟩ ∨
        (l.numeral d).value = ⟨d.digits * 10 ^ k * 10, -1⟩) := by
  obtain ⟨n, e⟩ := d
  have nonempty : text ⟨n, e⟩ ≠ [] := Nat.toDigits_ne_nil
  have value := natOfDigits_text ⟨n, e⟩
  have point : leadingExponent ⟨n, e⟩ = e + (text ⟨n, e⟩).length - 1 := rfl
  simp only [numeral, point]
  generalize text ⟨n, e⟩ = digits at *
  have pos : 0 < digits.length := List.length_pos_iff.mpr nonempty
  have whole (k : Nat) : digits.take k ++ digits.drop k = digits := List.take_append_drop k digits
  unfold Numeral.ofDigits
  split
  · split
    · left
      simp only [Numeral.value, Decimal.mk.injEq]
      refine ⟨(natOfDigits_zeros _ 1).trans ((natOfDigits_zeros digits _).trans value), ?_⟩
      simp only [Option.getD_none, List.length_append, List.length_replicate]
      omega
    · split
      · right
        refine ⟨e.toNat, by omega, ?_⟩
        have places : (e + digits.length - 1 + 1).natAbs - digits.length = e.toNat := by omega
        rw [places]
        cases l.pointZero with
        | false =>
          left
          simp [Numeral.value, natOfDigits_append_zeros, value]
        | true =>
          right
          simp only [Numeral.value, Decimal.mk.injEq]
          refine ⟨(natOfDigits_append_zeros _ 1).trans ?_, rfl⟩
          rw [natOfDigits_append_zeros, value, Nat.pow_one]
      · left
        simp only [Numeral.value, whole, value, Decimal.mk.injEq, true_and, Option.getD_none,
          List.length_drop]
        omega
  · left
    simp only [Numeral.value, whole, value, Decimal.mk.injEq, true_and, Option.getD_some,
      List.length_drop]
    omega

theorem toFloat_numeral (l : Layout) {d : Decimal} (finite : d.toFloat.isFinite = true) :
    (l.numeral d).value.toFloat = d.toFloat := by
  rcases l.value_numeral d with same | ⟨k, exponent, shifted⟩
  · rw [same]
  · obtain ⟨n, e⟩ := d
    obtain rfl : e = k := exponent
    have shift := toFloat_shift (bounded_of_isFinite finite)
    rcases shifted with value | value
    · rw [value]
      exact shift
    · rw [value, toFloat_tenths]
      exact shift

end Layout

/-! ## Signs -/

theorem isNegative_eq (x : Float) :
    isNegative x = (UnpackedFloat.Sign.ofBitVec (signBit x.toBits.toBitVec) == .negative) := by
  have sign := toNat_signBit x.toBits.toBitVec
  have toNat : x.toBits.toBitVec.toNat = x.toBits.toNat := rfl
  have bound : (0x8000000000000000 : UInt64) ≤ x.toBits ↔ 2 ^ 63 ≤ x.toBits.toNat :=
    UInt64.le_iff_toNat_le
  unfold isNegative
  rw [toNat] at sign
  generalize signBit x.toBits.toBitVec = b at *
  have cases_of (b : BitVec 1) : b = 0#1 ∨ b = 1#1 := by
    revert b
    decide
  rcases cases_of b with rfl | rfl
  · have small : ¬ 2 ^ 63 ≤ x.toBits.toNat := by
      change 0 = _ at sign
      omega
    rw [decide_eq_false (mt bound.mp small)]
    rfl
  · have large : 2 ^ 63 ≤ x.toBits.toNat := by
      change 1 = _ at sign
      omega
    rw [decide_eq_true (bound.mpr large)]
    rfl

/-- A finite float is its absolute value with its sign. -/
theorem signed_abs {x : Float} (finite : x.isFinite = true) :
    (if isNegative x then -x.abs else x.abs) = x := by
  have reads := reads_decode x
  apply decode_injective
  rw [apply_ite decode, decode_neg, decode_abs, isNegative_eq]
  change (decode x).isFinite = true at finite
  generalize decode x = u at *
  cases reads with
  | infinity => cases finite
  | notANumber => cases finite
  | zero => cases UnpackedFloat.Sign.ofBitVec (signBit x.toBits.toBitVec) <;> rfl
  | subnormal => cases UnpackedFloat.Sign.ofBitVec (signBit x.toBits.toBitVec) <;> rfl
  | normal => cases UnpackedFloat.Sign.ofBitVec (signBit x.toBits.toBitVec) <;> rfl

/-! ## Floats -/

theorem toLower_of_isDigit {c : Char} (digit : c.isDigit = true) : c.toLower = c := by
  unfold Char.toLower
  rw [dif_neg]
  simp only [Char.isDigit, Bool.and_eq_true, decide_eq_true_eq] at digit
  rintro ⟨lower, _⟩
  exact absurd (UInt32.le_trans lower digit.2) (by decide)

theorem floatOfText?_unsigned {c : Char} {cs : List Char} (digit : c.isDigit = true) {d : Decimal}
    (read : ofNumeral? (c :: cs) = some d) :
    floatOfText? (c :: cs) = some d.toFloat ∧ floatOfText? ('-' :: c :: cs) = some (-d.toFloat) := by
  have notWord : ofWord? (c :: cs) = none := by
    have hi : c ≠ 'i' := by
      rintro rfl
      cases digit
    have hn : c ≠ 'n' := by
      rintro rfl
      cases digit
    simp [ofWord?, toLower_of_isDigit digit, hi, hn]
  constructor
  · simp [floatOfText?, signOf_of_isDigit digit, notWord, read]
  · simp [floatOfText?, signOf, notWord, read]

/-- The text of a float without a sign, alone and behind a hyphen. -/
theorem floatOfText?_decimal (l : Layout) {x : Float} (h : Unsigned x) :
    floatOfText? (l.decimal (shortest l.tie x)) = some x ∧
      floatOfText? ('-' :: l.decimal (shortest l.tie x)) = some (-x) := by
  have value : (shortest l.tie x).toFloat = x := toFloat_shortest h
  have wellFormed := l.wellFormed_numeral (shortest l.tie x)
  have same := l.toFloat_numeral (value.symm ▸ isFinite_of_unsigned h)
  have read := Numeral.ofNumeral?_text wellFormed l.plusSign
  obtain ⟨c, cs, eq, digit⟩ := Numeral.exists_text wellFormed l.plusSign
  rw [← l.text_numeral]
  rw [eq] at read ⊢
  have texts := floatOfText?_unsigned digit read
  rwa [same, value] at texts

theorem format_of_isFinite {l : Layout} {x : Float} (h : x.isFinite = true) :
    l.format x = l.finite x :=
  if_pos h

/-- A finite float reads back from its text, its sign included. -/
theorem floatOfText?_finite (l : Layout) {x : Float} (h : x.isFinite = true) :
    floatOfText? (l.finite x) = some x := by
  obtain ⟨positive, negative⟩ := floatOfText?_decimal l (unsigned_abs h)
  have signed := signed_abs h
  unfold Layout.finite
  cases sign : isNegative x
  · rw [sign] at signed
    exact positive.trans (congrArg some signed)
  · rw [sign] at signed
    exact negative.trans (congrArg some signed)

theorem floatOfText?_format {l : Layout} {x : Float} (h : x.isFinite = true) :
    floatOfText? (l.format x) = some x := by
  rw [format_of_isFinite h, floatOfText?_finite l h]

/-- So does a float that is not finite. -/
theorem floatOfText?_format_special {l : Layout} {x : Float} (h : x.isFinite = false) :
    floatOfText? (l.format x) = some x := by
  rcases isFinite_eq_false_iff.mp h with infinite | nan
  · obtain ⟨s, infinite⟩ := isInf_iff.mp infinite
    cases s with
    | positive =>
      obtain rfl : x = .ofBits 0x7FF0000000000000 := decode_injective (infinite.trans rfl)
      rfl
    | negative =>
      obtain rfl : x = .ofBits 0xFFF0000000000000 := decode_injective (infinite.trans rfl)
      rfl
  · obtain rfl : x = .ofBits 0x7FF8000000000000 :=
      decode_injective ((isNaN_iff.mp nan).trans rfl)
    rfl

theorem reads_format (l : Layout) (x : Float) : floatOfText? (l.format x) = some x := by
  cases finite : x.isFinite
  · exact floatOfText?_format_special finite
  · exact floatOfText?_format finite

theorem mem_finite {l : Layout} {x : Float} {c : Char} (mem : c ∈ l.finite x) :
    c = '-' ∨ c ∈ (l.numeral (shortest l.tie x.abs)).text l.plusSign := by
  unfold Layout.finite at mem
  rw [← l.text_numeral] at mem
  rcases List.mem_append.mp mem with sign | digits
  · split at sign
    · exact .inl (List.mem_singleton.mp sign)
    · cases sign
  · exact .inr digits

/-- Without an exponent there are digits, a point and a sign only. -/
theorem format_chars {x : Float} (h : x.isFinite = true) :
    ∀ c ∈ plain.format x, c.isDigit = true ∨ c = '-' ∨ c = '.' := by
  rw [format_of_isFinite h]
  intro c hc
  have positional (d : Decimal) : (plain.numeral d).exponent = none := by
    change (Numeral.ofDigits _ _ _).exponent = none
    unfold Numeral.ofDigits
    split
    · rfl
    · split <;> rfl
  rcases mem_finite hc with sign | digits
  · exact .inr (.inl sign)
  · rcases Numeral.mem_text (plain.wellFormed_numeral _) digits with digit | point | ⟨exponent, _⟩
    · exact .inl digit
    · exact .inr (.inr point)
    · rw [positional] at exponent
      cases exponent

/-- The characters of a float in any layout, words for special values included. -/
theorem mem_format {l : Layout} {x : Float} {c : Char} (mem : c ∈ l.format x) :
    c.isDigit = true ∨ c ∈ ['-', '.', 'e', '+', 'i', 'n', 'f', 'N', 'a'] := by
  unfold Layout.format at mem
  split at mem
  · rcases mem_finite mem with rfl | digits
    · exact .inr (by decide)
    · rcases Numeral.mem_text (l.wellFormed_numeral _) digits with digit | rfl | ⟨_, rfl | rfl | rfl⟩
      · exact .inl digit
      · exact .inr (by decide)
      · exact .inr (by decide)
      · exact .inr (by decide)
      · exact .inr (by decide)
  · right
    have words : ∀ word ∈ [['N', 'a', 'N'], ['-', 'i', 'n', 'f'], ['i', 'n', 'f']],
        word ⊆ ['-', '.', 'e', '+', 'i', 'n', 'f', 'N', 'a'] := by simp
    refine words _ ?_ mem
    split
    · exact List.mem_cons_self
    · split <;> simp

end Seidel.Decimal
