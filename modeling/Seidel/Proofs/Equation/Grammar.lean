import Seidel.Equation.Parser
import Seidel.Proofs.Binary64.Decoding

/-!
# The grammar of equations

`sign* term (sign+ term)* '=' constant`, over the words of a text. A term is one word: the longest
start of digits, points and hyphens is its coefficient and the rest its variable. What each word
means is said here without the machine that reads it.
-/

namespace Seidel

/-! ## Signs -/

def Sign.word : Sign → List Char
  | .plus => ['+']
  | .minus => ['-']

theorem Sign.apply_then (s t : Sign) (x : Float) :
    (s.then t).apply x = s.apply (t.apply x) := by
  cases s with
  | plus => rfl
  | minus =>
    cases t with
    | plus => rfl
    | minus => exact (Binary64.neg_neg x).symm

theorem Sign.apply_foldl (s : Sign) (signs : List Sign) (x : Float) :
    (signs.foldl Sign.then s).apply x = s.apply ((- ·)^[signs.count .minus] x) := by
  induction signs generalizing s with
  | nil => rfl
  | cons t signs ih =>
    rw [List.foldl_cons, ih, apply_then]
    cases t with
    | plus => simp [Sign.apply]
    | minus =>
      rw [List.count_cons_self, Function.iterate_succ_apply']
      rfl

theorem Token.ofWord_cases (word : List Char) :
    (∃ s : Sign, word = s.word ∧ Token.ofWord word = .sign s) ∨
    (word = ['='] ∧ Token.ofWord word = .equals) ∨ Token.ofWord word = .word word := by
  unfold Token.ofWord
  split
  · exact Or.inl ⟨.plus, rfl, rfl⟩
  · exact Or.inl ⟨.minus, rfl, rfl⟩
  · exact Or.inr (Or.inl ⟨rfl, rfl⟩)
  · exact Or.inr (Or.inr rfl)

theorem Token.ofWord_sign (s : Sign) : Token.ofWord s.word = .sign s := by
  cases s <;> rfl

/-! ## Words -/

/-- The coefficient that stands before a variable: one when it is left out, minus one for a mere
hyphen, else what a float reads as. -/
inductive CoefficientText : List Char → Float → Prop
  | omitted : CoefficientText [] (.ofBits 0x3FF0000000000000)
  | hyphen : CoefficientText ['-'] (.ofBits 0xBFF0000000000000)
  | numeral {digits : List Char} {x : Float} :
    Decimal.floatOfText? digits = some x → CoefficientText digits x

theorem coefficientOfText?_eq_some_iff {digits : List Char} {x : Float} :
    coefficientOfText? digits = some x ↔ CoefficientText digits x := by
  constructor
  · intro h
    unfold coefficientOfText? at h
    split at h
    · cases h
      exact .omitted
    · cases h
      exact .hyphen
    · exact .numeral h
  · intro h
    cases h with
    | omitted => rfl
    | hyphen => rfl
    | numeral h =>
      unfold coefficientOfText?
      split
      · cases h
      · cases h
      · exact h

theorem CoefficientText.unique {digits : List Char} {x y : Float} (hx : CoefficientText digits x)
    (hy : CoefficientText digits y) : x = y := by
  rw [← coefficientOfText?_eq_some_iff] at hx hy
  exact Option.some.inj (hx.symm.trans hy)

/-- A run of signs with the word of the term that they stand before. -/
structure WrittenTerm where
  signs : List Sign
  word : List Char

namespace WrittenTerm

variable (w : WrittenTerm)

def words : List (List Char) := w.signs.map Sign.word ++ [w.word]

/-- The longest start of digits, points and hyphens. -/
def digits : List Char := w.word.takeWhile isNumeralChar

def symbol : List Char := w.word.dropWhile isNumeralChar

structure WellFormed : Prop where
  symbol_ne_nil : w.symbol ≠ []
  letters : w.symbol.all Text.isLetter = true
  coefficient : ∃ x, CoefficientText w.digits x ∧ x.isFinite = true

/-- Every hyphen of the run negates the coefficient once. -/
structure Means (t : Term Float) : Prop where
  symbol_eq : t.symbol = String.ofList w.symbol
  coefficient_eq : ∃ x, CoefficientText w.digits x ∧
    t.coefficient = (- ·)^[w.signs.count .minus] x

end WrittenTerm

/-- The terms before the equals sign and the word after it. -/
structure WrittenEquation where
  terms : List WrittenTerm
  constant : List Char

namespace WrittenEquation

variable (w : WrittenEquation)

def words : List (List Char) := w.terms.flatMap WrittenTerm.words ++ [['='], w.constant]

/-- Only the first term may do without a sign before it. -/
structure WellFormed : Prop where
  terms_ne_nil : w.terms ≠ []
  separated : ∀ t ∈ w.terms.tail, t.signs ≠ []
  terms_wellFormed : ∀ t ∈ w.terms, t.WellFormed
  distinct : (w.terms.map WrittenTerm.symbol).Nodup
  constant_finite : ∃ c, Decimal.floatOfText? w.constant = some c ∧ c.isFinite = true

structure Means (e : Equation Float) : Prop where
  terms_mean : List.Forall₂ WrittenTerm.Means w.terms e.terms
  constant_eq : Decimal.floatOfText? w.constant = some e.constant

end WrittenEquation

/-! ## One word at a time -/

theorem constantOfWord_eq_ok_iff {word : List Char} {c : Float} :
    constantOfWord word = .ok c ↔
      Decimal.floatOfText? word = some c ∧ c.isFinite = true := by
  unfold constantOfWord requireFinite
  cases Decimal.floatOfText? word with
  | none => simp
  | some x =>
    by_cases finite : x.isFinite = true
    · simp only [finite, ↓reduceIte, Except.ok.injEq, Option.some.injEq, iff_self_and]
      rintro rfl
      exact finite
    · simp only [finite, Bool.false_eq_true, ↓reduceIte, reduceCtorEq, Option.some.injEq, false_iff,
        not_and]
      rintro rfl
      exact finite

theorem Term.ofWord_eq_ok_iff {w : WrittenTerm} {t : Term Float} :
    Term.ofWord w.word = .ok t ↔
      w.symbol ≠ [] ∧ w.symbol.all Text.isLetter = true ∧
        ∃ x, CoefficientText w.digits x ∧ x.isFinite = true ∧ t = ⟨String.ofList w.symbol, x⟩ := by
  simp only [← coefficientOfText?_eq_some_iff]
  unfold Term.ofWord requireFinite WrittenTerm.symbol WrittenTerm.digits
  dsimp only
  generalize w.word.dropWhile isNumeralChar = symbol
  generalize coefficientOfText? (w.word.takeWhile isNumeralChar) = value
  by_cases empty : symbol = []
  · simp [empty]
  by_cases letters : symbol.all Text.isLetter = true
  · simp only [empty, letters, ↓reduceIte, Bool.not_true, Bool.false_eq_true, ne_eq,
      not_false_eq_true, true_and]
    cases value with
    | none => simp
    | some x =>
      by_cases finite : x.isFinite = true
      · simp only [finite, ↓reduceIte, Except.ok.injEq, Option.some.injEq, exists_eq_left',
          true_and]
        exact eq_comm
      · simp [finite]
  · simp only [Bool.not_eq_true] at letters
    simp [empty, letters]

end Seidel
