import Seidel.Proofs.Equation.Faults
import Seidel.Proofs.Equation.Reading
import Seidel.Proofs.Text.Words

/-!
# Hyphens before a term

A hyphen says the same as a word of its own before a term and as the first character of the term:
in one case it turns the sign that the reader carries along, in the other it belongs to the
coefficient. The equation is the same in every bit, and so is the fault if there is one
(`Equation.parse_hyphen`).
-/

namespace Seidel

/-! ## Readings that differ in quotations only -/

/-- The same has been read, or nothing for the same fault. -/
inductive SameReading {α : Type} : Except ParseError α → Except ParseError α → Prop
  | ok (a : α) : SameReading (.ok a) (.ok a)
  | error {e e' : ParseError} : e.fault = e'.fault → SameReading (.error e) (.error e')

namespace SameReading

variable {α β : Type} {x y z : Except ParseError α}

theorem refl (x : Except ParseError α) : SameReading x x := by
  cases x with
  | ok a => exact .ok a
  | error e => exact .error rfl

theorem trans (h : SameReading x y) (h' : SameReading y z) : SameReading x z := by
  cases h with
  | ok a => exact h'
  | error same =>
    cases h' with
    | error same' => exact .error (same.trans same')

theorem bind (h : SameReading x y) (f : α → Except ParseError β) :
    SameReading (x >>= f) (y >>= f) := by
  cases h with
  | ok a => exact refl (f a)
  | error same => exact .error same

theorem map (h : SameReading x y) (f : α → β) : SameReading (x.map f) (y.map f) := by
  cases h with
  | ok a => exact .ok (f a)
  | error same => exact .error same

theorem onSource (source : String) (x : Except ParseError α) :
    SameReading x (x.mapError (ParseError.onSource source)) := by
  cases x with
  | ok a => exact .ok a
  | error e => exact .error (e.fault_onSource source).symm

end SameReading

/-- Words that are read alike wherever they stand can be exchanged. -/
theorem Equation.parse_exchanged {source source' : String} {pre post : List (List Char)}
    (mid mid' : List (List Char))
    (words : Text.words source.toList = pre ++ (mid ++ post))
    (words' : Text.words source'.toList = pre ++ (mid' ++ post))
    (alike : ∀ p, pre.foldlM (Draft.read source) Draft.start = .ok p →
      SameReading (mid.foldlM (Draft.read source) p) (mid'.foldlM (Draft.read source) p)) :
    SameReading (parse source) (parse source') := by
  rw [parse_eq_parseWords, parse_eq_parseWords, words, words', parseWords_onSource source source']
  refine SameReading.trans ?_ (.onSource source' _)
  simp only [parseWords, List.foldlM_append, bind_assoc]
  cases before : pre.foldlM (Draft.read source) Draft.start with
  | error e => exact .error rfl
  | ok p => exact (alike p before).bind _

/-! ## One word -/

namespace Decimal

theorem signOf_of_unsigned {cs : List Char} (minus : cs.head? ≠ some '-')
    (plus : cs.head? ≠ some '+') : signOf cs = (false, cs) := by
  unfold signOf
  split
  · exact absurd rfl minus
  · exact absurd rfl plus
  · rfl

theorem floatOfText?_hyphen {cs : List Char} (minus : cs.head? ≠ some '-')
    (plus : cs.head? ≠ some '+') :
    floatOfText? ('-' :: cs) = (floatOfText? cs).map (- ·) := by
  have signed : signOf ('-' :: cs) = (true, cs) := rfl
  simp only [floatOfText?, signed, signOf_of_unsigned minus plus, Option.map_map]
  rfl

end Decimal

/-- A coefficient with a hyphen before it; alone, the hyphen stands before a coefficient of one. -/
theorem coefficientOfText?_hyphen {digits : List Char} (minus : digits.head? ≠ some '-')
    (plus : digits.head? ≠ some '+') :
    coefficientOfText? ('-' :: digits) = (coefficientOfText? digits).map (- ·) := by
  cases digits with
  | nil => decide +kernel
  | cons c cs =>
    have unsigned : coefficientOfText? (c :: cs) = Decimal.floatOfText? (c :: cs) := by
      unfold coefficientOfText?
      split
      · rename_i eq
        cases eq
      · rename_i eq
        cases eq
        exact absurd rfl minus
      · rfl
    rw [unsigned, ← Decimal.floatOfText?_hyphen minus plus]
    rfl

def Term.negate (t : Term Float) : Term Float :=
  { t with coefficient := -t.coefficient }

theorem requireFinite_neg (what : String) (x : Float) :
    requireFinite what (-x)
      = ((requireFinite what x).map (- ·)).mapError fun e => ⟨e.what, -x⟩ := by
  unfold requireFinite
  rw [Binary64.isFinite_neg]
  split <;> rfl

/-- A hyphen before a term negates its coefficient. -/
theorem Term.ofWord_hyphen {word : List Char} (bare : word.head? ≠ some '-') :
    SameReading ((Term.ofWord word).map negate) (Term.ofWord ('-' :: word)) := by
  have digits : ('-' :: word).takeWhile isNumeralChar = '-' :: word.takeWhile isNumeralChar := rfl
  have symbol : ('-' :: word).dropWhile isNumeralChar = word.dropWhile isNumeralChar := rfl
  have minus : (word.takeWhile isNumeralChar).head? ≠ some '-' := by
    rw [List.head?_takeWhile]
    exact fun eq => bare (Option.filter_eq_some_iff.mp eq).1
  have plus : (word.takeWhile isNumeralChar).head? ≠ some '+' := by
    rw [List.head?_takeWhile]
    exact fun eq => absurd (Option.filter_eq_some_iff.mp eq).2 (by decide)
  have value := coefficientOfText?_hyphen minus plus
  unfold Term.ofWord
  simp only [digits, symbol, value]
  generalize word.dropWhile isNumeralChar = symbol
  generalize coefficientOfText? (word.takeWhile isNumeralChar) = value
  by_cases empty : symbol = []
  · simp only [empty, ↓reduceIte]
    exact .error rfl
  by_cases letters : symbol.all Text.isLetter = true
  · cases value with
    | none =>
      simp only [empty, letters, ↓reduceIte, Bool.not_true, Bool.false_eq_true]
      exact .error rfl
    | some x =>
      simp only [empty, letters, ↓reduceIte, Bool.not_true, Bool.false_eq_true, Option.map_some,
        requireFinite_neg]
      cases requireFinite "coefficient" x with
      | ok c => exact .ok _
      | error e => exact .error rfl
  · simp only [empty, letters, ↓reduceIte, Bool.not_false]
    exact .error rfl

/-! ## A sign and a term -/

theorem Token.ofWord_bare {word : List Char} (bare : word.head? ≠ some '-') (plus : word ≠ ['+'])
    (equals : word ≠ ['=']) : Token.ofWord word = .word word := by
  rcases ofWord_cases word with ⟨s, rfl, _⟩ | ⟨rfl, _⟩ | token
  · cases s with
    | plus => exact absurd rfl plus
    | minus => exact absurd rfl bare
  · exact absurd rfl equals
  · exact token

theorem Token.ofWord_hyphen {word : List Char} (nonempty : word ≠ []) :
    Token.ofWord ('-' :: word) = .word ('-' :: word) := by
  rcases ofWord_cases ('-' :: word) with ⟨s, eq, _⟩ | ⟨eq, _⟩ | token
  · cases s with
    | plus => cases eq
    | minus => exact absurd (List.cons.inj eq).2 nonempty
  · cases eq
  · exact token

namespace Draft

variable {source : String} {terms : List (Term Float)} {sign : Sign} {signed : Bool}
  {word : List Char}

theorem foldlM_singleton (p : Draft) (word : List Char) :
    [word].foldlM (read source) p = p.read source word := by
  rw [List.foldlM_cons]
  cases p.read source word <;> rfl

/-- The draft with one more term, to which the signs before it are applied. -/
def push (terms : List (Term Float)) (sign : Sign) (t : Term Float) : Draft :=
  ⟨terms ++ [{ t with coefficient := sign.apply t.coefficient }], .operator⟩

theorem read_term (token : Token.ofWord word = .word word) :
    read source ⟨terms, .term sign signed⟩ word = (Term.ofWord word).map (push terms sign) := by
  simp only [read, token]
  cases Term.ofWord word <;> rfl

theorem read_signed_term (next : Sign) (token : Token.ofWord word = .word word) :
    [next.word, word].foldlM (read source) ⟨terms, .term sign signed⟩
      = (Term.ofWord word).map (push terms (sign.then next)) := by
  have first : read source ⟨terms, .term sign signed⟩ next.word
      = .ok ⟨terms, .term (sign.then next) true⟩ := by
    simp only [read, Token.ofWord_sign]
  simp only [List.foldlM_cons, List.foldlM_nil, first, bind, Except.bind, read_term token]
  cases Term.ofWord word <;> rfl

theorem push_then_minus (terms : List (Term Float)) (sign : Sign) (t : Term Float) :
    push terms (sign.then .minus) t = push terms sign t.negate := by
  rw [push, Sign.apply_then]
  rfl

theorem then_plus (sign : Sign) : sign.then .plus = sign := by
  cases sign <;> rfl

variable (bare : word.head? ≠ some '-') (plus : word ≠ ['+']) (equals : word ≠ ['='])
include bare plus equals

/-- Where a term is expected, its hyphen may stand before it or belong to it. -/
theorem read_hyphen_term (nonempty : word ≠ []) :
    SameReading ([['-'], word].foldlM (read source) ⟨terms, .term sign signed⟩)
      ([('-' :: word)].foldlM (read source) ⟨terms, .term sign signed⟩) := by
  have detached : [['-'], word].foldlM (read source) ⟨terms, .term sign signed⟩
      = ((Term.ofWord word).map Term.negate).map (push terms sign) := by
    refine (read_signed_term .minus (Token.ofWord_bare bare plus equals)).trans ?_
    cases Term.ofWord word with
    | ok t => exact congrArg Except.ok (push_then_minus terms sign t)
    | error e => rfl
  rw [detached, foldlM_singleton, read_term (Token.ofWord_hyphen nonempty)]
  exact (Term.ofWord_hyphen bare).map _

/-- A hyphen that belongs to a term stands for a minus where a plus can stand before it. -/
theorem read_hyphen (nonempty : word ≠ []) (p : Draft) :
    SameReading ([['-'], word].foldlM (read source) p)
      ([['+'], '-' :: word].foldlM (read source) p) := by
  have afterPlus (terms : List (Term Float)) (sign : Sign) (signed : Bool) :
      [['+'], '-' :: word].foldlM (read source) ⟨terms, .term sign signed⟩
        = [('-' :: word)].foldlM (read source) ⟨terms, .term sign signed⟩ := by
    have token := Token.ofWord_hyphen nonempty
    rw [foldlM_singleton, read_term token]
    exact (read_signed_term .plus token).trans (by rw [then_plus])
  obtain ⟨terms, expects⟩ := p
  cases expects with
  | term sign signed =>
    rw [afterPlus]
    exact read_hyphen_term bare plus equals nonempty
  | operator =>
    have minusFirst := read_operator_sign source terms .minus
    have plusFirst := read_operator_sign source terms .plus
    have same : SameReading ([['-'], word].foldlM (read source) ⟨terms, .term .plus false⟩)
        ([('-' :: word)].foldlM (read source) ⟨terms, .term .plus false⟩) :=
      read_hyphen_term bare plus equals nonempty
    rw [← afterPlus, List.foldlM_cons, List.foldlM_cons] at same
    rw [List.foldlM_cons, List.foldlM_cons]
    exact minusFirst ▸ plusFirst ▸ same
  | constant => exact .error rfl
  | nothing c => exact .error rfl

omit bare plus equals in
/-- After a sign, and at the start, a term is expected. -/
theorem expects_term_of_sign {words : List (List Char)} {p : Draft}
    (signLast : ∀ last ∈ words.getLast?, ∃ s : Sign, last = s.word)
    (h : words.foldlM (read source) start = .ok p) :
    ∃ sign signed, p.expects = .term sign signed := by
  rcases List.eq_nil_or_concat words with rfl | ⟨before, last, rfl⟩
  · cases h
    exact ⟨.plus, false, rfl⟩
  · obtain ⟨s, rfl⟩ := signLast last (by simp)
    rw [List.concat_eq_append, List.foldlM_append] at h
    cases run : before.foldlM (read source) start with
    | error e =>
      rw [run] at h
      cases h
    | ok q =>
      rw [run] at h
      change [s.word].foldlM (read source) q = .ok p at h
      rw [foldlM_singleton] at h
      obtain ⟨terms, expects⟩ := q
      simp only [read, Token.ofWord_sign] at h
      cases expects with
      | term sign signed =>
        cases h
        exact ⟨sign.then s, true, rfl⟩
      | operator =>
        cases h
        exact ⟨s, true, rfl⟩
      | constant => cases h
      | nothing c => cases h

end Draft

/-- **A hyphen may be detached.** Take a word that does not begin with a hyphen and is neither a
plus nor an equals sign. A text in which a hyphen comes before it as a word of its own gives the
same, in every bit, as the text in which a plus comes before it and the hyphen belongs to it; and
where a sign comes before them, or nothing, the plus may be left out. If there is a fault, it is the
same. -/
theorem Equation.parse_hyphen {pre post : List (List Char)} {word : List Char}
    (bare : word.head? ≠ some '-') (plus : word ≠ ['+']) (equals : word ≠ ['='])
    {detached attached : String}
    (isDetached : Text.words detached.toList = pre ++ ['-'] :: word :: post)
    (isAttached : Text.words attached.toList = pre ++ ['+'] :: ('-' :: word) :: post) :
    SameReading (parse detached) (parse attached) ∧
    ((∀ last ∈ pre.getLast?, ∃ s : Sign, last = s.word) → ∀ joined : String,
      Text.words joined.toList = pre ++ ('-' :: word) :: post →
      SameReading (parse detached) (parse joined)) := by
  have mem : word ∈ Text.words detached.toList := by simp [isDetached]
  have nonempty : word ≠ [] := Text.ne_nil_of_mem_words mem
  constructor
  · exact parse_exchanged [['-'], word] [['+'], '-' :: word] isDetached isAttached
      fun p _ => Draft.read_hyphen bare plus equals nonempty p
  · intro signLast joined isJoined
    refine parse_exchanged [['-'], word] ['-' :: word] isDetached isJoined ?_
    intro p run
    obtain ⟨sign, signed, eq⟩ := Draft.expects_term_of_sign signLast run
    obtain ⟨terms, expects⟩ := p
    subst eq
    exact Draft.read_hyphen_term bare plus equals nonempty

/-- Three ways to write a coefficient of minus zero. -/
theorem Equation.parse_hyphen_zero :
    SameReading (parse "2y + - 0x = 1") (parse "2y + + -0x = 1") ∧
    SameReading (parse "2y + - 0x = 1") (parse "2y + -0x = 1") ∧
    (parse "2y + -0x = 1").toOption.map Equation.terms
      = some [⟨"y", .ofBits 0x4000000000000000⟩, ⟨"x", .ofBits 0x8000000000000000⟩] := by
  have isDetached : Text.words "2y + - 0x = 1".toList
      = [['2', 'y'], ['+']] ++ ['-'] :: ['0', 'x'] :: [['='], ['1']] := by decide
  have isAttached : Text.words "2y + + -0x = 1".toList
      = [['2', 'y'], ['+']] ++ ['+'] :: ['-', '0', 'x'] :: [['='], ['1']] := by decide
  obtain ⟨attached, joined⟩ :=
    parse_hyphen (by decide) (by decide) (by decide) isDetached isAttached
  refine ⟨attached, joined ?_ "2y + -0x = 1" (by decide), by decide +kernel⟩
  intro last mem
  cases mem
  exact ⟨.plus, rfl⟩

end Seidel
