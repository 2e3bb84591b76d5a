import Seidel.Proofs.Equation.Faults
import Seidel.Proofs.Text.Words

/-!
# Beginnings of equations

The words read so far decide whether a text can still become an equation. As long as no word has
been refused, every draft can be completed (`Draft.exists_completed`); the word that is refused is
the first that no equation with the same beginning has, and nothing after it changes the error. That
a variable is repeated is found last, in a text that is complete (`Equation.parse_continued`).
-/

namespace Seidel

/-! ## When an error is found -/

/-- How far the text has been read when an error is found: up to a word that cannot stand where it
stands, up to an end that comes too early, or all of it without a fault in the words. -/
inductive ParseError.Stage
  | inside
  | atEnd
  | afterwards
  deriving DecidableEq, Repr

def ParseError.stage : ParseError → ParseError.Stage
  | .malformedEquation _ .missingConstant => .atEnd
  | .malformedEquation _ .trailingOperator => .atEnd
  | .malformedEquation _ .missingEquals => .atEnd
  | .duplicateVariable _ => .afterwards
  | _ => .inside

theorem ParseError.OfWord.stage_eq {e : ParseError} (h : e.OfWord) : e.stage = .inside := by
  cases h <;> rfl

namespace Draft

variable {source : String} {p : Draft} {word : List Char} {e : ParseError}

theorem stage_of_read (h : p.read source word = .error e) : e.stage = .inside := by
  obtain ⟨terms, expects⟩ := p
  unfold read at h
  cases expects with
  | term sign signed =>
    cases token : Token.ofWord word with
    | sign next => simp [token] at h
    | equals =>
      cases signed <;>
        · simp only [token, Except.error.injEq] at h
          subst h
          rfl
    | word cs =>
      cases scanned : Term.ofWord cs with
      | ok t => simp [token, scanned, bind, Except.bind] at h
      | error e' =>
        simp only [token, scanned, bind, Except.bind, Except.error.injEq] at h
        exact h ▸ (Term.ofWord_error scanned).stage_eq
  | operator =>
    cases token : Token.ofWord word with
    | word cs =>
      simp only [token, Except.error.injEq] at h
      subst h
      rfl
    | _ => simp [token] at h
  | constant =>
    cases token : Token.ofWord word with
    | word cs =>
      cases scanned : constantOfWord cs with
      | ok c => simp [token, scanned, bind, Except.bind] at h
      | error e' =>
        simp only [token, scanned, bind, Except.bind, Except.error.injEq] at h
        exact h ▸ (constantOfWord_error scanned).stage_eq
    | _ =>
      simp only [token, Except.error.injEq] at h
      subst h
      rfl
  | nothing c =>
    simp only [Except.error.injEq] at h
    subst h
    rfl

/-- Nothing can follow the constant. -/
theorem read_nothing {c : Float} (h : p.expects = .nothing c) (word : List Char) :
    p.read source word = .error (.malformedEquation source .trailingToken) := by
  unfold read
  rw [h]

theorem finish_nothing {c : Float} (h : p.expects = .nothing c) (source : String) :
    p.finish source = (Equation.ofTerms p.terms c).mapError .duplicateVariable := by
  unfold finish
  rw [h]

theorem finish_cases (source : String) (p : Draft) :
    (∃ c, p.expects = .nothing c) ∨ ∃ e, p.finish source = .error e ∧ e.stage = .atEnd := by
  obtain ⟨terms, expects⟩ := p
  cases expects with
  | term sign signed => cases signed <;> exact Or.inr ⟨_, rfl, rfl⟩
  | nothing c => exact Or.inl ⟨c, rfl⟩
  | _ => exact Or.inr ⟨_, rfl, rfl⟩

end Draft

/-! ## Completing a draft -/

/-- A text that can follow. -/
def Expectation.completion : Expectation → String
  | .term _ _ => "x = 0"
  | .operator => "= 0"
  | .constant => "0"
  | .nothing _ => ""

theorem Term.exists_ofWord_x : ∃ t, Term.ofWord ['x'] = .ok t := by
  exact ⟨⟨"x", .ofBits 0x3FF0000000000000⟩, by decide +kernel⟩

theorem exists_constantOfWord_zero : ∃ c, constantOfWord ['0'] = .ok c :=
  ⟨.ofBits 0, by decide +kernel⟩

namespace Draft

/-- Whatever has been read without a fault can become a whole equation. -/
theorem exists_completed (source : String) (p : Draft) :
    ∃ q c, (Text.words p.expects.completion.toList).foldlM (read source) p = .ok q ∧
      q.expects = .nothing c := by
  obtain ⟨t, term⟩ := Term.exists_ofWord_x
  obtain ⟨c, constant⟩ := exists_constantOfWord_zero
  have words₀ : Text.words "0".toList = [['0']] := by decide
  have words₁ : Text.words "= 0".toList = [['='], ['0']] := by decide
  have words₂ : Text.words "x = 0".toList = [['x'], ['='], ['0']] := by decide
  have tokenX : Token.ofWord ['x'] = .word ['x'] := rfl
  have tokenEquals : Token.ofWord ['='] = .equals := rfl
  have tokenZero : Token.ofWord ['0'] = .word ['0'] := rfl
  obtain ⟨terms, expects⟩ := p
  cases expects with
  | term sign signed =>
    refine ⟨⟨terms ++ [{ t with coefficient := sign.apply t.coefficient }], .nothing c⟩, c, ?_, rfl⟩
    simp only [Expectation.completion, words₂, List.foldlM_cons, List.foldlM_nil, read, tokenX,
      tokenEquals, tokenZero, term, constant, bind, Except.bind, pure, Except.pure]
  | operator =>
    refine ⟨⟨terms, .nothing c⟩, c, ?_, rfl⟩
    simp only [Expectation.completion, words₁, List.foldlM_cons, List.foldlM_nil, read,
      tokenEquals, tokenZero, constant, bind, Except.bind, pure, Except.pure]
  | constant =>
    refine ⟨⟨terms, .nothing c⟩, c, ?_, rfl⟩
    simp only [Expectation.completion, words₀, List.foldlM_cons, List.foldlM_nil, read,
      tokenZero, constant, bind, Except.bind, pure, Except.pure]
  | nothing d => exact ⟨⟨terms, .nothing d⟩, d, rfl, rfl⟩

/-! ## The draft of a text -/

/-- What has been made of a text after its last word. -/
def ofText (source : String) : Except ParseError Draft :=
  (Text.words source.toList).foldlM (read source) start

theorem ofText_append (source more : String) :
    ofText (source ++ " " ++ more)
      = ((ofText source).mapError (ParseError.onSource (source ++ " " ++ more))).bind fun p =>
        (Text.words more.toList).foldlM (read (source ++ " " ++ more)) p := by
  have words : Text.words (source ++ " " ++ more).toList
      = Text.words source.toList ++ Text.words more.toList := by
    rw [String.toList_append, String.toList_append, List.append_assoc]
    exact Text.words_append (by decide) _ _
  rw [ofText, words, List.foldlM_append, foldlM_onSource source]
  rfl

/-- The first word that is refused. -/
theorem exists_refused {source : String} {words : List (List Char)} {p : Draft} {e : ParseError}
    (h : words.foldlM (read source) p = .error e) :
    ∃ before word after q, words = before ++ word :: after ∧
      before.foldlM (read source) p = .ok q ∧ q.read source word = .error e := by
  induction words generalizing p with
  | nil => cases h
  | cons word rest ih =>
    rw [List.foldlM_cons] at h
    cases step : p.read source word with
    | error e' =>
      rw [step] at h
      cases h
      exact ⟨[], word, rest, p, rfl, rfl, step⟩
    | ok p' =>
      rw [step] at h
      obtain ⟨before, refused, after, q, rfl, run, last⟩ := ih h
      refine ⟨word :: before, refused, after, q, rfl, ?_, last⟩
      rw [List.foldlM_cons, step]
      exact run

end Draft

namespace Equation

variable {source : String} {p : Draft}

theorem parse_eq (source : String) :
    parse source = (Draft.ofText source).bind (Draft.finish source) :=
  rfl

/-- Nothing is wrong with the sequence of the words: the text is an equation, or would be if no
variable were repeated. -/
def IsWhole (source : String) : Prop :=
  (∃ e, parse source = .ok e) ∨ ∃ cause, parse source = .error (.duplicateVariable cause)

/-- Repeated variables are the only thing that can be wrong with a whole text. -/
theorem IsWhole.stage_eq {e : ParseError} (whole : IsWhole source)
    (fails : parse source = .error e) : e.stage = .afterwards := by
  rcases whole with ⟨_, parsed⟩ | ⟨cause, repeated⟩
  · cases fails.symm.trans parsed
  · cases fails.symm.trans repeated
    rfl

theorem parse_refused {e : ParseError} (refused : Draft.ofText source = .error e) :
    parse source = .error e := by
  rw [parse_eq, refused]
  rfl

theorem parse_of_nothing {c : Float} (read : Draft.ofText source = .ok p)
    (nothing : p.expects = .nothing c) :
    parse source = (ofTerms p.terms c).mapError .duplicateVariable := by
  rw [parse_eq, read]
  exact p.finish_nothing nothing source

theorem isWhole_of_nothing {c : Float} (read : Draft.ofText source = .ok p)
    (nothing : p.expects = .nothing c) : IsWhole source := by
  have parsed := parse_of_nothing read nothing
  cases built : ofTerms p.terms c with
  | ok e =>
    rw [built] at parsed
    exact Or.inl ⟨e, parsed⟩
  | error cause =>
    rw [built] at parsed
    exact Or.inr ⟨cause, parsed⟩

/-- A text is refused at one of its words, ends too early or is whole. -/
theorem parse_cases (source : String) :
    (∃ e, Draft.ofText source = .error e ∧ parse source = .error e ∧ e.stage = .inside) ∨
    (∃ p e, Draft.ofText source = .ok p ∧ parse source = .error e ∧ e.stage = .atEnd) ∨
    ∃ p c, Draft.ofText source = .ok p ∧ p.expects = .nothing c ∧ IsWhole source := by
  cases read : Draft.ofText source with
  | error e =>
    obtain ⟨_, _, _, _, _, _, refused⟩ := Draft.exists_refused read
    exact Or.inl ⟨e, rfl, parse_refused read, Draft.stage_of_read refused⟩
  | ok p =>
    right
    rcases p.finish_cases source with ⟨c, nothing⟩ | ⟨e, finish, atEnd⟩
    · exact Or.inr ⟨p, c, rfl, nothing, isWhole_of_nothing read nothing⟩
    · have fails : parse source = .error e := by
        rw [parse_eq, read]
        exact finish
      exact Or.inl ⟨p, e, rfl, fails, atEnd⟩

theorem ofText_of_inside {e : ParseError} (fails : parse source = .error e)
    (inside : e.stage = .inside) : Draft.ofText source = .error e := by
  rcases parse_cases source with
    ⟨e', read, fails', _⟩ | ⟨_, e', _, fails', atEnd⟩ | ⟨_, _, _, _, whole⟩
  · cases fails.symm.trans fails'
    exact read
  · cases fails.symm.trans fails'
    cases atEnd.symm.trans inside
  · cases (whole.stage_eq fails).symm.trans inside

theorem ofText_of_atEnd {e : ParseError} (fails : parse source = .error e)
    (atEnd : e.stage = .atEnd) : ∃ p, Draft.ofText source = .ok p := by
  rcases parse_cases source with ⟨e', _, fails', inside⟩ | ⟨p, _, read, _⟩ | ⟨p, _, read, _⟩
  · cases fails.symm.trans fails'
    cases inside.symm.trans atEnd
  · exact ⟨p, read⟩
  · exact ⟨p, read⟩

/-- A whole text has been read up to its constant. -/
theorem IsWhole.ofText_eq (whole : IsWhole source) :
    ∃ p c, Draft.ofText source = .ok p ∧ p.expects = .nothing c := by
  rcases parse_cases source with
    ⟨e, _, fails, inside⟩ | ⟨_, e, _, fails, atEnd⟩ | ⟨p, c, read, nothing, _⟩
  · cases (whole.stage_eq fails).symm.trans inside
  · cases (whole.stage_eq fails).symm.trans atEnd
  · exact ⟨p, c, read, nothing⟩

/-- A text without a refused word is the beginning of a whole one. -/
theorem exists_whole (read : Draft.ofText source = .ok p) :
    ∃ more, IsWhole (source ++ " " ++ more) := by
  obtain ⟨q, c, completed, nothing⟩ :=
    p.exists_completed (source ++ " " ++ p.expects.completion)
  have read' : Draft.ofText (source ++ " " ++ p.expects.completion) = .ok q := by
    rw [Draft.ofText_append, read]
    exact completed
  exact ⟨p.expects.completion, isWhole_of_nothing read' nothing⟩

/-! ## Text after what has been read -/

/-- Nothing that follows a refused word makes a difference. -/
theorem parse_refused_append {e : ParseError} (refused : Draft.ofText source = .error e)
    (more : String) :
    parse (source ++ " " ++ more) = .error (e.onSource (source ++ " " ++ more)) := by
  apply parse_refused
  rw [Draft.ofText_append, refused]
  rfl

theorem parse_blank (whole : IsWhole source) {more : String}
    (blank : ∀ c ∈ more.toList, Text.isBlank c = true) :
    parse (source ++ " " ++ more) = parse source := by
  obtain ⟨p, c, read, nothing⟩ := whole.ofText_eq
  have read' : Draft.ofText (source ++ " " ++ more) = .ok p := by
    rw [Draft.ofText_append, read, Text.words_of_blank blank]
    rfl
  rw [parse_of_nothing read' nothing, parse_of_nothing read nothing]

theorem parse_trailing (whole : IsWhole source) {more : String}
    (shown : ∃ c ∈ more.toList, Text.isBlank c = false) :
    parse (source ++ " " ++ more)
      = .error (.malformedEquation (source ++ " " ++ more) .trailingToken) := by
  obtain ⟨p, c, read, nothing⟩ := whole.ofText_eq
  have words : Text.words more.toList ≠ [] := by
    intro none
    obtain ⟨d, mem, shown⟩ := shown
    rw [Text.words_eq_nil_iff.mp none d mem] at shown
    cases shown
  obtain ⟨word, rest, eq⟩ := List.exists_cons_of_ne_nil words
  rw [parse_eq, Draft.ofText_append, read, eq]
  simp only [Except.mapError, Except.bind, List.foldlM_cons, Draft.read_nothing nothing]
  rfl

/-- The words before the refused one are the beginning of an equation, and with the refused word
they are not. -/
theorem exists_first_refused {e : ParseError} (refused : Draft.ofText source = .error e) :
    ∃ before word after, Text.words source.toList = before ++ word :: after ∧
      (∀ text, Text.words text.toList = before → ∃ more, IsWhole (text ++ " " ++ more)) ∧
      ∀ text, Text.words text.toList = before ++ [word] →
        parse text = .error (e.onSource text) := by
  obtain ⟨before, word, after, q, words, run, last⟩ := Draft.exists_refused refused
  refine ⟨before, word, after, words, ?_, ?_⟩
  · rintro text rfl
    have read : Draft.ofText text = .ok q := by
      rw [Draft.ofText, Draft.foldlM_onSource source text, run]
      rfl
    exact exists_whole read
  · intro text words
    have fails : Draft.ofText text = .error (e.onSource text) := by
      rw [Draft.ofText, Draft.foldlM_onSource source text, words, List.foldlM_append, run]
      simp only [bind, Except.bind, List.foldlM_cons, last]
      rfl
    exact parse_refused fails

/-- **Refused at the first word.** An error at a word stays the same whatever follows, only that it
quotes the longer text; the words before that word can be continued to a whole equation, and with
it they fail in the same way. A text that ends too early can be continued to a whole equation. A
whole equation, with a variable repeated or not, gives the same with any white space after it, and
anything else after it is a trailing token. -/
theorem parse_continued (source : String) :
    (∀ e, parse source = .error e → e.stage = .inside →
      (∀ more, parse (source ++ " " ++ more) = .error (e.onSource (source ++ " " ++ more))) ∧
      ∃ before word after, Text.words source.toList = before ++ word :: after ∧
        (∀ text, Text.words text.toList = before → ∃ more, IsWhole (text ++ " " ++ more)) ∧
        ∀ text, Text.words text.toList = before ++ [word] →
          parse text = .error (e.onSource text)) ∧
    (∀ e, parse source = .error e → e.stage = .atEnd →
      ∃ more, IsWhole (source ++ " " ++ more)) ∧
    (IsWhole source → ∀ more : String,
      ((∀ c ∈ more.toList, Text.isBlank c = true) →
        parse (source ++ " " ++ more) = parse source) ∧
      ((∃ c ∈ more.toList, Text.isBlank c = false) →
        parse (source ++ " " ++ more)
          = .error (.malformedEquation (source ++ " " ++ more) .trailingToken))) := by
  refine ⟨fun e fails inside => ?_, fun e fails atEnd => ?_, fun whole more => ?_⟩
  · have refused := ofText_of_inside fails inside
    exact ⟨parse_refused_append refused, exists_first_refused refused⟩
  · obtain ⟨p, read⟩ := ofText_of_atEnd fails atEnd
    exact exists_whole read
  · exact ⟨parse_blank whole, parse_trailing whole⟩

end Equation

end Seidel
