import Seidel.Proofs.Equation.Grammar

/-!
# What an error depends on

The words of a text decide what is read from it. The text as a whole is quoted in an error about the
sequence of its words and has no other effect (`Equation.parseWords_onSource`). What is left of an
error without its quotations is its fault.
-/

namespace Seidel

theorem foldlM_mapError {ε ε' α β : Type} {f : β → α → Except ε β} {g : β → α → Except ε' β}
    {φ : ε → ε'} (step : ∀ b a, g b a = (f b a).mapError φ) (as : List α) (b : β) :
    as.foldlM g b = (as.foldlM f b).mapError φ := by
  induction as generalizing b with
  | nil => rfl
  | cons a as ih =>
    rw [List.foldlM_cons, List.foldlM_cons, step]
    cases f b a with
    | error e => rfl
    | ok c => exact ih c

/-! ## Errors in other texts -/

namespace ParseError

/-- The same error in another text. -/
def onSource (source : String) : ParseError → ParseError
  | .malformedEquation _ fault => .malformedEquation source fault
  | e => e

/-- What is wrong, without the token, the text or the number that is quoted. -/
inductive Fault
  | token (fault : TokenFault)
  | sequence (fault : EquationFault)
  | repeated (cause : DuplicateVariable)
  | notFinite (what : String)
  deriving DecidableEq, Repr

def fault : ParseError → Fault
  | .malformedTerm _ fault => .token fault
  | .malformedEquation _ fault => .sequence fault
  | .duplicateVariable cause => .repeated cause
  | .notFinite cause => .notFinite cause.what

theorem fault_onSource (source : String) (e : ParseError) :
    (e.onSource source).fault = e.fault := by
  cases e <;> rfl

/-- The error is about one word, and no other word matters. -/
inductive OfWord : ParseError → Prop
  | malformedTerm (token : String) (fault : TokenFault) : OfWord (.malformedTerm token fault)
  | notFinite (cause : NonFinite) : OfWord (.notFinite cause)

theorem OfWord.onSource_eq {e : ParseError} (h : e.OfWord) (source : String) :
    e.onSource source = e := by
  cases h <;> rfl

end ParseError

theorem Term.ofWord_error {word : List Char} {e : ParseError} (h : Term.ofWord word = .error e) :
    e.OfWord := by
  unfold Term.ofWord at h
  dsimp only at h
  split at h
  · cases h
    exact .malformedTerm _ _
  split at h
  · cases h
    exact .malformedTerm _ _
  split at h
  · cases h
    exact .malformedTerm _ _
  split at h
  · cases h
    exact .notFinite _
  · cases h

theorem constantOfWord_error {word : List Char} {e : ParseError}
    (h : constantOfWord word = .error e) : e.OfWord := by
  unfold constantOfWord at h
  split at h
  · cases h
    exact .malformedTerm _ _
  split at h
  · cases h
    exact .notFinite _
  · cases h

/-! ## The text is only quoted -/

namespace Draft

theorem read_onSource (source source' : String) (p : Draft) (word : List Char) :
    p.read source' word = (p.read source word).mapError (ParseError.onSource source') := by
  obtain ⟨terms, expects⟩ := p
  unfold read
  cases expects with
  | term sign signed =>
    cases Token.ofWord word with
    | sign next => rfl
    | equals => cases signed <;> rfl
    | word cs =>
      cases scanned : Term.ofWord cs with
      | ok t => simp only [scanned]; rfl
      | error e =>
        have same := (Term.ofWord_error scanned).onSource_eq source'
        simp only [scanned, bind, Except.bind, Except.mapError, same]
  | operator => cases Token.ofWord word <;> rfl
  | constant =>
    cases Token.ofWord word with
    | word cs =>
      cases scanned : constantOfWord cs with
      | ok c => simp only [scanned]; rfl
      | error e =>
        have same := (constantOfWord_error scanned).onSource_eq source'
        simp only [scanned, bind, Except.bind, Except.mapError, same]
    | _ => rfl
  | nothing c => rfl

theorem foldlM_onSource (source source' : String) (words : List (List Char)) (p : Draft) :
    words.foldlM (read source') p
      = (words.foldlM (read source) p).mapError (ParseError.onSource source') :=
  foldlM_mapError (read_onSource source source') words p

theorem finish_onSource (source source' : String) (p : Draft) :
    p.finish source' = (p.finish source).mapError (ParseError.onSource source') := by
  obtain ⟨terms, expects⟩ := p
  cases expects with
  | term sign signed => cases signed <;> rfl
  | nothing c =>
    unfold finish
    dsimp only
    cases Equation.ofTerms terms c <;> rfl
  | _ => rfl

end Draft

namespace Equation

/-- Reads some words as those of the equation `source`. -/
def parseWords (source : String) (words : List (List Char)) :
    Except ParseError (Equation Float) := do
  let p ← words.foldlM (Draft.read source) Draft.start
  p.finish source

theorem parse_eq_parseWords (source : String) :
    parse source = parseWords source (Text.words source.toList) :=
  rfl

theorem parseWords_onSource (source source' : String) (words : List (List Char)) :
    parseWords source' words
      = (parseWords source words).mapError (ParseError.onSource source') := by
  rw [parseWords, parseWords, Draft.foldlM_onSource source source']
  cases words.foldlM (Draft.read source) Draft.start with
  | error e => rfl
  | ok p => exact p.finish_onSource source source'

end Equation

end Seidel
