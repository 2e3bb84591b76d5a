import Seidel.Proofs.Equation.Grammar

/-!
# The reader follows the grammar

After every prefix of the words, the draft says how the prefix is cut into written terms
(`Draft.Covers`). Every word that is read extends the cut, so what is accepted is in the grammar.
Conversely the words of a written equation lead through exactly these drafts.
-/

namespace Seidel

/-- Terms that stand for some written ones, of which only the first may do without a sign. -/
structure Written (ws : List WrittenTerm) (terms : List (Term Float)) : Prop where
  separated : ∀ w ∈ ws.tail, w.signs ≠ []
  wellFormed : ∀ w ∈ ws, w.WellFormed
  means : List.Forall₂ WrittenTerm.Means ws terms

theorem Written.nil : Written [] [] :=
  ⟨nofun, nofun, .nil⟩

theorem Written.snoc {ws : List WrittenTerm} {terms : List (Term Float)} (h : Written ws terms)
    {w : WrittenTerm} {t : Term Float} (separated : ws ≠ [] → w.signs ≠ []) (hw : w.WellFormed)
    (ht : w.Means t) : Written (ws ++ [w]) (terms ++ [t]) := by
  refine ⟨?_, ?_, List.rel_append h.means (.cons ht .nil)⟩
  · intro v hv
    cases ws with
    | nil => cases hv
    | cons first ws =>
      rw [List.cons_append, List.tail_cons] at hv
      rcases List.mem_append.mp hv with hv | hv
      · exact h.separated v hv
      · rw [List.mem_singleton.mp hv]
        exact separated (List.cons_ne_nil _ _)
  · intro v hv
    rcases List.mem_append.mp hv with hv | hv
    · exact h.wellFormed v hv
    · rw [List.mem_singleton.mp hv]
      exact hw

/-- How the words read so far are cut, for each thing that may come next. -/
inductive Draft.Covers : Draft → List (List Char) → Prop
  | term {ws : List WrittenTerm} {terms : List (Term Float)} (signs : List Sign) :
    Written ws terms → (ws ≠ [] → signs ≠ []) →
    Covers ⟨terms, .term (signs.foldl Sign.then .plus) (!signs.isEmpty)⟩
      (ws.flatMap WrittenTerm.words ++ signs.map Sign.word)
  | operator {ws : List WrittenTerm} {terms : List (Term Float)} :
    Written ws terms → ws ≠ [] → Covers ⟨terms, .operator⟩ (ws.flatMap WrittenTerm.words)
  | constant {ws : List WrittenTerm} {terms : List (Term Float)} :
    Written ws terms → ws ≠ [] →
    Covers ⟨terms, .constant⟩ (ws.flatMap WrittenTerm.words ++ [['=']])
  | nothing {ws : List WrittenTerm} {terms : List (Term Float)} {word : List Char} {c : Float} :
    Written ws terms → ws ≠ [] → Decimal.floatOfText? word = some c → c.isFinite = true →
    Covers ⟨terms, .nothing c⟩ (ws.flatMap WrittenTerm.words ++ [['='], word])

/-! ## What is accepted is in the grammar -/

theorem WrittenTerm.of_ofWord {w : WrittenTerm} {t : Term Float} (h : Term.ofWord w.word = .ok t) :
    w.WellFormed ∧
      w.Means { t with
        coefficient := (w.signs.foldl Sign.then .plus).apply t.coefficient } := by
  obtain ⟨nonempty, letters, x, text, finite, rfl⟩ := Term.ofWord_eq_ok_iff.mp h
  exact ⟨⟨nonempty, letters, x, text, finite⟩, ⟨rfl, x, text, Sign.apply_foldl .plus w.signs x⟩⟩

theorem Draft.Covers.read {source : String} {p p' : Draft} {words : List (List Char)}
    {word : List Char} (h : p.Covers words) (step : p.read source word = .ok p') :
    p'.Covers (words ++ [word]) := by
  cases h with
  | @term ws terms signs written separated =>
    rcases Token.ofWord_cases word with ⟨s, rfl, token⟩ | ⟨rfl, token⟩ | token
    · simp only [Draft.read, token, Except.ok.injEq] at step
      subst step
      have next := Covers.term (signs ++ [s]) written (by simp)
      have signed : (!(signs ++ [s]).isEmpty) = true := by cases signs <;> rfl
      rw [signed] at next
      simpa using next
    · cases signs <;> simp [Draft.read, token] at step
    · simp only [Draft.read, token] at step
      cases read : Term.ofWord word with
      | error e => simp [read, bind, Except.bind] at step
      | ok t =>
        simp only [read, bind, Except.bind, Except.ok.injEq] at step
        subst step
        obtain ⟨wellFormed, means⟩ := WrittenTerm.of_ofWord (w := ⟨signs, word⟩) read
        have next := Covers.operator (written.snoc separated wellFormed means) (by simp)
        simpa [WrittenTerm.words] using next
  | operator written nonempty =>
    rcases Token.ofWord_cases word with ⟨s, rfl, token⟩ | ⟨rfl, token⟩ | token
    · simp only [Draft.read, token, Except.ok.injEq] at step
      subst step
      exact Covers.term [s] written (fun _ => List.cons_ne_nil _ _)
    · simp only [Draft.read, token, Except.ok.injEq] at step
      subst step
      exact .constant written nonempty
    · simp [Draft.read, token] at step
  | @constant ws terms written nonempty =>
    rcases Token.ofWord_cases word with ⟨s, rfl, token⟩ | ⟨rfl, token⟩ | token
    · simp [Draft.read, token] at step
    · simp [Draft.read, token] at step
    · simp only [Draft.read, token] at step
      cases read : constantOfWord word with
      | error e => simp [read, bind, Except.bind] at step
      | ok c =>
        simp only [read, bind, Except.bind, Except.ok.injEq] at step
        subst step
        obtain ⟨value, finite⟩ := constantOfWord_eq_ok_iff.mp read
        have next := Covers.nothing written nonempty value finite
        simpa using next
  | nothing => simp [Draft.read] at step

theorem Draft.covers_of_foldlM {source : String} {words : List (List Char)} {p : Draft}
    (h : words.foldlM (Draft.read source) Draft.start = .ok p) : p.Covers words := by
  induction words using List.reverseRecOn generalizing p with
  | nil =>
    cases h
    exact Covers.term [] Written.nil (fun h => absurd rfl h)
  | append_singleton words word ih =>
    rw [List.foldlM_append] at h
    cases before : words.foldlM (Draft.read source) Draft.start with
    | error e => simp [before, bind, Except.bind] at h
    | ok q =>
      simp only [before, bind, Except.bind, List.foldlM_cons, List.foldlM_nil, pure,
        Except.pure] at h
      cases step : q.read source word with
      | error e => simp [step] at h
      | ok q' =>
        simp only [step, Except.ok.injEq] at h
        subst h
        exact (ih before).read step

theorem symbols_of_means {ws : List WrittenTerm} {terms : List (Term Float)}
    (h : List.Forall₂ WrittenTerm.Means ws terms) :
    terms.map Term.symbol = (ws.map WrittenTerm.symbol).map String.ofList := by
  induction h with
  | nil => rfl
  | cons means _ ih => simp only [List.map_cons, means.symbol_eq, ih]

/-- What is accepted is written in the grammar and means what is returned. -/
theorem Equation.exists_of_parse {source : String} {e : Equation Float}
    (h : Equation.parse source = .ok e) :
    ∃ w : WrittenEquation, w.words = Text.words source.toList ∧ w.WellFormed ∧ w.Means e := by
  unfold Equation.parse at h
  cases run : (Text.words source.toList).foldlM (Draft.read source) Draft.start with
  | error e => simp [run, bind, Except.bind] at h
  | ok p =>
    simp only [run, bind, Except.bind] at h
    have covers := Draft.covers_of_foldlM run
    generalize Text.words source.toList = words at covers
    cases covers with
    | @term _ _ signs => cases signs <;> simp [Draft.finish] at h
    | operator => simp [Draft.finish] at h
    | constant => simp [Draft.finish] at h
    | @nothing ws terms word c written nonempty value finite =>
      cases built : Equation.ofTerms terms c with
      | error e => simp [Draft.finish, built, Except.mapError] at h
      | ok e' =>
        simp only [Draft.finish, built, Except.mapError, Except.ok.injEq] at h
        subst h
        obtain ⟨rfl, rfl⟩ := Equation.of_ofTerms built
        refine ⟨⟨ws, word⟩, rfl, ⟨nonempty, written.separated, written.wellFormed, ?_,
          _, value, finite⟩, written.means, value⟩
        exact List.Nodup.of_map _ (symbols_of_means written.means ▸ e'.distinct)

/-! ## What is in the grammar is accepted -/

theorem foldlM_signs (source : String) (terms : List (Term Float)) (sign : Sign) (signed : Bool)
    (signs : List Sign) :
    (signs.map Sign.word).foldlM (Draft.read source) ⟨terms, .term sign signed⟩
      = .ok ⟨terms, .term (signs.foldl Sign.then sign) (signed || !signs.isEmpty)⟩ := by
  induction signs generalizing sign signed with
  | nil => simp [pure, Except.pure]
  | cons s signs ih =>
    rw [List.map_cons, List.foldlM_cons, Draft.read, Token.ofWord_sign]
    simp [bind, Except.bind, ih]

theorem Token.ofWord_of_float {word : List Char} {x : Float}
    (h : Decimal.floatOfText? word = some x) : Token.ofWord word = .word word := by
  rcases Token.ofWord_cases word with ⟨s, rfl, _⟩ | ⟨rfl, _⟩ | token
  · cases s <;> cases h
  · cases h
  · exact token

theorem Token.ofWord_of_wellFormed {w : WrittenTerm} (h : w.WellFormed) :
    Token.ofWord w.word = .word w.word := by
  have nonempty := h.symbol_ne_nil
  have letters := h.letters
  unfold WrittenTerm.symbol at nonempty letters
  rcases Token.ofWord_cases w.word with ⟨s, eq, _⟩ | ⟨eq, _⟩ | token
  · rw [eq] at nonempty letters
    cases s with
    | plus => exact absurd letters (by decide +kernel)
    | minus => exact absurd rfl nonempty
  · rw [eq] at letters
    exact absurd letters (by decide +kernel)
  · exact token

theorem Term.ofWord_of_means {w : WrittenTerm} (h : w.WellFormed) {t : Term Float}
    (ht : w.Means t) :
    ∃ x, Term.ofWord w.word = .ok ⟨t.symbol, x⟩ ∧
      t.coefficient = (w.signs.foldl Sign.then .plus).apply x := by
  obtain ⟨x, text, eq⟩ := ht.coefficient_eq
  obtain ⟨y, text', finite⟩ := h.coefficient
  obtain rfl := text.unique text'
  refine ⟨x, ?_, ?_⟩
  · rw [Term.ofWord_eq_ok_iff, ht.symbol_eq]
    exact ⟨h.symbol_ne_nil, h.letters, x, text, finite, rfl⟩
  · rw [eq, Sign.apply_foldl]
    rfl

/-- Where a term may start, its signs and its word are read as the term that they mean. -/
theorem foldlM_term (source : String) (terms : List (Term Float)) {w : WrittenTerm}
    (h : w.WellFormed) {t : Term Float} (ht : w.Means t) :
    w.words.foldlM (Draft.read source) ⟨terms, .term .plus false⟩
      = .ok ⟨terms ++ [t], .operator⟩ := by
  obtain ⟨x, read, eq⟩ := Term.ofWord_of_means h ht
  rw [WrittenTerm.words, List.foldlM_append, foldlM_signs]
  simp only [bind, Except.bind, List.foldlM_cons, List.foldlM_nil, Draft.read,
    Token.ofWord_of_wellFormed h, read, pure, Except.pure, ← eq]

/-- After a term, a sign is read as at the start. -/
theorem Draft.read_operator_sign (source : String) (terms : List (Term Float)) (s : Sign) :
    Draft.read source ⟨terms, .operator⟩ s.word
      = Draft.read source ⟨terms, .term .plus false⟩ s.word := by
  simp only [Draft.read, Token.ofWord_sign]
  rfl

theorem foldlM_next_term (source : String) (terms : List (Term Float)) {w : WrittenTerm}
    (signs : w.signs ≠ []) (h : w.WellFormed) {t : Term Float} (ht : w.Means t) :
    w.words.foldlM (Draft.read source) ⟨terms, .operator⟩
      = .ok ⟨terms ++ [t], .operator⟩ := by
  rw [← foldlM_term source terms h ht]
  obtain ⟨s, rest, eq⟩ := List.exists_cons_of_ne_nil signs
  rw [WrittenTerm.words, eq, List.map_cons, List.cons_append, List.foldlM_cons, List.foldlM_cons,
    Draft.read_operator_sign]

theorem foldlM_terms (source : String) (terms : List (Term Float)) {ws : List WrittenTerm}
    (separated : ∀ w ∈ ws, w.signs ≠ []) (wellFormed : ∀ w ∈ ws, w.WellFormed)
    {more : List (Term Float)} (means : List.Forall₂ WrittenTerm.Means ws more) :
    (ws.flatMap WrittenTerm.words).foldlM (Draft.read source) ⟨terms, .operator⟩
      = .ok ⟨terms ++ more, .operator⟩ := by
  induction means generalizing terms with
  | nil => simp [pure, Except.pure]
  | @cons w t ws more ht _ ih =>
    rw [List.flatMap_cons, List.foldlM_append,
      foldlM_next_term source terms (separated w List.mem_cons_self)
        (wellFormed w List.mem_cons_self) ht]
    simp only [bind, Except.bind]
    rw [ih _ (fun v hv => separated v (List.mem_cons_of_mem _ hv))
      (fun v hv => wellFormed v (List.mem_cons_of_mem _ hv)), List.append_assoc,
      List.singleton_append]

theorem foldlM_constant (source : String) (terms : List (Term Float)) {word : List Char} {c : Float}
    (value : Decimal.floatOfText? word = some c) (finite : c.isFinite = true) :
    [['='], word].foldlM (Draft.read source) ⟨terms, .operator⟩ = .ok ⟨terms, .nothing c⟩ := by
  have equals : Token.ofWord ['='] = .equals := rfl
  simp only [List.foldlM_cons, List.foldlM_nil, Draft.read, equals, Token.ofWord_of_float value,
    constantOfWord_eq_ok_iff.mpr ⟨value, finite⟩, bind, Except.bind, pure, Except.pure]

theorem WrittenEquation.WellFormed.exists_terms {w : WrittenEquation} (h : w.WellFormed) :
    ∃ terms, List.Forall₂ WrittenTerm.Means w.terms terms := by
  have each := h.terms_wellFormed
  generalize w.terms = ws at each
  induction ws with
  | nil => exact ⟨[], .nil⟩
  | cons v ws ih =>
    obtain ⟨terms, means⟩ := ih fun u hu => each u (List.mem_cons_of_mem _ hu)
    obtain ⟨x, text, _⟩ := (each v List.mem_cons_self).coefficient
    exact ⟨⟨String.ofList v.symbol, _⟩ :: terms, .cons ⟨rfl, x, text, rfl⟩ means⟩

/-- What is written in the grammar is accepted and means what is returned. -/
theorem Equation.parse_of_wellFormed {source : String} {w : WrittenEquation}
    (words : w.words = Text.words source.toList) (h : w.WellFormed) :
    ∃ e, Equation.parse source = .ok e ∧ w.Means e := by
  obtain ⟨terms, means⟩ := h.exists_terms
  obtain ⟨c, value, finite⟩ := h.constant_finite
  have distinct : (terms.map Term.symbol).Nodup := by
    rw [symbols_of_means means]
    exact h.distinct.map fun _ _ eq => String.ofList_injective eq
  refine ⟨⟨terms, c, distinct⟩, ?_, means, value⟩
  obtain ⟨ws, word⟩ := w
  cases means with
  | nil => exact absurd rfl h.terms_ne_nil
  | @cons v t ws terms ht means =>
    have separated : ∀ u ∈ ws, u.signs ≠ [] := h.separated
    unfold Equation.parse
    rw [← words, WrittenEquation.words, List.flatMap_cons, List.append_assoc,
      List.foldlM_append, Draft.start,
      foldlM_term source [] (h.terms_wellFormed v List.mem_cons_self) ht]
    simp only [bind, Except.bind]
    rw [List.foldlM_append, foldlM_terms source _ separated
      (fun u hu => h.terms_wellFormed u (List.mem_cons_of_mem _ hu)) means]
    simp only [bind, Except.bind]
    rw [foldlM_constant source _ value finite]
    simp only [Draft.finish, List.nil_append, List.singleton_append,
      Equation.ofTerms_eq_ok distinct, Except.mapError]

theorem WrittenTerm.Means.unique {w : WrittenTerm} {t t' : Term Float} (h : w.Means t)
    (h' : w.Means t') : t = t' := by
  have symbol : t.symbol = t'.symbol := h.symbol_eq.trans h'.symbol_eq.symm
  have coefficient : t.coefficient = t'.coefficient := by
    obtain ⟨x, text, eq⟩ := h.coefficient_eq
    obtain ⟨x', text', eq'⟩ := h'.coefficient_eq
    rw [eq, eq', text.unique text']
  cases t
  cases t'
  exact Term.mk.injEq .. ▸ ⟨symbol, coefficient⟩

theorem WrittenEquation.Means.unique {w : WrittenEquation} {e e' : Equation Float} (h : w.Means e)
    (h' : w.Means e') : e = e' := by
  have terms : e.terms = e'.terms :=
    List.right_unique_forall₂' (fun _ _ _ h h' => h.unique h') h.terms_mean h'.terms_mean
  have constant : e.constant = e'.constant :=
    Option.some.inj (h.constant_eq.symm.trans h'.constant_eq)
  cases e
  cases e'
  exact Equation.mk.injEq .. ▸ ⟨terms, constant⟩

/-- **The language of equations.** A text is read as an equation exactly when its words are written
in the grammar and mean that equation; and however the words are cut according to the grammar, they
are accepted with that meaning. -/
theorem Equation.parse_eq_ok_iff (source : String) :
    (∀ e, Equation.parse source = .ok e ↔
      ∃ w : WrittenEquation, w.words = Text.words source.toList ∧ w.WellFormed ∧ w.Means e) ∧
    ∀ w : WrittenEquation, w.words = Text.words source.toList → w.WellFormed →
      ∃ e, Equation.parse source = .ok e ∧ w.Means e := by
  refine ⟨fun e => ⟨Equation.exists_of_parse, ?_⟩, fun w => Equation.parse_of_wellFormed⟩
  rintro ⟨w, words, wellFormed, means⟩
  obtain ⟨e', parsed, means'⟩ := Equation.parse_of_wellFormed words wellFormed
  rw [parsed, means'.unique means]

end Seidel
