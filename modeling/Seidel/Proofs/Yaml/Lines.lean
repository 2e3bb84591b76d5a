import Seidel.Proofs.Yaml.Literals
import Seidel.Yaml.Lexer

/-!
# The lines of a mapping

How the lexer goes through a mapping at the left margin whose values are scalars and sequences that
are not indented. Between its lines the lexer is in one of few states (`atLine`), and a scalar
always leads to such a state (`token?_scalar`). What the rest of the stream gives is carried
backwards over each line (`Ends`).
-/

namespace Seidel.Yaml.Lexer

/-! ## To the end of the stream -/

/-- All tokens, when those of the rest of the stream are read. -/
def Ends (l : Lexer) (ts : List Token) : Prop :=
  ∀ fuel, l.cursor.rest.length < fuel → l.run? fuel = some ts

theorem Ends.step {l l' next : Lexer} {ts : List Token} (h : next.Ends ts)
    (advanced : l.advance? = some l') (more : l'.cursor.rest ≠ []) (token : l'.token? = some next)
    (shorter : next.cursor.rest.length < l.cursor.rest.length) : l.Ends ts := by
  intro fuel enough
  obtain ⟨fuel, rfl⟩ := Nat.exists_eq_succ_of_ne_zero (Nat.ne_zero_of_lt enough)
  have rest := h fuel (by omega)
  simp only [run?, advanced, bind, Option.bind, more, ↓reduceIte, token, rest]

/-- What comes before the next token does not matter. -/
theorem Ends.of_advance {l l' : Lexer} {ts : List Token} (h : l'.Ends ts)
    (advanced : l.advance? = some l') (settled : l'.advance? = some l')
    (shorter : l'.cursor.rest.length ≤ l.cursor.rest.length) : l.Ends ts := by
  intro fuel enough
  rw [← h fuel (Nat.lt_of_le_of_lt shorter enough)]
  cases fuel with
  | zero => rfl
  | succ fuel => rw [run?, run?, advanced, settled]

/-! ## Between the lines -/

/-- At the beginning of a line of the mapping. -/
def atLine (line : Nat) (rest : List Char) (tokens : List Token) : Lexer :=
  ⟨⟨⟨line, 0⟩, rest⟩, [0], true, none, [], tokens⟩

/-- The next line begins with a token at the margin, if there is one. -/
def StartsLine (rest : List Char) : Prop :=
  ∀ c ∈ rest.head?, isSpace c = false ∧ c ≠ '#' ∧ c ≠ '\uFEFF'

theorem startsLine_nil : StartsLine [] := by
  rintro c ⟨⟩

theorem startsLine_hyphen (rest : List Char) : StartsLine ('-' :: rest) := by
  rintro c ⟨⟩
  decide

theorem StartsLine.not_isSpace {rest : List Char} (h : StartsLine rest) :
    ∀ c ∈ rest.head?, isSpace c = false :=
  fun c hc => (h c hc).1

theorem StartsLine.skips {rest : List Char} (h : StartsLine rest) {p : Position} :
    ∀ c ∈ rest.head?, isSpace c = false ∧ c ≠ '#' ∧ (c = '\uFEFF' → 0 < p.column) :=
  fun c hc => ⟨(h c hc).1, (h c hc).2.1, fun eq => absurd eq (h c hc).2.2⟩

theorem skipGap_token {inFlow keyAllowed : Bool} {p : Position} {rest : List Char}
    (starts : ∀ c ∈ rest.head?, isSpace c = false ∧ c ≠ '#' ∧ (c = '\uFEFF' → 0 < p.column)) :
    skipGap inFlow keyAllowed false p rest = (keyAllowed, ⟨p, rest⟩) := by
  cases rest with
  | nil => rfl
  | cons c rest =>
    obtain ⟨notSpace, notComment, notMark⟩ := starts c rfl
    have notBreak := isBreak_of_isSpace_eq_false notSpace
    have notBlank : c ≠ ' ' ∧ c ≠ '\t' := by
      simpa [isSpace, isBlank, notBreak] using notSpace
    have inside : ¬ (c = '\uFEFF' ∧ p.column = 0) := by
      rintro ⟨eq, zero⟩
      exact Nat.ne_of_gt (notMark eq) zero
    simp only [skipGap, notBreak, notBlank, notComment, inside, decide_false, Bool.false_and,
      Bool.false_or, Bool.false_eq_true, ↓reduceIte, ← Bool.decide_and]

/-- A key that was possible on an earlier line is given up. -/
theorem advance?_atLine {line : Nat} {rest : List Char} (starts : StartsLine rest)
    (key : Option PossibleKey)
    (stale : ∀ k ∈ key, k.required = false ∧ k.position.line < line) (tokens : List Token) :
    (⟨⟨⟨line, 0⟩, rest⟩, [0], true, key, [], tokens⟩ : Lexer).advance?
      = some (atLine line rest tokens) := by
  have stay : skipGap false true false ⟨line, 0⟩ rest = (true, ⟨⟨line, 0⟩, rest⟩) :=
    skipGap_token starts.skips
  cases key with
  | none => simp [advance?, inFlow, stay, dropStaleKeys?, closeOuterBlocks, closeBlocks, atLine]
  | some k =>
    obtain ⟨notRequired, earlier⟩ := stale k rfl
    have isStale : PossibleKey.isStale ⟨line, 0⟩ k = true := by simp [PossibleKey.isStale, earlier]
    simp [advance?, inFlow, stay, dropStaleKeys?, isStale, notRequired, closeOuterBlocks,
      closeBlocks, atLine]

theorem advance?_settled {line : Nat} {rest : List Char} (starts : StartsLine rest)
    (tokens : List Token) : (atLine line rest tokens).advance? = some (atLine line rest tokens) :=
  advance?_atLine starts none nofun tokens

/-- At the end of a line. -/
theorem advance?_newline {p : Position} {rest : List Char} (starts : StartsLine rest)
    (keyAllowed : Bool) (key : Option PossibleKey)
    (stale : ∀ k ∈ key, k.required = false ∧ k.position.line ≤ p.line) (tokens : List Token) :
    (⟨⟨p, '\n' :: rest⟩, [0], keyAllowed, key, [], tokens⟩ : Lexer).advance?
      = some (atLine (p.line + 1) rest tokens) := by
  have next : (⟨⟨p, '\n' :: rest⟩, [0], keyAllowed, key, [], tokens⟩ : Lexer).advance?
      = (⟨⟨⟨p.line + 1, 0⟩, rest⟩, [0], true, key, [], tokens⟩ : Lexer).advance? := by
    have feed : isBreak '\n' = true := rfl
    simp [advance?, inFlow, skipGap, feed, after_of_break feed]
  rw [next]
  exact advance?_atLine starts key
    (fun k hk => ⟨(stale k hk).1, Nat.lt_succ_of_le (stale k hk).2⟩) tokens

/-- A blank before a token on the same line. -/
theorem advance?_blank {line column : Nat} {c : Char} {rest : List Char}
    (notSpace : isSpace c = false) (notComment : c ≠ '#') (keyAllowed : Bool)
    (tokens : List Token) :
    (⟨⟨⟨line, column⟩, ' ' :: c :: rest⟩, [0], keyAllowed, none, [], tokens⟩ : Lexer).advance?
      = some ⟨⟨⟨line, column + 1⟩, c :: rest⟩, [0], keyAllowed, none, [], tokens⟩ := by
  have skipped : skipGap false keyAllowed false ⟨line, column⟩ (' ' :: c :: rest)
      = (keyAllowed, ⟨⟨line, column + 1⟩, c :: rest⟩) := by
    have blank : isBreak ' ' = false := rfl
    rw [skipGap, if_neg (by simp [blank]), if_neg Bool.false_ne_true, if_pos (by rfl),
      after_of_not_break blank]
    refine skipGap_token ?_
    rintro d ⟨⟩
    exact ⟨notSpace, notComment, fun _ => Nat.succ_pos _⟩
  simp [advance?, inFlow, skipped, dropStaleKeys?, closeOuterBlocks, closeBlocks]

/-! ## Scalars -/

/-- Before a value, where none can be a key, or an item, which could be one. -/
def atScalar (p : Position) (rest : List Char) (keyAllowed : Bool) (tokens : List Token) : Lexer :=
  ⟨⟨p, rest⟩, [0], keyAllowed, none, [], tokens⟩

/-- What is remembered of the place of a scalar. -/
def keyOf (p : Position) (keyAllowed : Bool) (tokens : List Token) : Option PossibleKey :=
  if keyAllowed then some ⟨false, tokens.length, p⟩ else none

theorem keyOf_stale {p p' : Position} (h : p.line ≤ p'.line) (keyAllowed : Bool)
    (tokens : List Token) :
    ∀ k ∈ keyOf p keyAllowed tokens, k.required = false ∧ k.position.line ≤ p'.line := by
  cases keyAllowed with
  | false => exact nofun
  | true =>
    rintro k ⟨⟩
    exact ⟨rfl, h⟩

theorem saveKey?_atScalar {p : Position} (indented : 0 < p.column) (rest : List Char)
    (keyAllowed : Bool) (tokens : List Token) :
    (atScalar p rest keyAllowed tokens).saveKey?
      = some { atScalar p rest keyAllowed tokens with blockKey := keyOf p keyAllowed tokens } := by
  have column : (0 == p.column) = false := beq_eq_false_iff_ne.mpr (Nat.ne_of_lt indented)
  cases keyAllowed with
  | false => rfl
  | true =>
    simp [saveKey?, atScalar, keyOf, dropKey?, possibleKey, setPossibleKey, inFlow, column]

theorem startsPlain_of_mark {c : Char} {cs : List Char} (notIndicator : isIndicator c = false)
    (notSpace : isSpace c = false) (mark : c = '?' ∨ c = ':' ∨ c = '-' → atSpace cs = false) :
    startsPlain false (c :: cs) = true := by
  rw [startsPlain]
  split
  · rename_i hyphen
    have notAtSpace := mark (.inr (.inr hyphen))
    cases cs with
    | nil => rfl
    | cons d cs =>
      have notBlank : isBlank d = false := (Bool.or_eq_false_iff.mp notAtSpace).1
      simp [notBlank]
  · split
    · rename_i other
      have other : c = '?' ∨ c = ':' := by simpa using other
      rw [mark (or_assoc.mp (.inl other))]
      rfl
    · simp [notSpace, notIndicator]

/-- Nothing before the start of a plain scalar can be anything else. -/
theorem token?_plain {l : Lexer} (c : Char) (cs : List Char) (rest : l.cursor.rest = c :: cs)
    (block : l.flowKeys = []) (notIndicator : isIndicator c = false) (notSpace : isSpace c = false)
    (mark : c = '?' ∨ c = ':' ∨ c = '-' → atSpace cs = false)
    (noMark : l.cursor.position.column = 0 → atDocumentMark (c :: cs) = false) :
    l.token? = l.plainScalar? := by
  have inFlow : l.inFlow = false := by simp [inFlow, block]
  have noMark' : (l.cursor.position.column == 0 && atDocumentMark (c :: cs)) = false := by
    cases column : l.cursor.position.column == 0 with
    | false => rfl
    | true => exact noMark (beq_iff_eq.mp column)
  have isPlain := startsPlain_of_mark notIndicator notSpace mark
  have notMark (m : Char) (h : m = '?' ∨ m = ':' ∨ m = '-') : ¬ (c = m ∧ atSpace cs = true) := by
    rintro ⟨rfl, space⟩
    rw [mark h] at space
    cases space
  have notQuestion := notMark '?' (by decide)
  have notColon := notMark ':' (by decide)
  have notHyphen := notMark '-' (by decide)
  simp only [isIndicator, isFlowIndicator, Bool.or_eq_false_iff, beq_eq_false_iff_ne]
    at notIndicator
  simp [token?, rest, inFlow, noMark', isPlain, notIndicator, notQuestion, notColon, notHyphen]

/-- A plain scalar up to the end of its line. -/
theorem token?_plainText {c : Char} {cs rest : List Char} (plain : IsPlain (c :: cs))
    (notIndicator : isIndicator c = false) (notSpace : isSpace c = false)
    (mark : c = '?' ∨ c = ':' ∨ c = '-' → atSpace cs = false) (starts : StartsLine rest)
    {p : Position} (indented : 0 < p.column) (keyAllowed : Bool) (tokens : List Token) :
    (atScalar p (c :: cs ++ '\n' :: rest) keyAllowed tokens).token?
      = some ⟨⟨⟨p.line + 1, 0⟩, rest⟩, [0], true, keyOf p keyAllowed tokens, [],
        .scalar .plain (c :: cs) :: tokens⟩ := by
  have mark' : c = '?' ∨ c = ':' ∨ c = '-' → atSpace (cs ++ '\n' :: rest) = false := by
    intro isMark
    have notAtSpace := mark isMark
    cases cs with
    | nil => cases notAtSpace
    | cons d cs => exact notAtSpace
  have read := readPlain_text plain (Nat.le_refl 1) [] p (fun _ => rfl)
    (fun nonempty => absurd rfl nonempty) ('\n' :: rest)
  rw [readPlain_newline starts.not_isSpace] at read
  rw [token?_plain c (cs ++ '\n' :: rest) rfl rfl notIndicator notSpace mark'
    (fun zero => absurd zero (Nat.ne_of_gt indented)), plainScalar?, saveKey?_atScalar indented]
  change Option.bind (readPlain false 1 (.blanks []) p (c :: cs ++ '\n' :: rest)) _ = _
  rw [read, Option.map_some, List.nil_append, List.append_nil]
  rfl

/-- The first character of a scalar that is not plain says how the scalar is read. -/
theorem token?_mark {p : Position} (indented : 0 < p.column) (text : List Char) (keyAllowed : Bool)
    (tokens : List Token) :
    (atScalar p ('\'' :: text) keyAllowed tokens).token?
      = (atScalar p ('\'' :: text) keyAllowed tokens).quotedScalar? .singleQuoted ∧
    (atScalar p ('"' :: text) keyAllowed tokens).token?
      = (atScalar p ('"' :: text) keyAllowed tokens).quotedScalar? .doubleQuoted ∧
    (atScalar p ('|' :: text) keyAllowed tokens).token?
      = (atScalar p ('|' :: text) keyAllowed tokens).blockScalar? .literal := by
  have column : (p.column == 0) = false := beq_eq_false_iff_ne.mpr (Nat.ne_of_gt indented)
  refine ⟨?_, ?_, ?_⟩
  all_goals
    simp only [token?, atScalar, column, Bool.false_and]
    rfl

theorem token?_singleQuoted {cs : List Char} (allowed : allowsSingleQuoted cs = true)
    (oneFeed : '\n' ∉ cs) (rest : List Char) {p : Position} (indented : 0 < p.column)
    (keyAllowed : Bool) (tokens : List Token) :
    ∃ p', p.line ≤ p'.line ∧
      (atScalar p ('\'' :: (singleQuotedText false cs ++ '\'' :: '\n' :: rest)) keyAllowed
          tokens).token?
        = some ⟨⟨p', '\n' :: rest⟩, [0], false, keyOf p keyAllowed tokens, [],
          .scalar .singleQuoted cs :: tokens⟩ := by
  simp only [allowsSingleQuoted, Bool.and_eq_true, Bool.not_eq_true'] at allowed
  obtain ⟨⟨printable, spaceBreak⟩, breakSpace⟩ := allowed
  have inside : 0 < (p.after '\'').column := column_pos_after rfl p
  obtain ⟨p', line, read⟩ := readSingleQuoted_text (List.all_eq_true.mp printable) spaceBreak
    breakSpace oneFeed ('\n' :: rest) (by simp) .empty (p.after '\'')
    (precedes_empty inside cs)
  refine ⟨p', Nat.le_trans (line_le_after p _) line, ?_⟩
  rw [(token?_mark indented _ _ _).1, quotedScalar?, saveKey?_atScalar indented]
  change readSingleQuoted .empty (p.after '\'') (singleQuotedText false cs ++ '\'' :: '\n' :: rest)
    = some (cs, ⟨p', '\n' :: rest⟩) at read
  change Option.bind (readSingleQuoted .empty (p.after '\'')
    (singleQuotedText false cs ++ '\'' :: '\n' :: rest)) _ = _
  rw [read]
  rfl

theorem token?_doubleQuoted (cs rest : List Char) {p : Position} (indented : 0 < p.column)
    (keyAllowed : Bool) (tokens : List Token) :
    ∃ p', p.line ≤ p'.line ∧
      (atScalar p ('"' :: (doubleQuotedText cs ++ '"' :: '\n' :: rest)) keyAllowed tokens).token?
        = some ⟨⟨p', '\n' :: rest⟩, [0], false, keyOf p keyAllowed tokens, [],
          .scalar .doubleQuoted cs :: tokens⟩ := by
  have inside : 0 < (p.after '"').column := column_pos_after rfl p
  obtain ⟨p', line, read⟩ := readDoubleQuoted_text cs ('\n' :: rest) [] (p.after '"') inside
  refine ⟨p', Nat.le_trans (line_le_after p _) line, ?_⟩
  rw [(token?_mark indented _ _ _).2.1, quotedScalar?, saveKey?_atScalar indented]
  change Option.bind (readDoubleQuoted (.blanks []) 0 (p.after '"')
    (doubleQuotedText cs ++ '"' :: '\n' :: rest)) _ = _
  rw [read]
  rfl

theorem token?_literal {cs rest : List Char} (printable : ∀ c ∈ cs, isPrintable c = true)
    (nonempty : cs ≠ []) (starts : StartsLine rest) {p : Position} (indented : 0 < p.column)
    (keyAllowed : Bool) (tokens : List Token) :
    ∃ line, (atScalar p (literalHeader cs ++ '\n' :: (literalText true cs
          ++ (if cs.getLast?.any isBreak then [] else ['\n']) ++ rest)) keyAllowed tokens).token?
        = some (atLine line rest (.scalar .literal cs :: tokens)) := by
  obtain ⟨header, line, eq, read⟩ :=
    readBlockScalar_text printable nonempty starts.not_isSpace (p.after '|')
  refine ⟨line, ?_⟩
  rw [eq, List.cons_append, (token?_mark indented _ _ _).2.2, blockScalar?]
  change Option.bind (readBlockScalar false (some 0) ⟨p.after '|', _⟩) _ = _
  rw [read]
  rfl

/-- A scalar is read, and the next token is at the beginning of a line. -/
def ReadsScalar (l : Lexer) (rest : List Char) (tokens : List Token) : Prop :=
  ∃ next line, l.token? = some next ∧ next.advance? = some (atLine line rest tokens) ∧
    next.cursor.rest.length < l.cursor.rest.length ∧ rest.length ≤ next.cursor.rest.length

theorem readsScalar_plain {c : Char} {cs rest : List Char} (plain : IsPlain (c :: cs))
    (notIndicator : isIndicator c = false) (notSpace : isSpace c = false)
    (mark : c = '?' ∨ c = ':' ∨ c = '-' → atSpace cs = false) (starts : StartsLine rest)
    {p : Position} (indented : 0 < p.column) (keyAllowed : Bool) (tokens : List Token) :
    ReadsScalar (atScalar p (c :: cs ++ '\n' :: rest) keyAllowed tokens) rest
      (.scalar .plain (c :: cs) :: tokens) := by
  refine ⟨_, p.line + 1,
    token?_plainText plain notIndicator notSpace mark starts indented keyAllowed tokens,
    advance?_atLine starts _ (fun k hk => ?_) _, ?_, Nat.le_refl _⟩
  · obtain ⟨notRequired, line⟩ := keyOf_stale (Nat.le_refl p.line) keyAllowed tokens k hk
    exact ⟨notRequired, Nat.lt_succ_of_le line⟩
  · change rest.length < (c :: cs ++ '\n' :: rest).length
    rw [List.length_append, List.length_cons, List.length_cons]
    omega

theorem readsScalar_quoted {l : Lexer} {p p' : Position} {rest : List Char} {keyAllowed : Bool}
    {tokens : List Token} {t : Token} (line : p.line ≤ p'.line)
    (token : l.token? = some ⟨⟨p', '\n' :: rest⟩, [0], false, keyOf p keyAllowed tokens, [],
      t :: tokens⟩) (starts : StartsLine rest) (shorter : rest.length + 1 < l.cursor.rest.length) :
    ReadsScalar l rest (t :: tokens) :=
  ⟨_, p'.line + 1, token, advance?_newline starts _ _ (keyOf_stale line keyAllowed tokens) _,
    shorter, Nat.le_succ _⟩

/-- The printer writes text plain only if it can start so. -/
theorem exists_plain_start {cs : List Char} (notReserved : isReserved cs = false)
    (allowed : allowsPlain cs = true) :
    ∃ c cs', cs = c :: cs' ∧ isIndicator c = false ∧ isSpace c = false ∧
      (c = '?' ∨ c = ':' ∨ c = '-' → atSpace cs' = false) := by
  cases cs with
  | nil => cases notReserved
  | cons c cs =>
    have plain := isPlain_of_allowsPlain allowed
    simp only [allowsPlain, hasIndicator, Bool.and_eq_true, Bool.not_eq_true',
      Bool.or_eq_false_iff, bne_iff_ne] at allowed
    obtain ⟨⟨⟨_, ⟨⟨start, _⟩, _⟩, _⟩, notSpace⟩, _⟩ := allowed
    refine ⟨c, cs, rfl, ?_, ?_, atSpace_of_startsLikeIndicator start⟩
    · simp only [startsLikeIndicator, Bool.or_eq_false_iff] at start
      exact start.1.1.1
    · apply Bool.eq_false_iff.mpr
      intro space
      exact notSpace (congrArg some (plain.spaces c List.mem_cons_self space))

/-- **Scalars.** Any text that is written as a scalar is read as this text, and leads to the next
line. -/
theorem readsScalar (cs : List Char) {rest : List Char} (starts : StartsLine rest) {p : Position}
    (indented : 0 < p.column) (keyAllowed : Bool) (tokens : List Token) :
    ReadsScalar (atScalar p (scalarText cs ++ rest) keyAllowed tokens) rest
      (.scalar (ScalarStyle.of cs) cs :: tokens) := by
  unfold scalarText
  rcases ScalarStyle.of_cases cs with ⟨style, notReserved, allowed⟩ | ⟨style, oneFeed, allowed⟩ |
    ⟨style, several, allowed⟩ | style
  · obtain ⟨c, cs', rfl, notIndicator, notSpace, mark⟩ := exists_plain_start notReserved allowed
    simp only [style, List.append_assoc, List.singleton_append]
    exact readsScalar_plain (isPlain_of_allowsPlain allowed) notIndicator notSpace mark starts
      indented keyAllowed tokens
  · obtain ⟨p', line, token⟩ :=
      token?_singleQuoted allowed oneFeed rest indented keyAllowed tokens
    simp only [style, List.cons_append, List.append_assoc, List.nil_append]
    refine readsScalar_quoted line token starts ?_
    simp only [atScalar, List.length_cons, List.length_append]
    omega
  · simp only [allowsLiteral, Bool.and_eq_true] at allowed
    obtain ⟨line, token⟩ := token?_literal (List.all_eq_true.mp allowed.1.1)
      (List.ne_nil_of_mem several) starts indented keyAllowed tokens
    simp only [style, List.cons_append, List.append_assoc] at token ⊢
    refine ⟨_, line, token, advance?_settled starts _, ?_, Nat.le_refl _⟩
    simp only [atScalar, atLine, List.length_cons, List.length_append]
    omega
  · obtain ⟨p', line, token⟩ :=
      token?_doubleQuoted cs rest indented keyAllowed tokens
    simp only [style, List.cons_append, List.append_assoc, List.nil_append]
    refine readsScalar_quoted line token starts ?_
    simp only [atScalar, List.length_cons, List.length_append]
    omega

/-- The first character of a scalar is none that is passed over. -/
theorem exists_scalarText (cs : List Char) :
    ∃ c text, scalarText cs = c :: text ∧ isSpace c = false ∧ c ≠ '#' := by
  unfold scalarText
  rcases ScalarStyle.of_cases cs with ⟨style, notReserved, allowed⟩ | ⟨style, _⟩ | ⟨style, _⟩ |
    style
  · obtain ⟨c, cs', rfl, notIndicator, notSpace, _⟩ := exists_plain_start notReserved allowed
    rw [style]
    refine ⟨c, _, rfl, notSpace, ?_⟩
    rintro rfl
    cases notIndicator
  · rw [style]
    exact ⟨_, _, rfl, rfl, by decide⟩
  · rw [style]
    exact ⟨_, _, rfl, rfl, by decide⟩
  · rw [style]
    exact ⟨_, _, rfl, rfl, by decide⟩

/-! ## Items -/

/-- A blank and a scalar, after a colon or a hyphen. -/
theorem ends_blank_scalar {text rest : List Char} {p : Position} {keyAllowed : Bool}
    {tokens tokens' ts : List Token} {c : Char} {text' : List Char} (eq : text = c :: text')
    (notSpace : isSpace c = false) (notComment : c ≠ '#') (starts : StartsLine rest)
    (reads : ReadsScalar (atScalar ⟨p.line, p.column + 1⟩ text keyAllowed tokens) rest tokens')
    (ends : ∀ line, (atLine line rest tokens').Ends ts) :
    (atScalar p (' ' :: text) keyAllowed tokens).Ends ts := by
  obtain ⟨next, line, token, advanced, shorter, longer⟩ := reads
  have later : next.Ends ts :=
    (ends line).of_advance advanced (advance?_settled starts _) longer
  subst eq
  refine later.step (advance?_blank notSpace notComment keyAllowed tokens)
    (List.cons_ne_nil c text') token ?_
  exact Nat.lt_succ_of_lt shorter

/-- An item of a sequence that is not indented. -/
theorem ends_item (cs : List Char) {rest : List Char} (starts : StartsLine rest) (line : Nat)
    (tokens : List Token) {ts : List Token}
    (ends : ∀ line,
      (atLine line rest (.scalar (ScalarStyle.of cs) cs :: .blockEntry :: tokens)).Ends ts) :
    (atLine line ('-' :: ' ' :: (scalarText cs ++ rest)) tokens).Ends ts := by
  obtain ⟨c, text, eq, notSpace, notComment⟩ := exists_scalarText cs
  have item : (atScalar ⟨line, 1⟩ (' ' :: (scalarText cs ++ rest)) true
      (.blockEntry :: tokens)).Ends ts :=
    ends_blank_scalar (congrArg (· ++ rest) eq) notSpace notComment starts
      (readsScalar cs starts (Nat.succ_pos _) true _) ends
  refine item.step (advance?_settled (startsLine_hyphen _) tokens)
    (List.cons_ne_nil _ _) ?_ ?_
  · rfl
  · exact Nat.lt_succ_self _

/-! ## Keys -/

/-- A word that can be a key. -/
structure IsKey (key : List Char) : Prop where
  nonempty : key ≠ []
  chars : key.all Char.isAlphanum = true
  short : key.length ≤ 1024

theorem isAlphanum_spec {c : Char} (h : c.isAlphanum = true) :
    isIndicator c = false ∧ isSpace c = false ∧ c ∉ ['?', ':', '-', '.', '#', '\uFEFF'] := by
  have all : ∀ n < 123, (Char.ofNat n).isAlphanum = true →
      isIndicator (Char.ofNat n) = false ∧ isSpace (Char.ofNat n) = false ∧
        Char.ofNat n ∉ ['?', ':', '-', '.', '#', '\uFEFF'] := by
    decide +kernel
  have spec := all c.toNat (Nat.lt_succ_of_le (toNat_of_isAlphanum h).2)
  rw [Char.ofNat_toNat] at spec
  exact spec h

theorem isPlain_of_isAlphanum {cs : List Char} (h : ∀ c ∈ cs, c.isAlphanum = true) :
    IsPlain cs where
  spaces := by
    intro c hc space
    rw [(isAlphanum_spec (h c hc)).2.1] at space
    cases space
  colons := hasNeighbours_eq_false fun c hc => beq_eq_false_iff_ne.mpr (by
    rintro rfl
    cases h ':' hc)
  comments := hasNeighbours_eq_false fun c hc => (isAlphanum_spec (h c hc)).2.1
  last := by
    intro c hc
    have alphanum := h c (List.mem_of_getLast? hc)
    constructor
    · rintro rfl
      cases alphanum
    · rintro rfl
      cases alphanum

/-- What a key puts before its scalar. -/
def opening : List Nat → List Token
  | [] => [.key, .blockMappingStart]
  | _ => [.key]

/-- Where a key is known to be possible. -/
def keyAt (blocks : List Nat) (line : Nat) (tokens : List Token) : PossibleKey :=
  ⟨blocks.head? == some 0, tokens.length, ⟨line, 0⟩⟩

theorem saveKey?_margin (blocks : List Nat) (line : Nat) (text : List Char) (tokens : List Token) :
    (⟨⟨⟨line, 0⟩, text⟩, blocks, true, none, [], tokens⟩ : Lexer).saveKey?
      = some ⟨⟨⟨line, 0⟩, text⟩, blocks, true, some (keyAt blocks line tokens), [], tokens⟩ := by
  simp [saveKey?, dropKey?, possibleKey, setPossibleKey, inFlow, keyAt]

theorem token?_key {c : Char} {cs rest : List Char} (alphanum : ∀ d ∈ c :: cs, d.isAlphanum = true)
    (after : atSpace rest = true) {blocks : List Nat} (margin : blocks = [] ∨ blocks = [0])
    (line : Nat) (tokens : List Token) :
    (⟨⟨⟨line, 0⟩, c :: cs ++ ':' :: rest⟩, blocks, true, none, [], tokens⟩ : Lexer).token?
      = some ⟨⟨⟨line, (c :: cs).length⟩, ':' :: rest⟩, blocks, false,
        some (keyAt blocks line tokens), [], .scalar .plain (c :: cs) :: tokens⟩ := by
  obtain ⟨notIndicator, notSpace, others⟩ := isAlphanum_spec (alphanum c List.mem_cons_self)
  simp only [List.mem_cons, not_or] at others
  obtain ⟨notQuestion, notColon, notHyphen, notPoint, _⟩ := others
  have mark : ¬ (c = '?' ∨ c = ':' ∨ c = '-') := by simp [notQuestion, notColon, notHyphen]
  have noMark : atDocumentMark (c :: (cs ++ ':' :: rest)) = false := by
    unfold atDocumentMark
    split
    · rename_i eq
      exact absurd (List.cons.inj eq).1 notHyphen
    · rename_i eq
      exact absurd (List.cons.inj eq).1 notPoint
    · rfl
  have shallow : (blocks.head?.map (· + 1)).getD 0 ≤ 1 := by
    rcases margin with rfl | rfl <;> decide
  have read := readPlain_text (isPlain_of_isAlphanum alphanum) shallow [] ⟨line, 0⟩ (fun _ => rfl)
    (fun nonempty => absurd rfl nonempty) (':' :: rest)
  rw [readPlain_colon after, Option.map_some, List.nil_append, List.append_nil,
    Nat.zero_add] at read
  rw [token?_plain c (cs ++ ':' :: rest) rfl rfl notIndicator notSpace
    (fun isMark => absurd isMark mark) (fun _ => noMark), plainScalar?, saveKey?_margin]
  change Option.bind (readPlain false _ (.blanks []) ⟨line, 0⟩ (c :: cs ++ ':' :: rest)) _ = _
  rw [read]
  rfl

theorem token?_colon {line column : Nat} (inside : 0 < column) {rest : List Char}
    (after : atSpace rest = true) {blocks : List Nat} (margin : blocks = [] ∨ blocks = [0])
    (t : Token) (tokens : List Token) :
    (⟨⟨⟨line, column⟩, ':' :: rest⟩, blocks, false, some (keyAt blocks line tokens), [],
      t :: tokens⟩ : Lexer).token?
      = some (atScalar ⟨line, column + 1⟩ rest false
        (.value :: t :: (opening blocks ++ tokens))) := by
  have column' : (column == 0) = false := beq_eq_false_iff_ne.mpr (Nat.ne_of_gt inside)
  have token : (⟨⟨⟨line, column⟩, ':' :: rest⟩, blocks, false, some (keyAt blocks line tokens), [],
      t :: tokens⟩ : Lexer).token? = (⟨⟨⟨line, column⟩, ':' :: rest⟩, blocks, false,
        some (keyAt blocks line tokens), [], t :: tokens⟩ : Lexer).value? := by
    simp only [token?, column', Bool.false_and, after]
    rfl
  have later : (t :: tokens).length - tokens.length = 1 := by simp
  rw [token]
  rcases margin with rfl | rfl
  · simp only [value?, possibleKey, insertKey, keyAt, later]
    rfl
  · simp only [value?, possibleKey, insertKey, keyAt, later]
    rfl

theorem advance?_margin {blocks : List Nat} (margin : blocks = [] ∨ blocks = [0]) {line : Nat}
    {text : List Char} (starts : StartsLine text) (tokens : List Token) :
    (⟨⟨⟨line, 0⟩, text⟩, blocks, true, none, [], tokens⟩ : Lexer).advance?
      = some ⟨⟨⟨line, 0⟩, text⟩, blocks, true, none, [], tokens⟩ := by
  have stay : skipGap false true false ⟨line, 0⟩ text = (true, ⟨⟨line, 0⟩, text⟩) :=
    skipGap_token starts.skips
  rcases margin with rfl | rfl
  · simp [advance?, inFlow, stay, dropStaleKeys?, closeOuterBlocks, closeBlocks]
  · simp [advance?, inFlow, stay, dropStaleKeys?, closeOuterBlocks, closeBlocks]

/-- A colon on the line of a key comes early enough. -/
theorem advance?_colon {line column : Nat} (early : column ≤ 1024) {blocks : List Nat}
    (margin : blocks = [] ∨ blocks = [0]) (rest : List Char) (earlier tokens : List Token) :
    (⟨⟨⟨line, column⟩, ':' :: rest⟩, blocks, false, some (keyAt blocks line earlier), [],
      tokens⟩ : Lexer).advance?
      = some ⟨⟨⟨line, column⟩, ':' :: rest⟩, blocks, false, some (keyAt blocks line earlier), [],
        tokens⟩ := by
  have stay : skipGap false false false ⟨line, column⟩ (':' :: rest)
      = (false, ⟨⟨line, column⟩, ':' :: rest⟩) := rfl
  have fresh : PossibleKey.isStale ⟨line, column⟩ (keyAt blocks line earlier) = false := by
    simpa [PossibleKey.isStale, keyAt] using early
  rcases margin with rfl | rfl
  · simp [advance?, inFlow, stay, dropStaleKeys?, fresh, closeOuterBlocks, closeBlocks]
  · simp [advance?, inFlow, stay, dropStaleKeys?, fresh, closeOuterBlocks, closeBlocks]

theorem IsKey.startsLine {key : List Char} (h : IsKey key) (rest : List Char) :
    StartsLine (key ++ rest) := by
  obtain ⟨c, cs, rfl⟩ := List.exists_cons_of_ne_nil h.nonempty
  obtain ⟨_, notSpace, others⟩ := isAlphanum_spec (List.all_eq_true.mp h.chars c List.mem_cons_self)
  simp only [List.mem_cons, not_or] at others
  rintro d ⟨⟩
  exact ⟨notSpace, others.2.2.2.2.1, others.2.2.2.2.2.1⟩

/-- The first key opens the mapping. -/
theorem ends_key {key rest : List Char} (isKey : IsKey key) (after : atSpace rest = true)
    {blocks : List Nat} (margin : blocks = [] ∨ blocks = [0]) {line : Nat} {tokens ts : List Token}
    (ends : (atScalar ⟨line, key.length + 1⟩ rest false
      (.value :: .scalar .plain key :: (opening blocks ++ tokens))).Ends ts) :
    (⟨⟨⟨line, 0⟩, key ++ ':' :: rest⟩, blocks, true, none, [], tokens⟩ : Lexer).Ends ts := by
  have starts := isKey.startsLine (':' :: rest)
  obtain ⟨c, cs, rfl⟩ := List.exists_cons_of_ne_nil isKey.nonempty
  have colon : (⟨⟨⟨line, (c :: cs).length⟩, ':' :: rest⟩, blocks, false,
      some (keyAt blocks line tokens), [], .scalar .plain (c :: cs) :: tokens⟩ : Lexer).Ends ts :=
    ends.step (advance?_colon isKey.short margin rest tokens _) (List.cons_ne_nil _ _)
      (token?_colon (Nat.succ_pos _) after margin _ tokens) (Nat.lt_succ_self _)
  refine colon.step (advance?_margin margin starts tokens) (List.cons_ne_nil _ _)
    (token?_key (List.all_eq_true.mp isKey.chars) after margin line tokens) ?_
  change (':' :: rest).length < (c :: cs ++ ':' :: rest).length
  simp only [List.length_append, List.length_cons]
  omega

/-! ## Entries and the end -/

/-- An entry with text for its value. -/
theorem ends_text {key : List Char} (isKey : IsKey key) (cs : List Char) {rest : List Char}
    (starts : StartsLine rest) {blocks : List Nat} (margin : blocks = [] ∨ blocks = [0])
    {line : Nat} {tokens ts : List Token}
    (ends : ∀ line, (atLine line rest (.scalar (ScalarStyle.of cs) cs :: .value ::
      .scalar .plain key :: (opening blocks ++ tokens))).Ends ts) :
    (⟨⟨⟨line, 0⟩, key ++ ':' :: ' ' :: (scalarText cs ++ rest)⟩, blocks, true, none, [], tokens⟩
      : Lexer).Ends ts := by
  obtain ⟨c, text, eq, notSpace, notComment⟩ := exists_scalarText cs
  exact ends_key isKey rfl margin (ends_blank_scalar (congrArg (· ++ rest) eq) notSpace notComment
    starts (readsScalar cs starts (Nat.succ_pos _) false _) ends)

/-- An entry with a word for its value, such as a number. -/
theorem ends_word {key word : List Char} (isKey : IsKey key) (nonempty : word ≠ [])
    (chars : ∀ c ∈ word, c.isAlphanum = true) {rest : List Char} (starts : StartsLine rest)
    {blocks : List Nat} (margin : blocks = [] ∨ blocks = [0]) {line : Nat} {tokens ts : List Token}
    (ends : ∀ line, (atLine line rest (.scalar .plain word :: .value :: .scalar .plain key ::
      (opening blocks ++ tokens))).Ends ts) :
    (⟨⟨⟨line, 0⟩, key ++ ':' :: ' ' :: (word ++ '\n' :: rest)⟩, blocks, true, none, [], tokens⟩
      : Lexer).Ends ts := by
  obtain ⟨c, cs, rfl⟩ := List.exists_cons_of_ne_nil nonempty
  obtain ⟨notIndicator, notSpace, others⟩ := isAlphanum_spec (chars c List.mem_cons_self)
  simp only [List.mem_cons, not_or] at others
  have mark : ¬ (c = '?' ∨ c = ':' ∨ c = '-') := by simp [others]
  exact ends_key isKey rfl margin (ends_blank_scalar rfl notSpace others.2.2.2.2.1 starts
    (readsScalar_plain (isPlain_of_isAlphanum chars) notIndicator notSpace
      (fun isMark => absurd isMark mark) starts (Nat.succ_pos _) false _) ends)

/-- A key whose items come on the next lines. -/
theorem ends_sequence {key : List Char} (isKey : IsKey key) {items : List Char}
    (starts : StartsLine items) {blocks : List Nat} (margin : blocks = [] ∨ blocks = [0])
    {line : Nat} {tokens ts : List Token}
    (ends : ∀ line, (atLine line items (.value :: .scalar .plain key ::
      (opening blocks ++ tokens))).Ends ts) :
    (⟨⟨⟨line, 0⟩, key ++ ':' :: '\n' :: items⟩, blocks, true, none, [], tokens⟩ : Lexer).Ends ts :=
  ends_key isKey rfl margin ((ends (line + 1)).of_advance
    (advance?_newline starts false none nofun _) (advance?_settled starts _) (Nat.le_succ _))

/-- The mapping is closed at the end of the stream. -/
theorem ends_atLine (line : Nat) (tokens : List Token) :
    (atLine line [] tokens).Ends (tokens.reverse ++ [.blockEnd]) := by
  intro fuel enough
  obtain ⟨fuel, rfl⟩ := Nat.exists_eq_succ_of_ne_zero (Nat.ne_zero_of_lt enough)
  rw [run?, advance?_settled startsLine_nil]
  simp [atLine, closeAll?, closeBlocks, inFlow, dropKey?, possibleKey, setPossibleKey]

theorem startsLine_items (items : List (List Char)) :
    StartsLine (items.flatMap fun cs => '-' :: ' ' :: scalarText cs) := by
  cases items with
  | nil => exact startsLine_nil
  | cons cs items => exact startsLine_hyphen _

/-- The items of a sequence up to the end of the stream. -/
theorem ends_items (items : List (List Char)) (line : Nat) (tokens : List Token) :
    (atLine line (items.flatMap fun cs => '-' :: ' ' :: scalarText cs) tokens).Ends
      (tokens.reverse ++ (items.flatMap fun cs => [.blockEntry, .scalar (ScalarStyle.of cs) cs])
        ++ [.blockEnd]) := by
  induction items generalizing line tokens with
  | nil =>
    rw [List.flatMap_nil, List.flatMap_nil, List.append_nil]
    exact ends_atLine line tokens
  | cons cs items ih =>
    have item := ends_item cs (startsLine_items items) line tokens fun line => ih line _
    simpa using item

end Seidel.Yaml.Lexer
