import Seidel.Proofs.Yaml.Characters
import Seidel.Yaml.Scalar.Plain

/-!
# Scalars on one line or between quotes

What the printer writes of a text is read back as the text: plain up to the end of the line or a
colon before a blank (`readPlain_text`), and between quotes up to the closing quote
(`readSingleQuoted_text`, `readDoubleQuoted_text`). Each induction is on the text, with the white
space before it in general.
-/

namespace Seidel.Yaml

/-! ## Places and neighbours -/

theorem after_of_not_break {c : Char} (h : isBreak c = false) (p : Position) :
    p.after c = ⟨p.line, p.column + 1⟩ := by
  simp [Position.after, h]

theorem after_of_break {c : Char} (h : isBreak c = true) (p : Position) :
    p.after c = ⟨p.line + 1, 0⟩ := by
  simp [Position.after, h]

theorem line_le_after (p : Position) (c : Char) : p.line ≤ (p.after c).line := by
  unfold Position.after
  split
  · exact Nat.le_succ _
  · exact Nat.le_refl _

theorem column_pos_after {c : Char} (h : isBreak c = false) (p : Position) :
    0 < (p.after c).column := by
  rw [after_of_not_break h]
  exact Nat.succ_pos _

theorem isBreak_of_isSpace_eq_false {c : Char} (h : isSpace c = false) : isBreak c = false :=
  (Bool.or_eq_false_iff.mp h).2

theorem isSpace_of_isBreak {c : Char} (h : isBreak c = true) : isSpace c = true := by
  rw [isSpace, h, Bool.or_true]

/-- The only printable blank. -/
theorem eq_space_of_isSpace {c : Char} (space : isSpace c = true) (notBreak : isBreak c = false)
    (printable : isPrintable c = true) : c = ' ' := by
  simp only [isSpace, notBreak, isBlank, Bool.or_false, Bool.or_eq_true, beq_iff_eq] at space
  rcases space with rfl | rfl
  · rfl
  · cases printable

theorem not_interrupted {p : Position} (h : 0 < p.column) (cs : List Char) :
    interrupted p cs = false := by
  rw [interrupted, beq_eq_false_iff_ne.mpr (Nat.ne_of_gt h), Bool.false_and]

theorem hasNeighbours_cons (first second : Char → Bool) (c : Char) (cs : List Char) :
    hasNeighbours first second (c :: cs) = false ↔
      (first c = true → cs.head?.any second = false) ∧ hasNeighbours first second cs = false := by
  cases cs with
  | nil => simp [hasNeighbours]
  | cons d cs => cases h : first c <;> simp [hasNeighbours, h]

theorem hasNeighbours_eq_false {first second : Char → Bool} {cs : List Char}
    (h : ∀ c ∈ cs, first c = false) : hasNeighbours first second cs = false := by
  induction cs with
  | nil => rfl
  | cons c cs ih =>
    obtain ⟨head, later⟩ := List.forall_mem_cons.mp h
    refine (hasNeighbours_cons _ _ c cs).mpr ⟨fun isFirst => ?_, ih later⟩
    rw [head] at isFirst
    cases isFirst

/-! ## Plain text -/

/-- Nothing in the text ends it as a plain scalar, and neither does what follows it. -/
structure IsPlain (cs : List Char) : Prop where
  spaces : ∀ c ∈ cs, isSpace c = true → c = ' '
  colons : hasNeighbours (· == ':') isSpace cs = false
  comments : hasNeighbours isSpace (· == '#') cs = false
  last : ∀ c ∈ cs.getLast?, c ≠ ':' ∧ c ≠ ' '

theorem IsPlain.tail {c : Char} {cs : List Char} (h : IsPlain (c :: cs)) : IsPlain cs where
  spaces := (List.forall_mem_cons.mp h.spaces).2
  colons := ((hasNeighbours_cons _ _ c cs).mp h.colons).2
  comments := ((hasNeighbours_cons _ _ c cs).mp h.comments).2
  last := by
    cases cs with
    | nil => exact nofun
    | cons d cs =>
      rw [← List.getLast?_cons_cons]
      exact h.last

theorem IsPlain.not_stopsPlain {c : Char} {cs : List Char} (h : IsPlain (c :: cs))
    (rest : List Char) : stopsPlain false (c :: (cs ++ rest)) = false := by
  rw [stopsPlain, Bool.false_and, Bool.or_false, Bool.and_eq_false_imp]
  intro colon
  cases cs with
  | nil => exact absurd (beq_iff_eq.mp colon) (h.last c rfl).1
  | cons d cs => exact ((hasNeighbours_cons _ _ c (d :: cs)).mp h.colons).1 colon

theorem not_endsPlain {cs : List Char} {p : Position} {least : Nat} (shallow : least ≤ 1)
    (inside : 0 < p.column) (notComment : cs.head? ≠ some '#') :
    endsPlain false least p cs = false := by
  have deep : ¬ p.column < least := by omega
  have column : p.column ≠ 0 := Nat.ne_of_gt inside
  simp [endsPlain, deep, column, notComment]

/-- The first character of plain text, what the printer asks of it. -/
theorem atSpace_of_startsLikeIndicator {c : Char} {cs : List Char}
    (h : startsLikeIndicator (c :: cs) = false) (mark : c = '?' ∨ c = ':' ∨ c = '-') :
    atSpace cs = false := by
  simp only [startsLikeIndicator, Bool.or_eq_false_iff] at h
  have marked : (c == '?' || c == ':' || c == '-') = true := by
    rcases mark with rfl | rfl | rfl <;> rfl
  simpa [marked] using h.1.1.2

theorem isPlain_of_allowsPlain {cs : List Char} (h : allowsPlain cs = true) : IsPlain cs := by
  simp only [allowsPlain, hasIndicator, Bool.and_eq_true, Bool.not_eq_true', Bool.or_eq_false_iff,
    bne_iff_ne, beq_eq_false_iff_ne] at h
  obtain ⟨⟨⟨⟨printable, notBreak⟩, ⟨⟨start, lastColon⟩, colons⟩, comments⟩, _⟩, lastSpace⟩ := h
  have spaces : ∀ c ∈ cs, isSpace c = true → c = ' ' := by
    intro c hc space
    refine eq_space_of_isSpace space ?_ (List.all_eq_true.mp printable c hc)
    exact Bool.eq_false_iff.mpr (List.any_eq_false.mp notBreak c hc)
  cases cs with
  | nil => exact ⟨spaces, rfl, rfl, fun _ last => absurd last (Option.not_mem_none _)⟩
  | cons c cs =>
    have notSpaceNext : c = ':' → atSpace cs = false := fun colon =>
      atSpace_of_startsLikeIndicator start (.inr (.inl colon))
    refine ⟨spaces, (hasNeighbours_cons _ _ c cs).mpr ⟨fun colon => ?_, colons⟩, comments, ?_⟩
    · have notSpace := notSpaceNext (beq_iff_eq.mp colon)
      cases cs with
      | nil => rfl
      | cons d cs => exact notSpace
    · intro d last
      refine ⟨?_, fun eq => lastSpace (eq ▸ last)⟩
      rintro rfl
      cases cs with
      | nil =>
        have colon : c = ':' := Option.some.inj last
        cases notSpaceNext colon
      | cons e cs => exact lastColon last

/-- Plain text is read as far as it goes, after blanks on its line. -/
theorem readPlain_text {cs : List Char} (plain : IsPlain cs) {least : Nat} (shallow : least ≤ 1)
    (chars : List Char) (p : Position) (nonempty : cs = [] → chars = [])
    (before : chars ≠ [] → cs.head? ≠ some '#' ∧ 0 < p.column) (rest : List Char) :
    readPlain false least (.blanks chars) p (cs ++ rest)
      = (readPlain false least .empty ⟨p.line, p.column + cs.length⟩ rest).map
        fun scalar => { scalar with text := chars ++ cs ++ scalar.text } := by
  induction cs generalizing chars p with
  | nil =>
    obtain rfl := nonempty rfl
    change _ = (readPlain false least .empty p rest).map id
    rw [Option.map_id_fun]
    rfl
  | cons c cs ih =>
    have column : p.column + 1 + cs.length = p.column + (c :: cs).length := by
      rw [List.length_cons, Nat.add_right_comm, Nat.add_assoc]
    rw [List.cons_append, readPlain]
    by_cases space : isSpace c = true
    · obtain rfl := plain.spaces c List.mem_cons_self space
      have more : cs ≠ [] := by
        rintro rfl
        exact (plain.last ' ' rfl).2 rfl
      have notComment : cs.head? ≠ some '#' := by
        intro eq
        have := ((hasNeighbours_cons _ _ ' ' cs).mp plain.comments).1 rfl
        simp [eq] at this
      have read := ih plain.tail (chars ++ [' ']) ⟨p.line, p.column + 1⟩
        (fun eq => absurd eq more) (fun _ => ⟨notComment, Nat.succ_pos _⟩)
      rw [column] at read
      rw [if_pos space, if_neg (by simp)]
      refine read.trans ?_
      simp
    · have notSpace : isSpace c = false := Bool.eq_false_iff.mpr space
      have goesOn : (!(Gap.blanks chars).isEmpty && endsPlain false least p (c :: (cs ++ rest)))
          = false := by
        cases chars with
        | nil => rfl
        | cons d chars =>
          obtain ⟨notComment, inside⟩ := before nofun
          exact not_endsPlain shallow inside notComment
      have read := ih plain.tail [] ⟨p.line, p.column + 1⟩ (fun _ => rfl)
        (fun nonempty => absurd rfl nonempty)
      rw [column] at read
      simp only [space, goesOn, plain.not_stopsPlain rest, Bool.false_and, Bool.false_eq_true,
        ↓reduceIte, after_of_not_break (isBreak_of_isSpace_eq_false notSpace), Gap.empty, read,
        Option.map_map]
      congr 1
      funext scalar
      simp [Gap.text]

/-- A colon before white space ends a plain scalar. -/
theorem readPlain_colon {least : Nat} {p : Position} {rest : List Char} (h : atSpace rest = true) :
    readPlain false least .empty p (':' :: rest) = some ⟨[], false, ⟨p, ':' :: rest⟩⟩ := by
  have notSpace : isSpace ':' = false := rfl
  simp [readPlain, notSpace, Gap.isEmpty, Gap.empty, stopsPlain, h, Gap.hasBreak]

/-- A line that is not indented ends a plain scalar inside a collection. -/
theorem readPlain_newline {p : Position} {rest : List Char}
    (starts : ∀ c ∈ rest.head?, isSpace c = false) :
    readPlain false 1 .empty p ('\n' :: rest) = some ⟨[], true, ⟨⟨p.line + 1, 0⟩, rest⟩⟩ := by
  have space : isSpace '\n' = true := rfl
  rw [readPlain, if_pos space, if_neg (by simp)]
  cases rest with
  | nil => rfl
  | cons c rest =>
    have notSpace := starts c rfl
    have ends : endsPlain false 1 (p.after '\n') (c :: rest) = true := by
      simp [endsPlain, after_of_break (c := '\n') rfl]
    rw [readPlain, if_neg (by rw [notSpace]; exact Bool.false_ne_true), if_pos (by rw [ends]; rfl)]
    rfl

/-! ## Single quotes -/

section SingleQuoted

variable {g : Gap} {p : Position} {c : Char} {rest : List Char}

theorem readSingleQuoted_space (h : isSpace c = true) :
    readSingleQuoted g p (c :: rest) = readSingleQuoted (g.add c) (p.after c) rest := by
  rw [readSingleQuoted.eq_def]
  split
  · rename_i eq
    cases eq
  · rename_i eq
    rw [(List.cons.inj eq).1] at h
    cases h
  · rename_i eq
    obtain ⟨rfl, rfl⟩ := List.cons.inj eq
    rw [if_pos h]

theorem readSingleQuoted_char (h : isSpace c = false) (notQuote : c ≠ '\'')
    (inside : 0 < p.column) :
    readSingleQuoted g p (c :: rest) = (readSingleQuoted .empty (p.after c) rest).map
      fun (text, after) => (g.text ++ c :: text, after) := by
  rw [readSingleQuoted.eq_def]
  split
  · rename_i eq
    cases eq
  · rename_i eq
    exact absurd (List.cons.inj eq).1 notQuote
  · rename_i eq
    obtain ⟨rfl, rfl⟩ := List.cons.inj eq
    simp [h, not_interrupted inside, notQuote]

/-- What is no white space is read as it is, and a quote that is written twice as one. -/
theorem readSingleQuoted_shown (notSpace : isSpace c = false) (inside : 0 < p.column) :
    ∃ q, p.line ≤ q.line ∧ 0 < q.column ∧ ∀ rest,
      readSingleQuoted g p ((if c = '\'' then ['\'', '\''] else [c]) ++ rest)
        = (readSingleQuoted .empty q rest).map
          fun (text, after) => (g.text ++ c :: text, after) := by
  by_cases quote : c = '\''
  · subst quote
    refine ⟨(p.after '\'').after '\'', Nat.le_trans (line_le_after p _) (line_le_after _ _),
      column_pos_after rfl _, fun rest => ?_⟩
    simp only [↓reduceIte, List.cons_append, List.nil_append, readSingleQuoted]
  · refine ⟨p.after c, line_le_after p c,
      column_pos_after (isBreak_of_isSpace_eq_false notSpace) p, fun rest => ?_⟩
    rw [if_neg quote, List.singleton_append, readSingleQuoted_char notSpace quote inside]

theorem readSingleQuoted_close (single : rest.head? ≠ some '\'') (inside : 0 < p.column) :
    readSingleQuoted g p ('\'' :: rest) = some (g.text, ⟨p.after '\'', rest⟩) := by
  have notSpace : isSpace '\'' = false := rfl
  rw [readSingleQuoted.eq_def]
  split
  · rename_i eq
    cases eq
  · rename_i eq
    rw [(List.cons.inj eq).2] at single
    exact absurd rfl single
  · rename_i eq
    obtain ⟨rfl, rfl⟩ := List.cons.inj eq
    simp [notSpace, not_interrupted inside]

end SingleQuoted

/-- The white space can stand before the text without either being changed by the other. -/
def Gap.Precedes (p : Position) (cs : List Char) : Gap → Prop
  | .blanks chars => (chars ≠ [] → cs.head?.any isBreak = false) ∧ 0 < p.column
  | .breaks first _ => first ≠ ['\n'] ∧ cs.head? ≠ some ' ' ∧ p.column = 0

theorem precedes_empty {p : Position} (h : 0 < p.column) (cs : List Char) :
    Gap.empty.Precedes p cs :=
  ⟨fun nonempty => absurd rfl nonempty, h⟩

/-- Indentation after a line break is dropped. -/
theorem exists_unindented {g : Gap} {p : Position} {cs : List Char} (before : g.Precedes p cs) :
    ∃ q, p.line ≤ q.line ∧ 0 < q.column ∧ ∀ rest,
      readSingleQuoted g p ((if g.hasBreak then indentation else []) ++ rest)
        = readSingleQuoted g q rest := by
  cases g with
  | blanks chars => exact ⟨p, Nat.le_refl _, before.2, fun _ => rfl⟩
  | breaks first further =>
    refine ⟨⟨p.line, p.column + 2⟩, Nat.le_refl _, Nat.succ_pos _, fun rest => ?_⟩
    change readSingleQuoted (.breaks first further) p (' ' :: ' ' :: rest) = _
    rw [readSingleQuoted_space rfl, readSingleQuoted_space rfl]
    rfl

/-- A line break other than a line feed stands for itself. -/
theorem Gap.Precedes.add_break {g : Gap} {p : Position} {c : Char} {cs : List Char}
    (before : g.Precedes p (c :: cs)) (isBreakC : isBreak c = true) (notFeed : c ≠ '\n')
    (notSpaceNext : cs.head? ≠ some ' ') :
    (g.add c).Precedes (p.after c) cs ∧ (g.add c).hasBreak = true
      ∧ (g.add c).text = g.text ++ [c] := by
  have lineStart : (p.after c).column = 0 := by rw [after_of_break isBreakC]
  cases g with
  | blanks chars =>
    obtain rfl : chars = [] := by
      cases chars with
      | nil => rfl
      | cons d chars => simpa [isBreakC] using before.1 nofun
    have single : [c] ≠ ['\n'] := fun eq => notFeed (List.cons.inj eq).1
    simp [Gap.add, isBreakC, Precedes, single, notSpaceNext, lineStart, hasBreak, text]
  | breaks first further =>
    simp [Gap.add, isBreakC, Precedes, before.1, notSpaceNext, lineStart, hasBreak, text]

theorem readSingleQuoted_text {cs : List Char} (printable : ∀ c ∈ cs, isPrintable c = true)
    (spaceBreak : hasSpaceBeforeBreak cs = false) (breakSpace : hasBreakBeforeSpace cs = false)
    (oneFeed : '\n' ∉ cs) (rest : List Char) (single : rest.head? ≠ some '\'') (g : Gap)
    (p : Position) (before : g.Precedes p cs) :
    ∃ p', p.line ≤ p'.line ∧
      readSingleQuoted g p (singleQuotedText g.hasBreak cs ++ '\'' :: rest)
        = some (g.text ++ cs, ⟨p', rest⟩) := by
  induction cs generalizing g p with
  | nil =>
    obtain ⟨q, line, inside, unindented⟩ := exists_unindented before
    refine ⟨q.after '\'', Nat.le_trans line (line_le_after q _), ?_⟩
    rw [List.append_nil, singleQuotedText, unindented, readSingleQuoted_close single inside]
  | cons c cs ih =>
    obtain ⟨shown, printable⟩ := List.forall_mem_cons.mp printable
    obtain ⟨notBreakNext, spaceBreak⟩ := (hasNeighbours_cons _ _ c cs).mp spaceBreak
    obtain ⟨notSpaceNext, breakSpace⟩ := (hasNeighbours_cons _ _ c cs).mp breakSpace
    obtain ⟨notFeed, oneFeed⟩ := not_or.mp (mt List.mem_cons.mpr oneFeed)
    have ih := ih printable spaceBreak breakSpace oneFeed
    rw [singleQuotedText]
    by_cases isBreakC : isBreak c = true
    · have notSpace : cs.head? ≠ some ' ' := by
        intro eq
        simpa [eq] using notSpaceNext isBreakC
      obtain ⟨before', hasBreak, text⟩ := before.add_break isBreakC (Ne.symm notFeed) notSpace
      obtain ⟨p', line, read⟩ := ih (g.add c) (p.after c) before'
      rw [hasBreak, text] at read
      refine ⟨p', Nat.le_trans (line_le_after p c) line, ?_⟩
      rw [if_pos isBreakC, List.cons_append, readSingleQuoted_space (isSpace_of_isBreak isBreakC),
        read, List.append_assoc]
      rfl
    · have isBreakC : isBreak c = false := Bool.eq_false_iff.mpr isBreakC
      rw [isBreakC, if_neg Bool.false_ne_true, List.append_assoc, List.append_assoc]
      by_cases space : isSpace c = true
      · obtain rfl := eq_space_of_isSpace space isBreakC shown
        cases g with
        | breaks first further => exact absurd rfl before.2.1
        | blanks chars =>
          have before' : (Gap.blanks (chars ++ [' '])).Precedes (p.after ' ') cs :=
            ⟨fun _ => notBreakNext rfl, column_pos_after rfl p⟩
          obtain ⟨p', line, read⟩ := ih _ _ before'
          refine ⟨p', line, ?_⟩
          change readSingleQuoted _ p (' ' :: (singleQuotedText false cs ++ '\'' :: rest)) = _
          rw [readSingleQuoted_space rfl]
          refine read.trans ?_
          simp [Gap.text]
      · have notSpace : isSpace c = false := Bool.eq_false_iff.mpr space
        obtain ⟨q, line, inside, unindented⟩ := exists_unindented before
        obtain ⟨q', line', inside', shown⟩ := readSingleQuoted_shown (g := g) notSpace inside
        obtain ⟨p', line'', read⟩ := ih .empty q' (precedes_empty inside' cs)
        refine ⟨p', Nat.le_trans line (Nat.le_trans line' line''), ?_⟩
        rw [unindented, shown]
        exact congrArg (Option.map _) read

/-! ## Double quotes -/

section DoubleQuoted

variable {g : Gap} {p : Position} {c : Char} {rest : List Char}

/-- What belongs to an escape is passed over. -/
theorem readDoubleQuoted_skipped {body : List Char} (oneLine : ∀ d ∈ body, isBreak d = false)
    (inside : 0 < p.column) : ∃ q, p.line ≤ q.line ∧ 0 < q.column ∧ ∀ rest,
      readDoubleQuoted g body.length p (body ++ rest) = readDoubleQuoted g 0 q rest := by
  induction body generalizing p with
  | nil => exact ⟨p, Nat.le_refl _, inside, fun _ => rfl⟩
  | cons d body ih =>
    obtain ⟨notBreak, oneLine⟩ := List.forall_mem_cons.mp oneLine
    obtain ⟨q, line, inside, read⟩ := ih oneLine (column_pos_after notBreak p)
    exact ⟨q, Nat.le_trans (line_le_after p d) line, inside, read⟩

theorem IsEscape.head_oneLine {body : List Char} (h : IsEscape c body) (rest : List Char) :
    (body ++ rest).head?.any isBreak = false := by
  cases body with
  | nil => cases h.reads []
  | cons d body => exact h.oneLine d List.mem_cons_self

theorem readDoubleQuoted_escape {body : List Char} (escape : IsEscape c body)
    (inside : 0 < p.column) : ∃ q, p.line ≤ q.line ∧ 0 < q.column ∧ ∀ rest,
      readDoubleQuoted g 0 p ('\\' :: (body ++ rest)) = (readDoubleQuoted .empty 0 q rest).map
        fun (text, after) => (g.text ++ c :: text, after) := by
  obtain ⟨q, line, inside', skipped⟩ :=
    readDoubleQuoted_skipped (g := .empty) escape.oneLine (column_pos_after (c := '\\') rfl p)
  refine ⟨q, Nat.le_trans (line_le_after p _) line, inside', fun rest => ?_⟩
  have sameLine := escape.head_oneLine rest
  have notSpace : isSpace '\\' = false := rfl
  simp only [readDoubleQuoted, notSpace, not_interrupted inside, sameLine, escape.reads, skipped,
    Bool.false_eq_true, ne_eq, not_true_eq_false, Char.reduceEq, ↓reduceIte]

end DoubleQuoted

/-- The characters that stand for themselves between double quotes. -/
theorem readDoubleQuoted_shown {c : Char} {chars rest : List Char} {p : Position}
    (notBreak : isBreak c = false) (notQuote : c ≠ '"') (notBackslash : c ≠ '\\')
    (inside : 0 < p.column) :
    readDoubleQuoted (.blanks chars) 0 p (c :: rest)
      = if isSpace c then readDoubleQuoted (.blanks (chars ++ [c])) 0 (p.after c) rest
        else (readDoubleQuoted .empty 0 (p.after c) rest).map
          fun (text, after) => (chars ++ c :: text, after) := by
  simp [readDoubleQuoted, not_interrupted inside, notQuote, notBackslash, Gap.add, notBreak,
    Gap.text]

theorem readDoubleQuoted_text (cs rest : List Char) (chars : List Char) (p : Position)
    (inside : 0 < p.column) :
    ∃ p', p.line ≤ p'.line ∧
      readDoubleQuoted (.blanks chars) 0 p (doubleQuotedText cs ++ '"' :: rest)
        = some (chars ++ cs, ⟨p', rest⟩) := by
  induction cs generalizing chars p with
  | nil =>
    refine ⟨p.after '"', line_le_after p _, ?_⟩
    have notSpace : isSpace '"' = false := rfl
    simp [doubleQuotedText, readDoubleQuoted, notSpace, not_interrupted inside, Gap.text]
  | cons c cs ih =>
    rw [doubleQuotedText, List.flatMap_cons, ← doubleQuotedText, List.append_assoc]
    split
    · rename_i h
      simp only [Bool.and_eq_true, Bool.not_eq_true', bne_iff_ne] at h
      obtain ⟨⟨⟨_, notBreak⟩, notQuote⟩, notBackslash⟩ := h
      have inside' := column_pos_after notBreak p
      have later := line_le_after p c
      rw [List.singleton_append, readDoubleQuoted_shown notBreak notQuote notBackslash inside]
      split
      · obtain ⟨p', line, read⟩ := ih (chars ++ [c]) (p.after c) inside'
        exact ⟨p', Nat.le_trans later line, by rw [read, List.append_assoc]; rfl⟩
      · obtain ⟨p', line, read⟩ := ih [] (p.after c) inside'
        refine ⟨p', Nat.le_trans later line, ?_⟩
        rw [Gap.empty, read]
        rfl
    · obtain ⟨body, text, escape⟩ := exists_escape c
      obtain ⟨q, line, inside', skipped⟩ :=
        readDoubleQuoted_escape (g := .blanks chars) escape inside
      obtain ⟨p', line', read⟩ := ih [] q inside'
      refine ⟨p', Nat.le_trans line line', ?_⟩
      rw [text, List.cons_append, skipped, Gap.empty, read]
      rfl

end Seidel.Yaml
