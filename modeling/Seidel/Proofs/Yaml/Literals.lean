import Seidel.Proofs.Yaml.Scalars
import Seidel.Yaml.Scalar.Block

/-!
# Literal scalars

Text of several lines falls into what comes before the line breaks at its end and these breaks. The
first part is read line by line as it was written (`readBlock_body`), and the header says what
becomes of the breaks (`literalHeader_eq`, `readBlock_trail`). So a literal scalar is read back
(`readBlockScalar_text`).
-/

namespace Seidel.Yaml

/-! ## Lines and the breaks at the end -/

/-- The text up to the line breaks at its end, and these. -/
structure Trailing (body trail : List Char) : Prop where
  last : ∀ c ∈ body.getLast?, isBreak c = false
  breaks : ∀ c ∈ trail, isBreak c = true

theorem exists_trailing (cs : List Char) :
    ∃ body trail, cs = body ++ trail ∧ Trailing body trail := by
  induction cs with
  | nil => exact ⟨[], [], rfl, nofun, nofun⟩
  | cons c cs ih =>
    obtain ⟨body, trail, rfl, last, breaks⟩ := ih
    cases body with
    | cons d body =>
      refine ⟨c :: d :: body, trail, rfl, ?_, breaks⟩
      rwa [List.getLast?_cons_cons]
    | nil =>
      cases isBreakC : isBreak c with
      | true => exact ⟨[], c :: trail, rfl, nofun, List.forall_mem_cons.mpr ⟨isBreakC, breaks⟩⟩
      | false =>
        refine ⟨[c], trail, rfl, ?_, breaks⟩
        rintro d ⟨⟩
        exact isBreakC

theorem Trailing.tail {c : Char} {body trail : List Char} (h : Trailing (c :: body) trail) :
    Trailing body trail := by
  refine ⟨?_, h.breaks⟩
  cases body with
  | nil => exact nofun
  | cons d body =>
    rw [← List.getLast?_cons_cons]
    exact h.last

theorem literalText_breaks {trail : List Char} (breaks : ∀ c ∈ trail, isBreak c = true)
    (lineStart : Bool) : literalText lineStart trail = trail := by
  induction trail generalizing lineStart with
  | nil => rfl
  | cons c trail ih =>
    obtain ⟨isBreakC, breaks⟩ := List.forall_mem_cons.mp breaks
    rw [literalText, if_pos isBreakC, ih breaks]

theorem literalText_append {trail : List Char} (breaks : ∀ c ∈ trail, isBreak c = true)
    (body : List Char) (lineStart : Bool) :
    literalText lineStart (body ++ trail) = literalText lineStart body ++ trail := by
  induction body generalizing lineStart with
  | nil => exact literalText_breaks breaks lineStart
  | cons c body ih =>
    rw [List.cons_append, literalText, literalText]
    split
    · rw [ih, List.cons_append]
    · rw [ih, List.append_assoc, List.cons_append]

/-! ## The header -/

def Chomping.sign : Chomping → List Char
  | .clip => []
  | .strip => ['-']
  | .keep => ['+']

/-- What the header asks for. -/
def chompingOf (body : List Char) : List Char → Chomping
  | [] => .strip
  | [_] => if body = [] then .keep else .clip
  | _ => .keep

/-- Whether the first line does not show the indentation. -/
def hidesIndentation (cs : List Char) : Bool :=
  cs.head?.any fun c => c == ' ' || isBreak c

/-- The last two characters decide about the breaks. -/
theorem sign_eq {body trail : List Char} (h : Trailing body trail) :
    (match (body ++ trail).reverse with
      | [] => ['-']
      | [c] => if isBreak c then ['+'] else ['-']
      | c :: d :: _ => if !isBreak c then ['-'] else if isBreak d then ['+'] else [])
      = (chompingOf body trail).sign := by
  have last : ∀ c ∈ body.reverse.head?, isBreak c = false := by
    rw [List.head?_reverse]
    exact h.last
  have breaks := h.breaks
  rw [List.reverse_append]
  match trail with
  | [] =>
    rw [List.reverse_nil, List.nil_append]
    match eq : body.reverse with
    | [] => rfl
    | [c] => simp [last c (by rw [eq]; rfl), chompingOf, Chomping.sign]
    | c :: _ :: _ => simp [last c (by rw [eq]; rfl), chompingOf, Chomping.sign]
  | [x] =>
    have isBreakX := breaks x List.mem_cons_self
    rw [List.reverse_singleton, List.singleton_append]
    match eq : body.reverse with
    | [] =>
      have empty : body = [] := List.reverse_eq_nil_iff.mp eq
      simp [isBreakX, empty, chompingOf, Chomping.sign]
    | c :: _ =>
      have nonempty : body ≠ [] := by
        rintro rfl
        cases eq
      simp [isBreakX, last c (by rw [eq]; rfl), nonempty, chompingOf, Chomping.sign]
  | x :: y :: zs =>
    have breaks' : ∀ c ∈ (x :: y :: zs).reverse, isBreak c = true :=
      fun c hc => breaks c (List.mem_reverse.mp hc)
    match eq : (x :: y :: zs).reverse with
    | [] => simp at eq
    | [_] => simpa using congrArg List.length eq
    | c :: d :: _ =>
      rw [eq] at breaks'
      simp [breaks' c (by simp), breaks' d (by simp), chompingOf, Chomping.sign]

theorem literalHeader_eq {body trail : List Char} (h : Trailing body trail) :
    literalHeader (body ++ trail)
      = '|' :: ((if hidesIndentation (body ++ trail) then ['2'] else [])
        ++ (chompingOf body trail).sign) :=
  congrArg (fun sign => '|' :: ((if hidesIndentation (body ++ trail) then ['2'] else []) ++ sign))
    (sign_eq h)

theorem Cursor.skip_append (p : Position) (read rest : List Char) :
    (⟨p, read ++ rest⟩ : Cursor).skip ((read ++ rest).length - rest.length)
      = ⟨p.afterAll read, rest⟩ := by
  rw [List.length_append, Nat.add_sub_cancel]
  induction read generalizing p with
  | nil => rfl
  | cons c read ih => exact ih (p.after c)

theorem readBlockScalar_header (hidden : Bool) (chomping : Chomping) (p : Position)
    (rest : List Char) :
    readBlockScalar false (some 0)
        ⟨p, ((if hidden then ['2'] else []) ++ chomping.sign) ++ '\n' :: rest⟩
      = (if hidden then some 2 else (leadingSpaces? 0 0 rest).map fun n => max (max n 1) 1).bind
        fun indent => readBlock false chomping indent false (some ⟨[], [], false⟩)
          ⟨p.line + 1, 0⟩ rest := by
  have header : BlockHeader.read (((if hidden then ['2'] else []) ++ chomping.sign) ++ '\n' :: rest)
      = some (⟨chomping, if hidden then some 2 else none⟩, '\n' :: rest) := by
    cases hidden <;> cases chomping <;> rfl
  simp only [readBlockScalar, header, Option.bind_eq_bind, Option.bind_some, Cursor.skip_append]
  cases hidden <;> cases chomping <;> rfl

/-! ## The lines -/

variable {chomping : Chomping} {startsBlank : Bool} {g : BlockGap} {line : Nat} {p : Position}
  {c : Char} {rest : List Char}

theorem readBlock_line_break (h : isBreak c = true) :
    readBlock false chomping 2 startsBlank none p (c :: rest)
      = readBlock false chomping 2 startsBlank (some ⟨[c], [], startsBlank⟩) ⟨p.line + 1, 0⟩
        rest := by
  rw [readBlock, if_pos h, after_of_break h]

theorem readBlock_line_char (h : isBreak c = false) :
    readBlock false chomping 2 startsBlank none p (c :: rest)
      = (readBlock false chomping 2 startsBlank none (p.after c) rest).map
        fun (text, after) => (c :: text, after) := by
  rw [readBlock, if_neg (by rw [h]; exact Bool.false_ne_true)]

theorem readBlock_empty_line (h : isBreak c = true) :
    readBlock false chomping 2 startsBlank (some g) ⟨line, 0⟩ (c :: rest)
      = readBlock false chomping 2 startsBlank (some { g with blankLines := g.blankLines ++ [c] })
        ⟨line + 1, 0⟩ rest := by
  have notSpace : c ≠ ' ' := by
    rintro rfl
    cases h
  have notTab : c ≠ '\t' := by
    rintro rfl
    cases h
  simp [readBlock, h, notSpace, notTab, after_of_break h]

theorem readBlock_indented_line (h : isBreak c = false) :
    readBlock false chomping 2 startsBlank (some g) ⟨line, 0⟩ (indentation ++ c :: rest)
      = (readBlock false chomping 2 (isBlank c) none ⟨line, 3⟩ rest).map
        fun (text, after) => (g.ending ++ g.blankLines ++ c :: text, after) := by
  have space : isBreak ' ' = false := rfl
  simp [indentation, readBlock, Position.after, space, h, BlockGap.text]

theorem readBlock_end (starts : ∀ c ∈ rest.head?, isSpace c = false) :
    readBlock false chomping 2 startsBlank (some g) ⟨line, 0⟩ rest
      = some (g.tail chomping, ⟨⟨line, 0⟩, rest⟩) := by
  cases rest with
  | nil => rfl
  | cons c rest =>
    have notSpace := starts c rfl
    have notBreak := isBreak_of_isSpace_eq_false notSpace
    have notBlank : c ≠ ' ' ∧ c ≠ '\t' := by
      simpa [isSpace, isBlank, notBreak] using notSpace
    simp [readBlock, notBreak, notBlank]

variable (chomping)

/-- The lines before the breaks at the end are read as they were written, from inside a line and
from the beginning of one. -/
theorem readBlock_body {body trail : List Char} (h : Trailing body trail) (rest : List Char) :
    (∀ startsBlank p, ∃ startsBlank' p',
      readBlock false chomping 2 startsBlank none p (literalText false body ++ rest)
        = (readBlock false chomping 2 startsBlank' none p' rest).map
          fun (text, after) => (body ++ text, after)) ∧
    (body ≠ [] → ∀ startsBlank g line, ∃ startsBlank' p',
      readBlock false chomping 2 startsBlank (some g) ⟨line, 0⟩ (literalText true body ++ rest)
        = (readBlock false chomping 2 startsBlank' none p' rest).map
          fun (text, after) => (g.ending ++ g.blankLines ++ (body ++ text), after)) := by
  induction body with
  | nil =>
    refine ⟨fun startsBlank p => ⟨startsBlank, p, ?_⟩, fun nonempty => absurd rfl nonempty⟩
    change _ = Option.map id _
    rw [Option.map_id_fun]
    rfl
  | cons c body ih =>
    obtain ⟨inLine, atStart⟩ := ih h.tail
    cases isBreakC : isBreak c with
    | true =>
      have more : body ≠ [] := by
        rintro rfl
        rw [h.last c rfl] at isBreakC
        cases isBreakC
      have atStart := atStart more
      constructor
      · intro startsBlank p
        obtain ⟨startsBlank', p', read⟩ := atStart startsBlank ⟨[c], [], startsBlank⟩ (p.line + 1)
        refine ⟨startsBlank', p', ?_⟩
        rw [literalText, if_pos isBreakC, List.cons_append, readBlock_line_break isBreakC, read]
        rfl
      · intro _ startsBlank g line
        obtain ⟨startsBlank', p', read⟩ :=
          atStart startsBlank { g with blankLines := g.blankLines ++ [c] } (line + 1)
        refine ⟨startsBlank', p', ?_⟩
        rw [literalText, if_pos isBreakC, List.cons_append, readBlock_empty_line isBreakC, read]
        simp
    | false =>
      have inside : ¬ isBreak c = true := by simp [isBreakC]
      constructor
      · intro startsBlank p
        obtain ⟨startsBlank', p', read⟩ := inLine startsBlank (p.after c)
        refine ⟨startsBlank', p', ?_⟩
        rw [literalText, if_neg inside, if_neg Bool.false_ne_true, List.nil_append,
          List.cons_append, readBlock_line_char isBreakC, read, Option.map_map]
        rfl
      · intro _ startsBlank g line
        obtain ⟨startsBlank', p', read⟩ := inLine (isBlank c) ⟨line, 3⟩
        refine ⟨startsBlank', p', ?_⟩
        rw [literalText, if_neg inside, if_pos rfl, List.append_assoc, List.cons_append,
          readBlock_indented_line isBreakC, read, Option.map_map]
        rfl

/-- The line breaks at the end become what the header says. -/
theorem readBlock_trail {trail rest : List Char} (breaks : ∀ c ∈ trail, isBreak c = true)
    (starts : ∀ c ∈ rest.head?, isSpace c = false) (startsBlank : Bool) (g : BlockGap)
    (line : Nat) :
    ∃ line', readBlock false chomping 2 startsBlank (some g) ⟨line, 0⟩ (trail ++ rest)
      = some ({ g with blankLines := g.blankLines ++ trail }.tail chomping,
        ⟨⟨line', 0⟩, rest⟩) := by
  induction trail generalizing g line with
  | nil =>
    refine ⟨line, ?_⟩
    rw [List.append_nil]
    exact readBlock_end starts
  | cons c trail ih =>
    obtain ⟨isBreakC, breaks⟩ := List.forall_mem_cons.mp breaks
    obtain ⟨line', read⟩ := ih breaks { g with blankLines := g.blankLines ++ [c] } (line + 1)
    refine ⟨line', ?_⟩
    rw [List.cons_append, readBlock_empty_line isBreakC, read, List.append_assoc]
    rfl

/-! ## The whole scalar -/

theorem leadingSpaces?_indentation {c : Char} (notSpace : c ≠ ' ') (notTab : c ≠ '\t')
    (notBreak : isBreak c = false) (rest : List Char) :
    leadingSpaces? 0 0 (indentation ++ c :: rest) = some 2 := by
  simp [indentation, leadingSpaces?, notSpace, notTab, notBreak]

/-- From the last line on: its break and those after it. -/
theorem readBlock_line_trail {c : Char} (isBreakC : isBreak c = true) (trail : List Char)
    {rest : List Char} (breaks : ∀ d ∈ trail, isBreak d = true)
    (starts : ∀ d ∈ rest.head?, isSpace d = false) (startsBlank : Bool) (p : Position) :
    ∃ line, readBlock false chomping 2 startsBlank none p (c :: (trail ++ rest))
      = some ((⟨[c], trail, startsBlank⟩ : BlockGap).tail chomping, ⟨⟨line, 0⟩, rest⟩) := by
  obtain ⟨line, read⟩ :=
    readBlock_trail chomping breaks starts startsBlank ⟨[c], [], startsBlank⟩ (p.line + 1)
  exact ⟨line, (readBlock_line_break isBreakC).trans read⟩

/-- What the header asks for keeps the breaks that the text has. -/
theorem readBlock_trailing {body trail rest : List Char} (h : Trailing body trail)
    (nonempty : body ++ trail ≠ []) (starts : ∀ c ∈ rest.head?, isSpace c = false) (line : Nat) :
    ∃ line', readBlock false (chompingOf body trail) 2 false (some ⟨[], [], false⟩) ⟨line, 0⟩
        (literalText true body ++ ((if trail = [] then ['\n'] else trail) ++ rest))
      = some (body ++ trail, ⟨⟨line', 0⟩, rest⟩) := by
  by_cases empty : body = []
  · subst empty
    have some : trail ≠ [] := nonempty
    obtain ⟨line', read⟩ := readBlock_trail (chompingOf [] trail) h.breaks starts false
      ⟨[], [], false⟩ line
    refine ⟨line', ?_⟩
    rw [if_neg some]
    refine read.trans ?_
    match trail with
    | [_] => rfl
    | _ :: _ :: _ => rfl
  · obtain ⟨startsBlank, p, read⟩ := (readBlock_body (chompingOf body trail) h
      ((if trail = [] then ['\n'] else trail) ++ rest)).2 empty false ⟨[], [], false⟩ line
    rw [read]
    match trail, h.breaks with
    | [], _ =>
      obtain ⟨line', end'⟩ := readBlock_line_trail .strip (c := '\n') rfl [] nofun starts
        startsBlank p
      refine ⟨line', ?_⟩
      change Option.map _ (readBlock false .strip 2 startsBlank none p ('\n' :: ([] ++ rest))) = _
      rw [end']
      rfl
    | [x], breaks =>
      obtain ⟨line', end'⟩ := readBlock_line_trail .clip (breaks x List.mem_cons_self) []
        nofun starts startsBlank p
      refine ⟨line', ?_⟩
      have clip : chompingOf body [x] = .clip := if_neg empty
      rw [clip]
      change Option.map _ (readBlock false .clip 2 startsBlank none p (x :: ([] ++ rest))) = _
      rw [end']
      rfl
    | x :: y :: trail, breaks =>
      obtain ⟨isBreakX, breaks⟩ := List.forall_mem_cons.mp breaks
      obtain ⟨line', end'⟩ := readBlock_line_trail .keep isBreakX _ breaks starts startsBlank p
      refine ⟨line', ?_⟩
      change Option.map _ (readBlock false .keep 2 startsBlank none p
        (x :: (y :: trail ++ rest))) = _
      rw [end']
      rfl

/-- The lines of a text, with a break at the end of the last one. -/
theorem literalText_closed {body trail : List Char} (h : Trailing body trail) :
    literalText true (body ++ trail)
        ++ (if (body ++ trail).getLast?.any isBreak then [] else ['\n'])
      = literalText true body ++ (if trail = [] then ['\n'] else trail) := by
  rw [literalText_append h.breaks, List.append_assoc]
  congr 1
  rcases List.eq_nil_or_concat trail with rfl | ⟨before, c, rfl⟩
  · have last : (body ++ []).getLast?.any isBreak = false := by
      rw [List.append_nil, Option.any_eq_false]
      exact h.last
    rw [last]
    rfl
  · have isBreakC : isBreak c = true := h.breaks c (by simp)
    simp [isBreakC]

/-- The indentation is found, or the header says it. -/
theorem indentation_eq {body trail : List Char} (h : Trailing body trail)
    (nonempty : body ++ trail ≠ []) (printable : ∀ c ∈ body ++ trail, isPrintable c = true)
    (rest : List Char) :
    (if hidesIndentation (body ++ trail) then some 2
      else (leadingSpaces? 0 0 (literalText true body ++ rest)).map fun n => max (max n 1) 1)
      = some 2 := by
  cases hidden : hidesIndentation (body ++ trail) with
  | true => rfl
  | false =>
    cases body with
    | nil =>
      obtain ⟨c, trail, rfl⟩ := List.exists_cons_of_ne_nil nonempty
      simp [hidesIndentation, h.breaks c] at hidden
    | cons c body =>
      obtain ⟨notSpace, notBreak⟩ : c ≠ ' ' ∧ isBreak c = false := by
        simpa [hidesIndentation] using hidden
      have notTab : c ≠ '\t' := by
        rintro rfl
        cases printable '\t' List.mem_cons_self
      have inside : ¬ isBreak c = true := Bool.eq_false_iff.mp notBreak
      rw [if_neg Bool.false_ne_true, literalText, if_neg inside, if_pos rfl, List.append_assoc,
        List.cons_append, leadingSpaces?_indentation notSpace notTab notBreak]
      rfl

theorem readBlockScalar_text {cs rest : List Char} (printable : ∀ c ∈ cs, isPrintable c = true)
    (nonempty : cs ≠ []) (starts : ∀ c ∈ rest.head?, isSpace c = false) (p : Position) :
    ∃ header line, literalHeader cs = '|' :: header ∧
      readBlockScalar false (some 0) ⟨p, header ++ '\n' :: (literalText true cs
          ++ (if cs.getLast?.any isBreak then [] else ['\n']) ++ rest)⟩
        = some (cs, ⟨⟨line, 0⟩, rest⟩) := by
  obtain ⟨body, trail, rfl, h⟩ := exists_trailing cs
  obtain ⟨line, read⟩ := readBlock_trailing h nonempty starts (p.line + 1)
  refine ⟨_, line, literalHeader_eq h, ?_⟩
  rw [readBlockScalar_header, literalText_closed h, List.append_assoc,
    indentation_eq h nonempty printable, Option.bind_some, read]

end Seidel.Yaml
