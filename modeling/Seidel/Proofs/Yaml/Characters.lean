import Mathlib.Algebra.Group.Nat.Defs
import Seidel.Yaml.Printer
import Seidel.Yaml.Scalar.Quoted

/-!
# The characters of printed scalars

A printed scalar holds only characters that a stream may hold and that no change of line breaks
touches (`uniform_scalarText`). A character that cannot be written as it is has an escape that
stands for it, whatever follows (`exists_escape`).
-/

namespace Seidel.Yaml

/-! ## Uniform text -/

/-- A stream may hold the character, and it is no line break that would be made uniform. -/
def IsUniform (c : Char) : Prop :=
  isAllowed c = true ∧ c ≠ '\r' ∧ c ≠ '\x85'

instance (c : Char) : Decidable (IsUniform c) :=
  inferInstanceAs (Decidable (_ ∧ _))

def Uniform (cs : List Char) : Prop :=
  ∀ c ∈ cs, IsUniform c

instance (cs : List Char) : Decidable (Uniform cs) :=
  List.decidableBAll _ cs

theorem uniform_append {cs ds : List Char} : Uniform (cs ++ ds) ↔ Uniform cs ∧ Uniform ds :=
  List.forall_mem_append

theorem uniform_cons {c : Char} {cs : List Char} : Uniform (c :: cs) ↔ IsUniform c ∧ Uniform cs :=
  List.forall_mem_cons

theorem uniform_singleton {c : Char} : Uniform [c] ↔ IsUniform c :=
  List.forall_mem_singleton

theorem uniform_flatMap {α : Type} {as : List α} {f : α → List Char}
    (h : ∀ a ∈ as, Uniform (f a)) : Uniform (as.flatMap f) := by
  intro c hc
  obtain ⟨a, ha, hc⟩ := List.mem_flatMap.mp hc
  exact h a ha c hc

theorem isUniform_of_isPrintable {c : Char} (h : isPrintable c = true) : IsUniform c := by
  have range := h
  simp only [isPrintable, Bool.or_eq_true, Bool.and_eq_true, decide_eq_true_eq, beq_iff_eq] at range
  refine ⟨?_, ?_, ?_⟩
  · simp only [isAllowed, Bool.or_eq_true, Bool.and_eq_true, decide_eq_true_eq, beq_iff_eq]
    omega
  · rintro rfl
    cases h
  · rintro rfl
    cases h

theorem toNat_of_isAlphanum {c : Char} (h : c.isAlphanum = true) :
    48 ≤ c.toNat ∧ c.toNat ≤ 122 := by
  delta Char.isAlphanum Char.isAlpha Char.isUpper Char.isLower Char.isDigit at h
  simp only [Bool.or_eq_true, Bool.and_eq_true, decide_eq_true_eq, ge_iff_le,
    UInt32.le_iff_toNat_le] at h
  change ((65 ≤ c.toNat ∧ c.toNat ≤ 90) ∨ (97 ≤ c.toNat ∧ c.toNat ≤ 122)) ∨
    (48 ≤ c.toNat ∧ c.toNat ≤ 57) at h
  omega

theorem isUniform_of_isAlphanum {c : Char} (h : c.isAlphanum = true) : IsUniform c := by
  obtain ⟨lower, upper⟩ := toNat_of_isAlphanum h
  apply isUniform_of_isPrintable
  simp only [isPrintable, Bool.or_eq_true, Bool.and_eq_true, decide_eq_true_eq]
  omega

theorem all_isAllowed {cs : List Char} (h : Uniform cs) : cs.all isAllowed = true :=
  List.all_eq_true.mpr fun c hc => (h c hc).1

theorem unifyBreaks_eq {cs : List Char} (h : Uniform cs) : unifyBreaks cs = cs := by
  induction cs with
  | nil => rfl
  | cons c cs ih =>
    obtain ⟨⟨_, notReturn, notNextLine⟩, later⟩ := uniform_cons.mp h
    rw [unifyBreaks.eq_def]
    split
    · rename_i eq
      cases eq
    · rename_i eq
      exact absurd (List.cons.inj eq).1 notReturn
    · rename_i eq
      exact absurd (List.cons.inj eq).1 notReturn
    · rename_i eq
      exact absurd (List.cons.inj eq).1 notNextLine
    · rename_i eq
      obtain ⟨rfl, rfl⟩ := List.cons.inj eq
      rw [ih later]

/-! ## Hexadecimal digits -/

theorem hexValue_upperHexDigit {d : Nat} (h : d < 16) : hexValue (upperHexDigit d) = d := by
  have all : ∀ d, d < 16 → hexValue (upperHexDigit d) = d := by decide
  exact all d h

theorem upperHexDigit_spec {d : Nat} (h : d < 16) :
    isHexDigit (upperHexDigit d) = true ∧ isBreak (upperHexDigit d) = false
      ∧ IsUniform (upperHexDigit d) := by
  have all : ∀ d, d < 16 → isHexDigit (upperHexDigit d) = true
      ∧ isBreak (upperHexDigit d) = false ∧ IsUniform (upperHexDigit d) := by decide
  exact all d h

theorem length_upperHexDigits (count n : Nat) : (upperHexDigits count n).length = count := by
  induction count generalizing n with
  | zero => rfl
  | succ count ih => rw [upperHexDigits, List.length_append, ih, List.length_singleton]

theorem upperHexDigits_spec (count n : Nat) : ∀ c ∈ upperHexDigits count n,
    isHexDigit c = true ∧ isBreak c = false ∧ IsUniform c := by
  induction count generalizing n with
  | zero => exact nofun
  | succ count ih =>
    intro c hc
    rcases List.mem_append.mp hc with hc | hc
    · exact ih (n / 16) c hc
    · rw [List.mem_singleton.mp hc]
      exact upperHexDigit_spec (Nat.mod_lt n (by decide))

/-- The digits have the value that was written, as far as there are places for it. -/
theorem foldl_upperHexDigits (count n start : Nat) :
    (upperHexDigits count n).foldl (fun n c => n * 16 + hexValue c) start
      = start * 16 ^ count + n % 16 ^ count := by
  induction count generalizing n with
  | zero => simp [upperHexDigits, Nat.mod_one]
  | succ count ih =>
    have digit := hexValue_upperHexDigit (Nat.mod_lt n (by decide : 0 < 16))
    have split : n % 16 ^ (count + 1) = n % 16 + 16 * (n / 16 % 16 ^ count) := by
      rw [Nat.pow_succ', Nat.mod_mul]
    rw [upperHexDigits, List.foldl_append, ih, List.foldl_cons, List.foldl_nil, digit, split,
      Nat.pow_succ, ← Nat.mul_assoc]
    omega

/-! ## Escapes -/

/-- What follows a backslash and stands for the character, on the same line. -/
structure IsEscape (c : Char) (body : List Char) : Prop where
  reads : ∀ rest, escape? (body ++ rest) = some (c, body.length)
  oneLine : ∀ d ∈ body, isBreak d = false
  uniform : Uniform body

theorem isEscape_letter {c e : Char} (simple : simpleEscape? e = some c)
    (oneLine : isBreak e = false) (uniform : IsUniform e) : IsEscape c [e] where
  reads := by
    intro rest
    simp [escape?, simple]
  oneLine := by
    intro d hd
    rwa [List.mem_singleton.mp hd]
  uniform := uniform_singleton.mpr uniform

theorem charOfCode?_toNat (c : Char) : charOfCode? c.toNat = some c := by
  have valid : c.toNat.isValidChar := c.valid
  rw [charOfCode?, if_pos valid, Char.ofNat_toNat]

theorem isEscape_digits {c mark : Char} {width : Nat} (marked : escapeWidth? mark = some width)
    (notSimple : simpleEscape? mark = none) (oneLine : isBreak mark = false)
    (uniform : IsUniform mark) (fits : c.toNat < 16 ^ width) :
    IsEscape c (mark :: upperHexDigits width c.toNat) := by
  have digits := upperHexDigits_spec width c.toNat
  have length := length_upperHexDigits width c.toNat
  have all : (upperHexDigits width c.toNat).all isHexDigit = true :=
    List.all_eq_true.mpr fun d hd => (digits d hd).1
  refine ⟨fun rest => ?_, ?_, ?_⟩
  · have long : ¬ (upperHexDigits width c.toNat ++ rest).length < width := by
      rw [List.length_append, length]
      omega
    have first : (upperHexDigits width c.toNat ++ rest).take width
        = upperHexDigits width c.toNat := List.take_left' length
    have value : hexNumber? (upperHexDigits width c.toNat) = some c.toNat := by
      rw [hexNumber?, if_pos all, foldl_upperHexDigits, Nat.zero_mul, Nat.zero_add,
        Nat.mod_eq_of_lt fits]
    simp only [List.cons_append, escape?, notSimple, marked, long, ↓reduceIte, first, value,
      Option.bind_some, charOfCode?_toNat, bind, List.length_cons, length]
  · exact List.forall_mem_cons.mpr ⟨oneLine, fun d hd => (digits d hd).2.1⟩
  · exact uniform_cons.mpr ⟨uniform, fun d hd => (digits d hd).2.2⟩

/-- One letter is enough for some characters. -/
theorem exists_escape_ite {c e : Char} {n : Nat} {other : List Char}
    (simple : simpleEscape? e = some (Char.ofNat n)) (oneLine : isBreak e = false)
    (uniform : IsUniform e) (later : ∃ body, other = '\\' :: body ∧ IsEscape c body) :
    ∃ body, (if c.toNat = n then ['\\', e] else other) = '\\' :: body ∧ IsEscape c body := by
  by_cases h : c.toNat = n
  · rw [← h, Char.ofNat_toNat] at simple
    exact ⟨[e], if_pos h, isEscape_letter simple oneLine uniform⟩
  · rwa [if_neg h]

/-- Every character has an escape. -/
theorem exists_escape (c : Char) : ∃ body, escapeText c = '\\' :: body ∧ IsEscape c body := by
  unfold escapeText
  extract_lets n
  iterate 14 refine exists_escape_ite rfl rfl (by decide) ?_
  by_cases two : n ≤ 0xFF
  · rw [if_pos two]
    exact ⟨_, rfl, isEscape_digits rfl rfl rfl (by decide) (Nat.lt_succ_of_le two)⟩
  rw [if_neg two]
  by_cases four : n ≤ 0xFFFF
  · rw [if_pos four]
    exact ⟨_, rfl, isEscape_digits rfl rfl rfl (by decide) (Nat.lt_succ_of_le four)⟩
  rw [if_neg four]
  exact ⟨_, rfl, isEscape_digits rfl rfl rfl (by decide) c.val.toNat_lt⟩

/-! ## Printed scalars -/

theorem uniform_escapeText (c : Char) : Uniform (escapeText c) := by
  obtain ⟨body, text, escape⟩ := exists_escape c
  rw [text]
  exact uniform_cons.mpr ⟨by decide, escape.uniform⟩

theorem uniform_of_printable {cs : List Char} (h : cs.all isPrintable = true) : Uniform cs :=
  fun c hc => isUniform_of_isPrintable (List.all_eq_true.mp h c hc)

theorem uniform_singleQuotedText {cs : List Char} (h : Uniform cs) (lineStart : Bool) :
    Uniform (singleQuotedText lineStart cs) := by
  have indented (lineStart : Bool) : Uniform (if lineStart then indentation else []) := by
    cases lineStart <;> decide
  induction cs generalizing lineStart with
  | nil => exact indented lineStart
  | cons c cs ih =>
    obtain ⟨head, later⟩ := uniform_cons.mp h
    rw [singleQuotedText]
    split
    · exact uniform_cons.mpr ⟨head, ih later true⟩
    · have shown : Uniform (if c = '\'' then ['\'', '\''] else [c]) := by
        split
        · decide
        · exact uniform_singleton.mpr head
      exact uniform_append.mpr ⟨uniform_append.mpr ⟨indented lineStart, shown⟩, ih later false⟩

theorem uniform_literalText {cs : List Char} (h : Uniform cs) (lineStart : Bool) :
    Uniform (literalText lineStart cs) := by
  have indented (lineStart : Bool) : Uniform (if lineStart then indentation else []) := by
    cases lineStart <;> decide
  induction cs generalizing lineStart with
  | nil => exact nofun
  | cons c cs ih =>
    obtain ⟨head, later⟩ := uniform_cons.mp h
    rw [literalText]
    split
    · exact uniform_cons.mpr ⟨head, ih later true⟩
    · exact uniform_append.mpr ⟨indented lineStart, uniform_cons.mpr ⟨head, ih later false⟩⟩

theorem uniform_doubleQuotedText (cs : List Char) : Uniform (doubleQuotedText cs) := by
  refine uniform_flatMap fun c _ => ?_
  split
  · rename_i shown
    simp only [Bool.and_eq_true] at shown
    exact uniform_singleton.mpr (isUniform_of_isPrintable shown.1.1.1)
  · exact uniform_escapeText c

theorem uniform_literalHeader (cs : List Char) : Uniform (literalHeader cs) := by
  refine uniform_cons.mpr ⟨by decide, uniform_append.mpr ⟨?_, ?_⟩⟩
  · split <;> decide
  · split
    · decide
    · split <;> decide
    · split
      · decide
      · split <;> decide

/-- How text is written, and what it is known for then. -/
theorem ScalarStyle.of_cases (cs : List Char) :
    (ScalarStyle.of cs = .plain ∧ isReserved cs = false ∧ allowsPlain cs = true) ∨
    (ScalarStyle.of cs = .singleQuoted ∧ '\n' ∉ cs ∧ allowsSingleQuoted cs = true) ∨
    (ScalarStyle.of cs = .literal ∧ '\n' ∈ cs ∧ allowsLiteral cs = true) ∨
    ScalarStyle.of cs = .doubleQuoted := by
  unfold ScalarStyle.of
  by_cases several : '\n' ∈ cs
  · rw [if_pos (List.contains_iff_mem.mpr several)]
    cases literal : allowsLiteral cs <;> simp [several]
  · rw [if_neg (mt List.contains_iff_mem.mp several)]
    cases reserved : isReserved cs <;> cases plain : allowsPlain cs <;>
      cases quoted : allowsSingleQuoted cs <;> simp [several]

theorem uniform_scalarText (cs : List Char) : Uniform (scalarText cs) := by
  unfold scalarText
  rcases ScalarStyle.of_cases cs with ⟨style, _, h⟩ | ⟨style, _, h⟩ | ⟨style, _, h⟩ | style
  · simp only [allowsPlain, Bool.and_eq_true] at h
    rw [style]
    exact uniform_append.mpr ⟨uniform_of_printable h.1.1.1.1, by decide⟩
  · simp only [allowsSingleQuoted, Bool.and_eq_true] at h
    rw [style]
    exact uniform_cons.mpr ⟨by decide, uniform_append.mpr
      ⟨uniform_singleQuotedText (uniform_of_printable h.1.1) false, by decide⟩⟩
  · simp only [allowsLiteral, Bool.and_eq_true] at h
    rw [style]
    refine uniform_append.mpr ⟨uniform_literalHeader cs, uniform_cons.mpr ⟨by decide,
      uniform_append.mpr ⟨uniform_literalText (uniform_of_printable h.1.1) true, ?_⟩⟩⟩
    split <;> decide
  · rw [style]
    exact uniform_cons.mpr ⟨by decide, uniform_append.mpr ⟨uniform_doubleQuotedText cs, by decide⟩⟩

end Seidel.Yaml
