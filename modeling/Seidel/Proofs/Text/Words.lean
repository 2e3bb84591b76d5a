import Mathlib.Data.List.DropRight
import Seidel.Text.Blank
import Seidel.Text.Letter

/-!
# Runs between blanks

A text that is put together from runs of characters that are not blank falls apart into the same
runs. Letters are not blank, and no part of a numeral.
-/

namespace Seidel.Text

/-- A word that can be found again between blanks. -/
def IsWord (cs : List Char) : Prop :=
  cs ≠ [] ∧ ∀ c ∈ cs, isBlank c = false

theorem isWord_singleton {c : Char} (h : isBlank c = false) : IsWord [c] := by
  refine ⟨List.cons_ne_nil _ _, ?_⟩
  intro d hd
  rwa [List.mem_singleton.mp hd]

theorem words_append {b : Char} (blank : isBlank b = true) (cs ds : List Char) :
    words (cs ++ b :: ds) = words cs ++ words ds := by
  rw [words, List.splitOnP_append_cons cs ds blank, List.filter_append, words, words]

theorem words_of_isWord {run : List Char} (h : IsWord run) : words run = [run] := by
  simp [words, List.splitOnP_eq_singleton h.2, h.1]

theorem words_append_blank {run : List Char} (h : IsWord run) {b : Char}
    (blank : isBlank b = true) (cs : List Char) : words (run ++ b :: cs) = run :: words cs := by
  rw [words_append blank, words_of_isWord h, List.singleton_append]

/-! ## Blank text -/

theorem trim_eq_nil_iff {cs : List Char} : trim cs = [] ↔ ∀ c ∈ cs, isBlank c = true := by
  rw [trim, List.reverse_eq_nil_iff, List.dropWhile_eq_nil_iff]
  simp only [List.mem_reverse]
  constructor
  · intro rest c mem
    rw [← List.takeWhile_append_dropWhile (p := isBlank) (l := cs)] at mem
    rcases List.mem_append.mp mem with first | later
    · exact List.mem_takeWhile_imp first
    · exact rest c later
  · intro blank c mem
    exact blank c ((List.dropWhile_suffix _).subset mem)

theorem mem_of_mem_trim {cs : List Char} {c : Char} (mem : c ∈ trim cs) : c ∈ cs :=
  (List.dropWhile_suffix _).subset ((List.rdropWhile_prefix isBlank _).subset mem)

/-- What has been trimmed neither begins nor ends with a blank. -/
theorem trim_trim (cs : List Char) : trim (trim cs) = trim cs := by
  have first : (trim cs).dropWhile isBlank = trim cs := by
    apply List.dropWhile_eq_self_iff.mpr
    intro pos
    have kept : trim cs <+: cs.dropWhile isBlank := List.rdropWhile_prefix isBlank _
    rw [kept.getElem pos]
    exact List.dropWhile_get_zero_not isBlank cs (Nat.lt_of_lt_of_le pos kept.length_le)
  change ((trim cs).dropWhile isBlank).rdropWhile isBlank = trim cs
  rw [first]
  exact List.rdropWhile_idempotent isBlank _

theorem trim_append_blank {b : Char} (blank : isBlank b = true) (cs : List Char) :
    trim (cs ++ [b]) = trim cs := by
  change ((cs ++ [b]).dropWhile isBlank).rdropWhile isBlank
    = (cs.dropWhile isBlank).rdropWhile isBlank
  rw [List.dropWhile_append]
  cases rest : cs.dropWhile isBlank with
  | nil => simp [blank]
  | cons c ds => exact List.rdropWhile_concat_pos isBlank _ b blank

theorem words_of_blank {cs : List Char} (h : ∀ c ∈ cs, isBlank c = true) : words cs = [] := by
  induction cs with
  | nil => rfl
  | cons c cs ih =>
    rw [← List.nil_append (c :: cs), words_append (h c List.mem_cons_self),
      ih fun d hd => h d (List.mem_cons_of_mem _ hd)]
    rfl

theorem words_eq_nil_iff {cs : List Char} : words cs = [] ↔ ∀ c ∈ cs, isBlank c = true := by
  refine ⟨fun none => ?_, words_of_blank⟩
  induction cs with
  | nil => exact fun c mem => absurd mem List.not_mem_nil
  | cons c cs ih =>
    cases blank : isBlank c with
    | true =>
      rw [← List.nil_append (c :: cs), words_append blank] at none
      exact List.forall_mem_cons.mpr ⟨blank, ih (List.append_eq_nil_iff.mp none).2⟩
    | false =>
      -- The first piece begins with `c` and is not dropped.
      exfalso
      rw [words, List.splitOnP_cons_eq_if_modifyHead, blank] at none
      cases pieces : cs.splitOnP isBlank with
      | nil => exact List.splitOnP_ne_nil isBlank cs pieces
      | cons piece rest => simp [pieces] at none

/-- No word is empty. -/
theorem ne_nil_of_mem_words {cs word : List Char} (mem : word ∈ words cs) : word ≠ [] := by
  rintro rfl
  exact absurd (List.mem_filter.mp mem).2 (by decide)

/-! ## Letters -/

/-- The first and last code points of the blank characters. -/
def blankRanges : List (Nat × Nat) :=
  [(9, 13), (0x20, 0x20), (0x85, 0x85), (0xA0, 0xA0), (0x1680, 0x1680), (0x2000, 0x200A),
   (0x2028, 0x2029), (0x202F, 0x202F), (0x205F, 0x205F), (0x3000, 0x3000)]

theorem exists_blankRange {c : Char} (h : isBlank c = true) :
    ∃ r ∈ blankRanges, r.1 ≤ c.toNat ∧ c.toNat ≤ r.2 := by
  simp only [isBlank, Bool.or_eq_true, Bool.and_eq_true, decide_eq_true_eq, beq_iff_eq] at h
  simp only [blankRanges, List.mem_cons, List.not_mem_nil, or_false, exists_eq_or_imp,
    exists_eq_left]
  omega

theorem exists_letterRange {c : Char} (h : isLetter c = true) :
    ∃ r ∈ letterRanges, r.1 ≤ c.toNat ∧ c.toNat ≤ r.2 := by
  obtain ⟨r, mem, inside⟩ := List.any_eq_true.mp h
  exact ⟨r, mem, by simpa using inside⟩

theorem not_blank_of_isLetter {c : Char} (h : isLetter c = true) : isBlank c = false := by
  have apart : ∀ r ∈ letterRanges, ∀ b ∈ blankRanges, r.2 < b.1 ∨ b.2 < r.1 := by
    decide +kernel
  cases blank : isBlank c
  · rfl
  · obtain ⟨r, hr, inside⟩ := exists_letterRange h
    obtain ⟨b, hb, inside'⟩ := exists_blankRange blank
    have := apart r hr b hb
    omega

theorem ge_of_isLetter {c : Char} (h : isLetter c = true) : 0x41 ≤ c.toNat := by
  have least : ∀ r ∈ letterRanges, 0x41 ≤ r.1 := by
    decide +kernel
  obtain ⟨r, hr, inside⟩ := exists_letterRange h
  exact Nat.le_trans (least r hr) inside.1

end Seidel.Text
