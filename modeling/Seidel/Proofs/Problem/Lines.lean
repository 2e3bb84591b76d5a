import Mathlib.Data.List.Forall2
import Mathlib.Data.List.TakeWhile
import Seidel.Problem.Lines
import Seidel.Proofs.Text.Bytes
import Seidel.Proofs.Text.Words

/-!
# Lines before a blank one

Whether equations can be taken from an input is decided by the lines before the first blank one;
each of them must be text (`equations?_isSome_iff`). The equations are what these lines say, and
lines that say something can be written so that they are read back, with anything behind a blank
line (`equations?_reads`).
-/

namespace Seidel.Lines

/-- The lines before the first blank one. -/
def leading (bytes : ByteArray) : List (List UInt8) :=
  (lines bytes.data.toList).takeWhile (decode? · != some [])

/-- The bytes of a line are the UTF-8 encoding of some characters. -/
def IsText (line : List UInt8) : Prop :=
  ∃ s, String.fromUTF8? ⟨line.toArray⟩ = some s

theorem isText_iff {line : List UInt8} : IsText line ↔ (decode? line).isSome = true := by
  rw [IsText, decode?, Option.isSome_map, Option.isSome_iff_exists]

theorem beforeBlank?_isSome_iff {lines : List (List UInt8)} :
    (beforeBlank? lines).isSome = true
      ↔ ∀ line ∈ lines.takeWhile (decode? · != some []), IsText line := by
  induction lines with
  | nil => simp [beforeBlank?]
  | cons line rest ih =>
    cases decoded : decode? line with
    | none => simp [beforeBlank?, decoded, isText_iff]
    | some cs =>
      cases cs with
      | nil => simp [beforeBlank?, decoded]
      | cons c cs => simp [beforeBlank?, decoded, isText_iff, ih]

theorem equations?_isSome_iff {bytes : ByteArray} :
    (equations? bytes).isSome = true ↔ ∀ line ∈ leading bytes, IsText line :=
  beforeBlank?_isSome_iff

/-! ## Cutting bytes into lines -/

/-- The lines of some bytes. Each ends at a line feed or with the last byte, and no line comes after
a line feed that is the last byte. -/
def cut : List UInt8 → List (List UInt8)
  | [] => []
  | b :: bytes =>
    if b = 10 then [] :: cut bytes
    else match cut bytes with
      | [] => [[b]]
      | line :: rest => (b :: line) :: rest

theorem cut_ne_nil {bytes : List UInt8} (h : bytes ≠ []) : cut bytes ≠ [] := by
  cases bytes with
  | nil => exact absurd rfl h
  | cons b bytes =>
    unfold cut
    split
    · exact List.cons_ne_nil _ _
    · split <;> exact List.cons_ne_nil _ _

theorem lineFeed_not_mem_cut (bytes : List UInt8) : ∀ line ∈ cut bytes, 10 ∉ line := by
  induction bytes with
  | nil => exact fun line mem => absurd mem List.not_mem_nil
  | cons b bytes ih =>
    unfold cut
    split
    · exact List.forall_mem_cons.mpr ⟨List.not_mem_nil, ih⟩
    · rename_i ne
      split
      · intro line mem
        rw [List.mem_singleton.mp mem, List.mem_singleton]
        exact Ne.symm ne
      · rename_i line rest eq
        rw [eq, List.forall_mem_cons] at ih
        refine List.forall_mem_cons.mpr ⟨?_, ih.2⟩
        rw [List.mem_cons, not_or]
        exact ⟨Ne.symm ne, ih.1⟩

theorem cut_of_not_mem {line : List UInt8} (nonempty : line ≠ []) (h : 10 ∉ line) :
    cut line = [line] := by
  induction line with
  | nil => exact absurd rfl nonempty
  | cons b line ih =>
    rw [List.mem_cons, not_or] at h
    rw [cut, if_neg (Ne.symm h.1)]
    cases line with
    | nil => rfl
    | cons c line => rw [ih (List.cons_ne_nil _ _) h.2]

theorem cut_line {line : List UInt8} (h : 10 ∉ line) (rest : List UInt8) :
    cut (line ++ 10 :: rest) = line :: cut rest := by
  induction line with
  | nil => rfl
  | cons b line ih =>
    rw [List.mem_cons, not_or] at h
    rw [List.cons_append, cut, if_neg (Ne.symm h.1), ih h.2]

/-- What comes after a line feed is cut on its own. -/
theorem cut_append {front : List UInt8} (closed : ∀ last ∈ front.getLast?, last = 10)
    (rest : List UInt8) : cut (front ++ rest) = cut front ++ cut rest := by
  induction front with
  | nil => rfl
  | cons b front ih =>
    rw [List.cons_append, cut, cut]
    cases front with
    | nil =>
      rw [closed b rfl]
      rfl
    | cons c front =>
      rw [ih fun last mem => closed last (by rwa [List.getLast?_cons_cons])]
      obtain ⟨line, lines, eq⟩ := List.exists_cons_of_ne_nil (cut_ne_nil (List.cons_ne_nil c front))
      rw [eq]
      split <;> rfl

theorem lines_cons (b : UInt8) (bytes : List UInt8) :
    lines (b :: bytes)
      = if b = 10 then [] :: lines bytes else (lines bytes).modifyHead (b :: ·) := by
  rw [lines, List.splitOn_eq_splitOnP, List.splitOnP_cons_eq_if_modifyHead,
    ← List.splitOn_eq_splitOnP]
  simp only [beq_iff_eq]
  rfl

/-- The pieces between line feeds are the lines, with an empty piece after a last line feed. -/
theorem lines_eq_cut (bytes : List UInt8) :
    lines bytes = cut bytes ∨ lines bytes = cut bytes ++ [[]] := by
  induction bytes with
  | nil => exact Or.inr rfl
  | cons b bytes ih =>
    rw [lines_cons, cut]
    split
    · exact ih.imp (congrArg _) (congrArg _)
    · cases pieces : cut bytes with
      | nil =>
        rw [pieces] at ih
        rcases ih with eq | eq
        · exact absurd eq (List.splitOnP_ne_nil _ _)
        · left
          rw [eq]
          rfl
      | cons line rest =>
        rw [pieces] at ih
        rcases ih with eq | eq
        · left
          rw [eq]
          rfl
        · right
          rw [eq]
          rfl

/-! ## What a line tells -/

/-- The line is text, and this is the text without the blanks at its ends. -/
def Tells (line : List UInt8) (text : String) : Prop :=
  ∃ s : String, s.toUTF8.data.toList = line ∧ String.ofList (Text.trim s.toList) = text

theorem decode?_eq_some_iff {line : List UInt8} {cs : List Char} :
    decode? line = some cs ↔ Tells line (String.ofList cs) := by
  have encoded (s : String) :
      String.fromUTF8? ⟨line.toArray⟩ = some s ↔ s.toUTF8.data.toList = line := by
    rw [fromUTF8?_eq_some_iff]
    constructor
    · intro eq
      rw [eq]
    · rintro rfl
      rfl
  simp only [decode?, Option.map_eq_some_iff, encoded, Tells, String.ofList_inj]

theorem decode?_of_tells {line : List UInt8} {text : String} (h : Tells line text) :
    decode? line = some text.toList :=
  decode?_eq_some_iff.mpr (by rwa [String.ofList_toList])

theorem tells_empty : Tells [] "" :=
  ⟨"", rfl, rfl⟩

/-! ## The equations of some lines -/

theorem beforeBlank?_append_blank {line : List UInt8} (blank : Tells line "")
    (lines after : List (List UInt8)) :
    beforeBlank? (lines ++ line :: after) = beforeBlank? lines := by
  induction lines with
  | nil => simp [beforeBlank?, decode?_of_tells blank]
  | cons first lines ih => rw [List.cons_append, beforeBlank?, beforeBlank?, ih]

theorem beforeBlank?_cons {line : List UInt8} {e : String} (told : Tells line e) (shown : e ≠ "")
    (rest : List (List UInt8)) :
    beforeBlank? (line :: rest) = (beforeBlank? rest).map (e :: ·) := by
  have decoded := decode?_of_tells told
  cases chars : e.toList with
  | nil => exact absurd (String.toList_eq_nil_iff.mp chars) shown
  | cons c cs =>
    obtain rfl : String.ofList (c :: cs) = e := by rw [← chars, String.ofList_toList]
    rw [chars] at decoded
    simp only [beforeBlank?, decoded]

/-- The lines that say something are followed by the end, a blank line or one that is no text. -/
theorem beforeBlank?_cases (lines : List (List UInt8)) :
    ∃ before equations rest, lines = before ++ rest ∧
      List.Forall₂ (fun line e => Tells line e ∧ e ≠ "") before equations ∧
      (rest = [] ∧ beforeBlank? lines = some equations ∨
        ∃ line after, rest = line :: after ∧
          (Tells line "" ∧ beforeBlank? lines = some equations ∨
            ¬ IsText line ∧ beforeBlank? lines = none)) := by
  induction lines with
  | nil => exact ⟨[], [], [], rfl, .nil, Or.inl ⟨rfl, rfl⟩⟩
  | cons line lines ih =>
    cases decoded : decode? line with
    | none =>
      have garbled : ¬ IsText line := by simp [isText_iff, decoded]
      have none : beforeBlank? (line :: lines) = none := by simp only [beforeBlank?, decoded]
      exact ⟨[], [], _, rfl, .nil, Or.inr ⟨line, lines, rfl, Or.inr ⟨garbled, none⟩⟩⟩
    | some cs =>
      have told := decode?_eq_some_iff.mp decoded
      cases cs with
      | nil =>
        have some : beforeBlank? (line :: lines) = some [] := by simp only [beforeBlank?, decoded]
        exact ⟨[], [], _, rfl, .nil, Or.inr ⟨line, lines, rfl, Or.inl ⟨told, some⟩⟩⟩
      | cons c cs =>
        obtain ⟨before, equations, rest, rfl, read, ends⟩ := ih
        have shown : String.ofList (c :: cs) ≠ "" := by
          simp [← String.toList_inj]
        have step := beforeBlank?_cons told shown (before ++ rest)
        refine ⟨line :: before, String.ofList (c :: cs) :: equations, rest, rfl,
          .cons ⟨told, shown⟩ read, ?_⟩
        rcases ends with ⟨rfl, eq⟩ | ⟨last, after, rfl, ⟨blank, eq⟩ | ⟨garbled, eq⟩⟩
        · exact Or.inl ⟨rfl, by rw [step, eq]; rfl⟩
        · exact Or.inr ⟨last, after, rfl, Or.inl ⟨blank, by rw [step, eq]; rfl⟩⟩
        · exact Or.inr ⟨last, after, rfl, Or.inr ⟨garbled, by rw [step, eq]; rfl⟩⟩

theorem beforeBlank?_append {lines : List (List UInt8)} {equations : List String}
    (h : List.Forall₂ (fun line e => Tells line e ∧ e ≠ "") lines equations)
    (rest : List (List UInt8)) :
    beforeBlank? (lines ++ rest) = (beforeBlank? rest).map (equations ++ ·) := by
  induction h with
  | nil => simp
  | @cons line e lines equations head _ ih =>
    obtain ⟨told, shown⟩ := head
    rw [List.cons_append, beforeBlank?_cons told shown, ih, Option.map_map]
    rfl

theorem equations?_eq_cut (bytes : ByteArray) :
    equations? bytes = beforeBlank? (cut bytes.data.toList) := by
  unfold equations?
  rcases lines_eq_cut bytes.data.toList with eq | eq
  · rw [eq]
  · rw [eq, beforeBlank?_append_blank tells_empty]

/-! ## Equations that are read back -/

/-- Trimmed text on one line, and not empty. -/
structure IsEntry (e : String) : Prop where
  ne_empty : e ≠ ""
  trimmed : Text.trim e.toList = e.toList
  oneLine : '\n' ∉ e.toList

theorem isEntry_of_tells {line : List UInt8} {e : String} (told : Tells line e) (ne_empty : e ≠ "")
    (closed : 10 ∉ line) : IsEntry e := by
  obtain ⟨s, rfl, rfl⟩ := told
  refine ⟨ne_empty, ?_, ?_⟩
  · rw [String.toList_ofList, Text.trim_trim]
  · rw [String.toList_ofList]
    exact fun mem => closed (lineFeed_mem_toUTF8_iff.mpr (Text.mem_of_mem_trim mem))

theorem isEntry_of_mem {lines : List (List UInt8)} {equations : List String}
    (h : List.Forall₂ (fun line e => Tells line e ∧ e ≠ "") lines equations)
    (closed : ∀ line ∈ lines, 10 ∉ line) : ∀ e ∈ equations, IsEntry e := by
  induction h with
  | nil => exact fun e mem => absurd mem List.not_mem_nil
  | cons head _ ih =>
    rw [List.forall_mem_cons] at closed ⊢
    exact ⟨isEntry_of_tells head.1 head.2 closed.1, ih closed.2⟩

/-- How a line can end. -/
inductive LineEnd
  | lineFeed
  | returnAndLineFeed

/-- What stands before the line feed. -/
def LineEnd.margin : LineEnd → String
  | .lineFeed => ""
  | .returnAndLineFeed => "\r"

/-- Entries with a line end after each. -/
def write (entries : List (String × LineEnd)) : List UInt8 :=
  entries.flatMap fun (e, lineEnd) => (e ++ lineEnd.margin).toUTF8.data.toList ++ [10]

theorem tells_of_isEntry {e : String} (h : IsEntry e) (lineEnd : LineEnd) :
    Tells (e ++ lineEnd.margin).toUTF8.data.toList e ∧
      10 ∉ (e ++ lineEnd.margin).toUTF8.data.toList := by
  rw [lineFeed_mem_toUTF8_iff, String.toList_append, List.mem_append, not_or]
  have trimmed : Text.trim (e ++ lineEnd.margin).toList = e.toList := by
    rw [String.toList_append]
    cases lineEnd with
    | lineFeed => exact (congrArg Text.trim (List.append_nil _)).trans h.trimmed
    | returnAndLineFeed => exact (Text.trim_append_blank (by decide) _).trans h.trimmed
  refine ⟨⟨_, rfl, by rw [trimmed, String.ofList_toList]⟩, h.oneLine, ?_⟩
  cases lineEnd <;> decide

/-- What was written is cut at the line ends, whatever comes behind it. -/
theorem cut_write {entries : List (String × LineEnd)} (h : ∀ entry ∈ entries, IsEntry entry.1)
    (rest : List UInt8) :
    ∃ lines, cut (write entries ++ rest) = lines ++ cut rest ∧
      List.Forall₂ (fun line e => Tells line e ∧ e ≠ "") lines (entries.map Prod.fst) := by
  induction entries with
  | nil => exact ⟨[], rfl, .nil⟩
  | cons entry entries ih =>
    obtain ⟨e, lineEnd⟩ := entry
    rw [List.forall_mem_cons] at h
    obtain ⟨lines, eq, told⟩ := ih h.2
    obtain ⟨first, closed⟩ := tells_of_isEntry h.1 lineEnd
    refine ⟨_ :: lines, ?_, .cons ⟨first, h.1.ne_empty⟩ told⟩
    rw [write, List.flatMap_cons, List.append_assoc, List.append_assoc, List.singleton_append,
      cut_line closed, List.cons_append]
    exact congrArg _ eq

/-- The end of the input, or a blank line with anything behind it. -/
inductive Closes : List UInt8 → Prop
  | atEnd : Closes []
  | lastLine {blank : List UInt8} : 10 ∉ blank → Tells blank "" → Closes blank
  | line {blank : List UInt8} (after : List UInt8) :
    10 ∉ blank → Tells blank "" → Closes (blank ++ 10 :: after)

theorem beforeBlank?_closes {rest : List UInt8} (h : Closes rest) :
    beforeBlank? (cut rest) = some [] := by
  cases h with
  | atEnd => rfl
  | lastLine closed blank =>
    by_cases empty : rest = []
    · subst empty
      rfl
    · rw [cut_of_not_mem empty closed]
      exact beforeBlank?_append_blank blank [] []
  | line after closed blank =>
    rw [cut_line closed]
    exact beforeBlank?_append_blank blank [] (cut after)

/-- **Equations from bytes.** The lines of an input that are text and not blank say, trimmed, the
equations up to the first other line; if that line is not text, there are none. Nothing after a line
feed that ends a blank line is looked at. Every equation is trimmed text on one line, and not empty;
and whatever is such text is read back from where it was written with a line end after each, at the
end of the input or before a blank line. -/
theorem equations?_reads :
    (∀ bytes : ByteArray, ∃ before equations rest, cut bytes.data.toList = before ++ rest ∧
      List.Forall₂ (fun line e => Tells line e ∧ e ≠ "") before equations ∧
      (rest = [] ∧ equations? bytes = some equations ∨
        ∃ line after, rest = line :: after ∧
          (Tells line "" ∧ equations? bytes = some equations ∨
            ¬ IsText line ∧ equations? bytes = none))) ∧
    (∀ front blank after : List UInt8, (∀ last ∈ front.getLast?, last = 10) → 10 ∉ blank →
      Tells blank "" →
      equations? ⟨(front ++ (blank ++ 10 :: after)).toArray⟩ = equations? ⟨front.toArray⟩) ∧
    (∀ bytes equations, equations? bytes = some equations → ∀ e ∈ equations, IsEntry e) ∧
    ∀ entries : List (String × LineEnd), (∀ entry ∈ entries, IsEntry entry.1) →
      ∀ rest, Closes rest →
        equations? ⟨(write entries ++ rest).toArray⟩ = some (entries.map Prod.fst) := by
  refine ⟨fun bytes => ?_, fun front blank after closed inner told => ?_,
    fun bytes equations read e mem => ?_, fun entries h rest closes => ?_⟩
  · rw [equations?_eq_cut]
    exact beforeBlank?_cases _
  · rw [equations?_eq_cut, equations?_eq_cut, cut_append closed, cut_line inner,
      beforeBlank?_append_blank told]
  · rw [equations?_eq_cut] at read
    obtain ⟨before, equations', rest, eq, told, ends⟩ := beforeBlank?_cases (cut bytes.data.toList)
    have closed : ∀ line ∈ before, 10 ∉ line := fun line mem =>
      lineFeed_not_mem_cut bytes.data.toList line (eq ▸ List.mem_append_left rest mem)
    have same : equations' = equations := by
      rcases ends with ⟨_, some⟩ | ⟨_, _, _, ⟨_, some⟩ | ⟨_, none⟩⟩
      · exact Option.some.inj (some.symm.trans read)
      · exact Option.some.inj (some.symm.trans read)
      · cases none.symm.trans read
    exact isEntry_of_mem told closed e (same ▸ mem)
  · obtain ⟨lines, eq, told⟩ := cut_write h rest
    rw [equations?_eq_cut]
    change beforeBlank? (cut (write entries ++ rest)) = _
    rw [eq, beforeBlank?_append told, beforeBlank?_closes closes, Option.map_some, List.append_nil]

end Seidel.Lines
