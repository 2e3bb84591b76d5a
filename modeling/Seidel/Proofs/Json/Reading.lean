import Seidel.Json.Printer
import Seidel.Proofs.Json.Numbers

/-!
# Printed JSON reads back

A value that can be printed at all (`Printable`) is read back from its text, on one line or on
several (`parse?_print`). What follows a value matters for numbers only: they are over where no
character comes that could continue them.
-/

namespace Seidel.Json

/-! ## Between the tokens -/

/-- Nothing but white space. -/
def IsGap (cs : List Char) : Prop :=
  ∀ c ∈ cs, isSpace c = true

theorem isGap_newline (spacing : Spacing) : IsGap spacing.newline := by
  cases spacing with
  | compact => exact nofun
  | indented depth =>
    intro c hc
    rcases List.mem_cons.mp hc with rfl | hc
    · rfl
    · rw [List.eq_of_mem_replicate hc]
      rfl

theorem exists_colon (spacing : Spacing) : ∃ blank, spacing.colon = ':' :: blank ∧ IsGap blank := by
  cases spacing with
  | compact => exact ⟨[], rfl, nofun⟩
  | indented => exact ⟨[' '], rfl, by simp [IsGap, isSpace]⟩

theorem colon_inner (spacing : Spacing) : spacing.inner.colon = spacing.colon := by
  cases spacing <;> rfl

theorem skipSpace_append {gap : List Char} (h : IsGap gap) (cs : List Char) :
    skipSpace (gap ++ cs) = skipSpace cs :=
  List.dropWhile_append_of_pos h

theorem skipSpace_cons {c : Char} (h : isSpace c = false) (cs : List Char) :
    skipSpace (c :: cs) = c :: cs := by
  simp [skipSpace, h]

/-! ## Strings -/

/-- Text that may stand between quotes. -/
def IsQuotable (inner : List Char) : Prop :=
  ∀ rest, quoted? (inner ++ '"' :: rest) = some (inner, rest)

theorem isQuotable_escape (cs : List Char) : IsQuotable (escape cs) :=
  fun rest => quoted?_escape cs rest

/-! ## Values -/

/-- Values that can be printed: the literals of numbers are complete, and the text between quotes
does not end before its quote. -/
inductive Printable : Json → Prop
  | null : Printable .null
  | bool (value : Bool) : Printable (.bool value)
  | number {literal : List Char} (h : IsLiteral literal) : Printable (.number literal)
  | string {inner : List Char} (h : IsQuotable inner) : Printable (.string inner)
  | array {items : List Json} (h : ∀ item ∈ items, Printable item) : Printable (.array items)
  | object {members : List (List Char × Json)} (names : ∀ m ∈ members, IsQuotable m.1)
    (values : ∀ m ∈ members, Printable m.2) : Printable (.object members)

theorem printable_ofString (s : String) : Printable (ofString s) :=
  .string (isQuotable_escape _)

theorem printable_ofNat (n : Nat) : Printable (ofNat n) :=
  .number (isLiteral_toDigits n)

theorem printable_ofFloat (x : Float) : Printable (ofFloat x) := by
  unfold ofFloat
  split
  · exact .number (isLiteral_finite floatLayout (by assumption))
  · exact .null

/-- The first character of a value is neither white space nor the end of an array. -/
theorem exists_print {j : Json} (h : Printable j) (spacing : Spacing) :
    ∃ c cs, print spacing j = c :: cs ∧ isSpace c = false ∧ c ≠ ']' := by
  cases h with
  | null => exact ⟨_, _, rfl, rfl, by decide⟩
  | bool value => cases value <;> exact ⟨_, _, rfl, rfl, by decide⟩
  | number h =>
    obtain ⟨c, cs, rfl, start⟩ := h.starts
    exact ⟨c, cs, rfl, start.not_isSpace, start.ne (by decide)⟩
  | string h => exact ⟨_, _, rfl, rfl, by decide⟩
  | array h =>
    rename_i items
    cases items <;> exact ⟨_, _, rfl, rfl, by decide⟩
  | object names values =>
    rename_i members
    cases members <;> exact ⟨_, _, rfl, rfl, by decide⟩

/-- The text of a value is read back, after any gap and before anything that ends a number. -/
def ReadsBack (j : Json) : Prop :=
  ∀ spacing fuel gap rest, IsGap gap → EndsNumber rest → (print spacing j).length < fuel →
    value? fuel (gap ++ (print spacing j ++ rest)) = some (j, rest)

theorem EndsNumber.gap {gap : List Char} (h : IsGap gap) {c : Char} {rest : List Char}
    (ends : EndsNumber (c :: rest)) : EndsNumber (gap ++ c :: rest) := by
  cases gap with
  | nil => exact ends
  | cons d gap =>
    intro c hc
    obtain rfl : d = c := by simpa using hc
    have space := h d List.mem_cons_self
    simp only [isSpace, Bool.or_eq_true, beq_iff_eq] at space
    rcases space with ((rfl | rfl) | rfl) | rfl <;> decide

theorem endsNumber_comma (rest : List Char) : EndsNumber (',' :: rest) := by
  intro c hc
  obtain rfl : ',' = c := by simpa using hc
  decide

theorem endsNumber_bracket (rest : List Char) : EndsNumber (']' :: rest) := by
  intro c hc
  obtain rfl : ']' = c := by simpa using hc
  decide

theorem endsNumber_brace (rest : List Char) : EndsNumber ('\x7d' :: rest) := by
  intro c hc
  obtain rfl : '\x7d' = c := by simpa using hc
  decide

/-- The items of an array are read back one after the other. -/
theorem items?_print {item : Json} {items : List Json} (h : ∀ j ∈ item :: items, ReadsBack j)
    (spacing : Spacing) (fuel : Nat) (gap : List Char) {close : List Char} (rest : List Char)
    (isGap : IsGap gap) (isClose : IsGap close)
    (enough : (print spacing item).length + (printItems spacing items).length + 1 < fuel) :
    items? fuel (gap ++ (print spacing item ++ (printItems spacing items
      ++ (close ++ ']' :: rest)))) = some (item :: items, rest) := by
  obtain ⟨fuel, rfl⟩ := Nat.exists_eq_succ_of_ne_zero (Nat.ne_zero_of_lt enough)
  have closing : skipSpace (close ++ ']' :: rest) = ']' :: rest := by
    rw [skipSpace_append isClose]
    exact skipSpace_cons rfl rest
  have ends : EndsNumber (printItems spacing items ++ (close ++ ']' :: rest)) := by
    cases items with
    | nil => exact (endsNumber_bracket rest).gap isClose
    | cons => exact endsNumber_comma _
  have first := h item List.mem_cons_self spacing fuel gap _ isGap ends (by omega)
  cases items with
  | nil =>
    rw [printItems, List.nil_append] at first ⊢
    simp [items?, first, closing]
  | cons next items =>
    have later := items?_print (fun j hj => h j (List.mem_cons_of_mem _ hj)) spacing fuel
      spacing.newline rest (isGap_newline spacing) isClose (by
        simp only [printItems, List.length_cons, List.length_append] at enough
        omega)
    have comma : skipSpace (printItems spacing (next :: items) ++ (close ++ ']' :: rest))
        = ',' :: (spacing.newline ++ (print spacing next ++ (printItems spacing items
          ++ (close ++ ']' :: rest)))) := by
      rw [printItems, List.cons_append, skipSpace_cons rfl]
      simp only [List.append_assoc]
    simp [items?, first, comma, later]

/-- The members of an object are read back one after the other. -/
theorem members?_print {name : List Char} {value : Json} {members : List (List Char × Json)}
    (names : ∀ m ∈ (name, value) :: members, IsQuotable m.1)
    (values : ∀ m ∈ (name, value) :: members, ReadsBack m.2) (spacing : Spacing) (fuel : Nat)
    (gap : List Char) {close : List Char} (rest : List Char) (isGap : IsGap gap)
    (isClose : IsGap close)
    (enough : name.length + (print spacing value).length + (printMembers spacing members).length + 4
      < fuel) :
    members? fuel (gap ++ '"' :: (name ++ '"' :: (spacing.colon ++ (print spacing value
      ++ (printMembers spacing members ++ (close ++ '\x7d' :: rest))))))
      = some ((name, value) :: members, rest) := by
  obtain ⟨fuel, rfl⟩ := Nat.exists_eq_succ_of_ne_zero (Nat.ne_zero_of_lt enough)
  have opening (cs : List Char) : skipSpace (gap ++ '"' :: cs) = '"' :: cs := by
    rw [skipSpace_append isGap]
    exact skipSpace_cons rfl cs
  have closing : skipSpace (close ++ '\x7d' :: rest) = '\x7d' :: rest := by
    rw [skipSpace_append isClose]
    exact skipSpace_cons rfl rest
  have ends : EndsNumber (printMembers spacing members ++ (close ++ '\x7d' :: rest)) := by
    cases members with
    | nil => exact (endsNumber_brace rest).gap isClose
    | cons => exact endsNumber_comma _
  obtain ⟨blank, colon, isBlank⟩ := exists_colon spacing
  have quoted := names (name, value) List.mem_cons_self
  have read : ReadsBack value := values (name, value) List.mem_cons_self
  have first := read spacing fuel blank _ isBlank ends (by omega)
  have colons (cs : List Char) : skipSpace (':' :: cs) = ':' :: cs := skipSpace_cons rfl cs
  cases members with
  | nil =>
    rw [printMembers, List.nil_append] at first ⊢
    simp [members?, opening, quoted _, colon, colons, first, closing]
  | cons next members =>
    obtain ⟨name', value'⟩ := next
    have later := members?_print (fun m hm => names m (List.mem_cons_of_mem _ hm))
      (fun m hm => values m (List.mem_cons_of_mem _ hm)) spacing fuel spacing.newline rest
      (isGap_newline spacing) isClose (by
        simp only [printMembers, colon, List.length_cons, List.length_append] at enough
        omega)
    have comma : skipSpace (printMembers spacing ((name', value') :: members)
          ++ (close ++ '\x7d' :: rest))
        = ',' :: (spacing.newline ++ '"' :: (name' ++ '"' :: (spacing.colon
          ++ (print spacing value' ++ (printMembers spacing members
            ++ (close ++ '\x7d' :: rest)))))) := by
      rw [printMembers, List.cons_append, skipSpace_cons rfl]
      simp only [List.append_assoc, List.cons_append]
    simp [members?, opening, quoted _, colon, colons, first, comma] at later ⊢
    simp [later]

theorem readsBack_array {items : List Json} (h : ∀ item ∈ items, Printable item)
    (ih : ∀ item ∈ items, ReadsBack item) : ReadsBack (.array items) := by
  intro spacing fuel gap rest isGap _ enough
  obtain ⟨fuel, rfl⟩ := Nat.exists_eq_succ_of_ne_zero (Nat.ne_zero_of_lt enough)
  cases items with
  | nil =>
    simp [value?, print, skipSpace_append isGap, skipSpace_cons (c := '[') rfl,
      skipSpace_cons (c := ']') rfl]
  | cons item items =>
    have read := items?_print ih spacing.inner fuel [] rest nofun
      (isGap_newline spacing) (by
        simp only [print, List.length_cons, List.length_append] at enough
        omega)
    obtain ⟨c, cs, text, first, notEnd⟩ := exists_print (h item List.mem_cons_self) spacing.inner
    simp only [print, List.cons_append, List.append_assoc, List.nil_append, value?,
      skipSpace_append isGap, skipSpace_cons (c := '[') rfl,
      skipSpace_append (isGap_newline spacing.inner)]
    simp only [text, List.cons_append, skipSpace_cons first]
    split
    · rename_i same
      exact absurd (List.cons.inj same).1 notEnd
    · simp only [text, List.nil_append, List.cons_append] at read
      simp only [read, Option.map_some]

theorem readsBack_object {members : List (List Char × Json)}
    (names : ∀ m ∈ members, IsQuotable m.1) (ih : ∀ m ∈ members, ReadsBack m.2) :
    ReadsBack (.object members) := by
  intro spacing fuel gap rest isGap _ enough
  obtain ⟨fuel, rfl⟩ := Nat.exists_eq_succ_of_ne_zero (Nat.ne_zero_of_lt enough)
  cases members with
  | nil =>
    simp [value?, print, skipSpace_append isGap, skipSpace_cons (c := '\x7b') rfl,
      skipSpace_cons (c := '\x7d') rfl]
  | cons member members =>
    obtain ⟨name, value⟩ := member
    obtain ⟨blank, colon, _⟩ := exists_colon spacing
    have read := members?_print names ih spacing.inner fuel [] rest nofun (isGap_newline spacing)
      (by
        simp only [print, colon, List.length_cons, List.length_append] at enough
        omega)
    rw [List.nil_append, colon_inner] at read
    simp only [print, List.cons_append, List.append_assoc, List.nil_append, value?,
      skipSpace_append isGap, skipSpace_cons (c := '\x7b') rfl,
      skipSpace_append (isGap_newline spacing.inner), skipSpace_cons (c := '"') rfl]
    split
    · rename_i same
      exact absurd (List.cons.inj same).1 (by decide)
    · simp only [read, Option.map_some]

/-- **Reading what was printed.** Every printable value is read back from its text. -/
theorem readsBack {j : Json} (h : Printable j) : ReadsBack j := by
  induction h with
  | null =>
    intro spacing fuel gap rest isGap _ enough
    obtain ⟨fuel, rfl⟩ := Nat.exists_eq_succ_of_ne_zero (Nat.ne_zero_of_lt enough)
    simp [value?, print, skipSpace_append isGap, skipSpace_cons (c := 'n') rfl]
  | bool value =>
    intro spacing fuel gap rest isGap _ enough
    obtain ⟨fuel, rfl⟩ := Nat.exists_eq_succ_of_ne_zero (Nat.ne_zero_of_lt enough)
    cases value with
    | true => simp [value?, print, skipSpace_append isGap, skipSpace_cons (c := 't') rfl]
    | false => simp [value?, print, skipSpace_append isGap, skipSpace_cons (c := 'f') rfl]
  | number h =>
    intro spacing fuel gap rest isGap ends enough
    obtain ⟨fuel, rfl⟩ := Nat.exists_eq_succ_of_ne_zero (Nat.ne_zero_of_lt enough)
    have read := h.reads rest ends
    obtain ⟨c, cs, rfl, start⟩ := h.starts
    simp only [print, value?, skipSpace_append isGap, List.cons_append,
      skipSpace_cons start.not_isSpace]
    -- no other kind of value starts like a number
    split
    case h_7 => exact congrArg (Option.map _) read
    all_goals
      rename_i same
      exact absurd (List.cons.inj same).1 (start.ne (by decide))
  | string h =>
    intro spacing fuel gap rest isGap _ enough
    obtain ⟨fuel, rfl⟩ := Nat.exists_eq_succ_of_ne_zero (Nat.ne_zero_of_lt enough)
    simp [value?, print, skipSpace_append isGap, skipSpace_cons (c := '"') rfl, h _]
  | array h ih => exact readsBack_array h ih
  | object names _ ih => exact readsBack_object names ih

/-- The text of a value is read as this value, and nothing is left over. -/
theorem parse?_print {j : Json} (h : Printable j) (spacing : Spacing) :
    parse? (print spacing j) = some j := by
  have read := readsBack h spacing ((print spacing j).length + 1) [] [] nofun nofun
    (Nat.lt_succ_self _)
  rw [List.nil_append, List.append_nil] at read
  simp [parse?, read, skipSpace]

end Seidel.Json
