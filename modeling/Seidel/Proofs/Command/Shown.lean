import Seidel.Proofs.Json.Reading
import Seidel.Proofs.System.Printed

/-!
# Sweeps as they are shown

What a report shows of a sweep can be read back, from a line of text (`Snapshot.ofText?_text`) or
from a value in JSON (`Snapshot.ofJson?_json`): the number of the sweep, the variables in their
order, and the same floats. The two formats write the floats differently, and JSON has `null` for
those that are not finite. So no two sweeps have the same report (`Snapshot.reports_unambiguous`).
-/

namespace Seidel

/-! ## Readers -/

/-- A variable with its value: `x: 2.5`. -/
def pairOfText? (cs : List Char) : Option (String × Float) :=
  match cs.span (· != ':') with
  | (symbol, ':' :: ' ' :: numeral) =>
    (Decimal.floatOfText? numeral).map (String.ofList symbol, ·)
  | _ => none

/-- What stands between the braces. -/
def pairsOfText? (cs : List Char) : Option (List (String × Float)) :=
  if cs = [] then some []
  else (cs.splitOn ',').mapM fun part => pairOfText? (part.dropWhile (· == ' '))

/-- A number, or `null` for a value that is not finite. -/
def valueOfJson? : Json → Option (Option Float)
  | .null => some none
  | .number literal => (Decimal.floatOfText? literal).map some
  | _ => none

def pairOfJson? (member : List Char × Json) : Option (String × Option Float) := do
  let symbol ← Json.unescape? member.1
  let value ← valueOfJson? member.2
  some (String.ofList symbol, value)

namespace Snapshot

variable {R : Type}

def ofPairs (iteration : Nat) (pairs : List (String × R)) : Snapshot R :=
  ⟨iteration, ⟨pairs.map Prod.fst, pairs.map Prod.snd⟩⟩

/-- The sweep that a line shows: `Iteration 3 is {x: 1, y: 2.5}`. -/
def ofText? (line : List Char) : Option (Snapshot Float) := do
  let rest ← "Iteration ".toList.isPrefixOf? line
  let body ← " is \x7b".toList.isPrefixOf? (rest.dropWhile Char.isDigit)
  let body ← ['\x7d'].isSuffixOf? body
  let pairs ← pairsOfText? body
  some (ofPairs (Decimal.natOfDigits (rest.takeWhile Char.isDigit)) pairs)

/-- The sweep that a value shows: an object with a number and an object. -/
def ofJson? : Json → Option (Snapshot (Option Float))
  | .object [(name, .number digits), (name', .object members)] =>
    if Json.unescape? name = some "iteration".toList
        ∧ Json.unescape? name' = some "approximation".toList ∧ digits.all Char.isDigit then
      (members.mapM pairOfJson?).map (ofPairs (Decimal.natOfDigits digits))
    else none
  | _ => none

/-- The sweep without the values that JSON does not show. -/
def finite (s : Snapshot Float) : Snapshot (Option Float) :=
  ⟨s.iteration, s.approximation.symbols,
    s.approximation.values.map fun x => if x.isFinite then some x else none⟩

/-- Every variable has a value. -/
def IsTotal (s : Snapshot R) : Prop :=
  s.approximation.symbols.length = s.approximation.values.length

theorem ofPairs_pairs {s : Snapshot R} (h : s.IsTotal) :
    ofPairs s.iteration s.approximation.pairs = s := by
  rw [ofPairs, Approximation.pairs, List.map_fst_zip h.le, List.map_snd_zip h.ge]

end Snapshot

/-! ## Text -/

/-- A symbol is a word of letters. -/
def Lettered (symbol : String) : Prop :=
  symbol.toList.all Text.isLetter = true

instance (symbol : String) : Decidable (Lettered symbol) :=
  inferInstanceAs (Decidable (_ = _))

theorem Lettered.not_mem {symbol : String} (h : Lettered symbol) {c : Char} (below : c.toNat < 0x41) :
    c ∉ symbol.toList := by
  intro mem
  have above := Text.ge_of_isLetter (List.all_eq_true.mp h c mem)
  omega

/-- A variable with its value, as a report shows it. -/
def pairText (p : String × Float) : List Char :=
  p.1.toList ++ ':' :: ' ' :: Decimal.plain.format p.2

theorem pairOfText?_pairText {p : String × Float} (h : Lettered p.1) :
    pairOfText? (pairText p) = some p := by
  have symbol : ∀ c ∈ p.1.toList, (c != ':') = true := by
    intro c mem
    rw [bne_iff_ne]
    rintro rfl
    exact h.not_mem (by decide) mem
  obtain ⟨taken, dropped⟩ :=
    Decimal.span_run symbol (':' :: ' ' :: Decimal.plain.format p.2) (by simp)
  rw [pairOfText?, pairText, List.span_eq_takeWhile_dropWhile, taken, dropped]
  simp only [Decimal.reads_format, Option.map_some, String.ofList_toList]

/-- The separators of a report do not occur. -/
theorem not_mem_pairText {p : String × Float} (h : Lettered p.1) {c : Char}
    (separator : c = ',' ∨ c = '\n') : c ∉ pairText p := by
  intro mem
  rcases List.mem_append.mp mem with mem | mem
  · exact h.not_mem (by rcases separator with rfl | rfl <;> decide) mem
  · simp only [List.mem_cons] at mem
    rcases mem with rfl | rfl | mem
    · exact absurd separator (by decide)
    · exact absurd separator (by decide)
    · have other := Decimal.mem_format mem
      rcases separator with rfl | rfl <;> exact absurd other (by decide)

/-- No blank comes first. -/
theorem dropWhile_pairText {p : String × Float} (h : Lettered p.1) :
    (pairText p).dropWhile (· == ' ') = pairText p := by
  have blank := h.not_mem (c := ' ') (by decide)
  unfold pairText
  cases letters : p.1.toList with
  | nil => rfl
  | cons c cs =>
    rw [letters] at blank
    rw [List.cons_append, List.dropWhile_cons_of_neg]
    simp only [beq_iff_eq]
    rintro rfl
    exact blank List.mem_cons_self

/-- A comma and a blank between texts is a comma between texts that begin with a blank. -/
theorem intercalate_commas (part : List Char) (parts : List (List Char)) :
    [',', ' '].intercalate (part :: parts) = [','].intercalate (part :: parts.map (' ' :: ·)) := by
  induction parts generalizing part with
  | nil => rfl
  | cons next parts ih =>
    have blank (rest : List (List Char)) :
        [','].intercalate ((' ' :: next) :: rest) = ' ' :: [','].intercalate (next :: rest) := by
      cases rest <;> simp [List.intercalate_cons_cons]
    rw [List.intercalate_cons_cons, ih, List.map_cons, List.intercalate_cons_cons, blank]
    simp only [List.append_assoc, List.cons_append, List.nil_append]

theorem isLine_pairs (pairs : List (String × Float)) (h : ∀ p ∈ pairs, Lettered p.1) :
    IsLine ([',', ' '].intercalate (pairs.map pairText)) := by
  induction pairs with
  | nil => exact List.not_mem_nil
  | cons p pairs ih =>
    rw [List.forall_mem_cons] at h
    have first : IsLine (pairText p) := not_mem_pairText h.1 (.inr rfl)
    cases pairs with
    | nil => rwa [List.map_cons, List.map_nil, List.intercalate_singleton]
    | cons q pairs =>
      rw [List.map_cons, List.map_cons, List.intercalate_cons_cons, isLine_append, isLine_append]
      exact ⟨⟨first, by decide⟩, ih h.2⟩

theorem pairsOfText?_pairText (pairs : List (String × Float)) (h : ∀ p ∈ pairs, Lettered p.1) :
    pairsOfText? ([',', ' '].intercalate (pairs.map pairText)) = some pairs := by
  cases pairs with
  | nil => rfl
  | cons p pairs =>
    have parts : ∀ part ∈ pairText p :: (pairs.map pairText).map (' ' :: ·), ',' ∉ part := by
      rw [List.forall_mem_cons, List.forall_mem_map, List.forall_mem_map]
      refine ⟨not_mem_pairText (h p List.mem_cons_self) (.inl rfl), fun q mem => ?_⟩
      rw [List.mem_cons, not_or]
      exact ⟨by decide, not_mem_pairText (h q (List.mem_cons_of_mem _ mem)) (.inl rfl)⟩
    have nonempty : [',', ' '].intercalate ((p :: pairs).map pairText) ≠ [] := by
      rw [List.map_cons, intercalate_commas]
      cases pairs <;> simp [pairText, List.intercalate_cons_cons]
    have read (q : String × Float) (mem : q ∈ p :: pairs) :
        pairOfText? ((pairText q).dropWhile (· == ' ')) = some q := by
      rw [dropWhile_pairText (h q mem), pairOfText?_pairText (h q mem)]
    rw [pairsOfText?, if_neg nonempty, List.map_cons, intercalate_commas,
      List.splitOn_intercalate ',' parts (List.cons_ne_nil _ _), mapM_eq_some_iff]
    refine .cons (read p List.mem_cons_self) ?_
    rw [List.forall₂_map_left_iff, List.forall₂_map_left_iff, List.forall₂_same]
    exact fun q mem => read q (List.mem_cons_of_mem _ mem)

namespace Snapshot

variable {s : Snapshot Float}

theorem toList_text (s : Snapshot Float) :
    s.text.toList = "Iteration ".toList ++ (Nat.toDigits 10 s.iteration ++ (" is \x7b".toList
      ++ ([',', ' '].intercalate (s.approximation.pairs.map pairText) ++ ['\x7d']))) := by
  simp only [text, Approximation.text, String.toList_append, Nat.toList_repr,
    String.toList_intercalate, List.map_map, List.append_assoc]
  have pair : String.toList ∘ (fun p : String × Float =>
      p.1 ++ ": " ++ String.ofList (Decimal.plain.format p.2)) = pairText := by
    funext p
    simp [pairText]
  rw [pair]
  rfl

theorem isLine_text (letters : ∀ symbol ∈ s.approximation.symbols, Lettered symbol) :
    IsLine s.text.toList := by
  rw [toList_text]
  have pairs := isLine_pairs s.approximation.pairs fun p mem => letters p.1 (List.of_mem_zip mem).1
  rw [← Nat.toList_repr]
  simp only [isLine_append]
  exact ⟨by decide, isLine_repr _, by decide, pairs, by decide⟩

/-- A line of text shows the sweep. -/
theorem ofText?_text (total : s.IsTotal)
    (letters : ∀ symbol ∈ s.approximation.symbols, Lettered symbol) :
    ofText? s.text.toList = some s := by
  have pairs := pairsOfText?_pairText s.approximation.pairs fun p mem =>
    letters p.1 (List.of_mem_zip mem).1
  have opened (start rest : List Char) : start.isPrefixOf? (start ++ rest) = some rest :=
    List.isPrefixOf?_eq_some_iff_append_eq.mpr rfl
  have closed (body : List Char) : ['\x7d'].isSuffixOf? (body ++ ['\x7d']) = some body :=
    List.isSuffixOf?_eq_some_iff_append_eq.mpr rfl
  rw [toList_text]
  generalize [',', ' '].intercalate (s.approximation.pairs.map pairText) = body at *
  obtain ⟨taken, dropped⟩ := Decimal.span_run (Decimal.toDigits_isDigit s.iteration)
    (" is \x7b".toList ++ (body ++ ['\x7d'])) (by simp)
  simp only [ofText?, opened, taken, dropped, closed, pairs, Option.bind_eq_bind, Option.bind_some,
    Decimal.natOfDigits_toDigits, ofPairs_pairs total]

end Snapshot

/-! ## JSON -/

theorem valueOfJson?_ofFloat (x : Float) :
    valueOfJson? (Json.ofFloat x) = some (if x.isFinite then some x else none) := by
  unfold Json.ofFloat
  split
  · rename_i finite
    simp only [valueOfJson?, Decimal.floatOfText?_finite _ finite, Option.map_some]
  · rfl

namespace Snapshot

variable {s : Snapshot Float}

/-- A value in JSON shows the sweep, except for values that are not finite. -/
theorem ofJson?_json (s : Snapshot Float) (total : s.IsTotal) : ofJson? s.json = some s.finite := by
  have members : (s.approximation.pairs.map fun p =>
        (Json.escape p.1.toList, Json.ofFloat p.2)).mapM pairOfJson?
      = some s.finite.approximation.pairs := by
    rw [mapM_eq_some_iff, Approximation.pairs, Approximation.pairs, finite, List.zip_map_right,
      List.forall₂_map_left_iff, List.forall₂_map_right_iff, List.forall₂_same]
    intro p _
    simp only [pairOfJson?, Json.unescape?_escape, valueOfJson?_ofFloat, Option.bind_eq_bind,
      Option.bind_some, String.ofList_toList]
    rfl
  have digits : (Nat.toDigits 10 s.iteration).all Char.isDigit = true :=
    List.all_eq_true.mpr (Decimal.toDigits_isDigit _)
  have first : Json.unescape? "iteration".toList = some "iteration".toList := by decide
  have second : Json.unescape? "approximation".toList = some "approximation".toList := by decide
  have read : s.finite.IsTotal := total.trans (List.length_map _).symm
  simp only [json, Approximation.json, ofJson?, Json.ofNat, first, second, digits, members,
    and_self, ↓reduceIte, Option.map_some, Decimal.natOfDigits_toDigits]
  exact congrArg some (ofPairs_pairs read)

theorem printable_json (s : Snapshot Float) : Json.Printable s.json := by
  have members : Json.Printable s.approximation.json := by
    refine .object ?_ ?_
    · intro m mem
      obtain ⟨p, _, rfl⟩ := List.mem_map.mp mem
      exact Json.isQuotable_escape _
    · intro m mem
      obtain ⟨p, _, rfl⟩ := List.mem_map.mp mem
      exact Json.printable_ofFloat _
  refine .object ?_ ?_
  · rw [List.forall_mem_cons, List.forall_mem_singleton]
    exact ⟨Json.isQuotable_escape "iteration".toList, Json.isQuotable_escape "approximation".toList⟩
  · rw [List.forall_mem_cons, List.forall_mem_singleton]
    exact ⟨Json.printable_ofNat _, members⟩

end Snapshot

/-! ## Different sweeps -/

namespace Snapshot

variable {s s' : Snapshot Float}

theorem text_inj (total : s.IsTotal) (letters : ∀ symbol ∈ s.approximation.symbols, Lettered symbol)
    (total' : s'.IsTotal) (letters' : ∀ symbol ∈ s'.approximation.symbols, Lettered symbol)
    (h : s.text = s'.text) : s = s' := by
  have read := ofText?_text total letters
  rw [h, ofText?_text total' letters', Option.some.injEq] at read
  exact read.symm

theorem finite_eq_map (finite : ∀ x ∈ s.approximation.values, x.isFinite = true) :
    s.finite = ⟨s.iteration, s.approximation.symbols, s.approximation.values.map some⟩ := by
  have values : s.approximation.values.map (fun x => if x.isFinite then some x else none)
      = s.approximation.values.map some := by
    apply List.map_congr_left
    intro x hx
    rw [if_pos (finite x hx)]
  rw [Snapshot.finite, values]

theorem finite_inj (finite : ∀ x ∈ s.approximation.values, x.isFinite = true)
    (finite' : ∀ x ∈ s'.approximation.values, x.isFinite = true) (h : s.finite = s'.finite) :
    s = s' := by
  rw [finite_eq_map finite, finite_eq_map finite', Snapshot.mk.injEq, Approximation.mk.injEq] at h
  obtain ⟨iteration, symbols, mapped⟩ := h
  have values := List.map_injective_iff.mpr (Option.some_injective Float) mapped
  calc s = ⟨s.iteration, s.approximation.symbols, s.approximation.values⟩ := rfl
    _ = s' := by rw [iteration, symbols, values]

theorem compact_inj (total : s.IsTotal)
    (finite : ∀ x ∈ s.approximation.values, x.isFinite = true) (total' : s'.IsTotal)
    (finite' : ∀ x ∈ s'.approximation.values, x.isFinite = true)
    (h : s.json.compact = s'.json.compact) : s = s' := by
  have texts : Json.print .compact s.json = Json.print .compact s'.json := String.ofList_injective h
  have json : s.json = s'.json := by
    have read := Json.parse?_print s.printable_json .compact
    rw [texts, Json.parse?_print s'.printable_json, Option.some.injEq] at read
    exact read.symm
  have shown : s.finite = s'.finite := by
    have read := ofJson?_json s total
    rw [json, ofJson?_json s' total', Option.some.injEq] at read
    exact read.symm
  exact finite_inj finite finite' shown

/-- **Reports are unambiguous.** Two sweeps have the same line of text only if they have the same
number, the same variables in the same order and the same floats, however many. So have sweeps with
the same compact JSON, if all their values are finite. As in every run, each variable is a word of
letters and has a value. -/
theorem reports_unambiguous (total : s.IsTotal) (total' : s'.IsTotal)
    (letters : ∀ symbol ∈ s.approximation.symbols, Lettered symbol)
    (letters' : ∀ symbol ∈ s'.approximation.symbols, Lettered symbol) :
    (s.text = s'.text ↔ s = s') ∧
    ((∀ x ∈ s.approximation.values, x.isFinite = true) →
      (∀ x ∈ s'.approximation.values, x.isFinite = true) →
        (s.json.compact = s'.json.compact ↔ s = s')) := by
  constructor
  · exact ⟨text_inj total letters total' letters', congrArg text⟩
  · intro finite finite'
    exact ⟨compact_inj total finite total' finite', congrArg fun s : Snapshot Float => s.json.compact⟩

/-- The variables `e` and `inf` with two values. -/
def numeric (x y : Float) : Snapshot Float :=
  ⟨3, ⟨["e", "inf"], [x, y]⟩⟩

/-- Even the sign of a zero is shown. -/
theorem numeric_reports_unambiguous :
    let s := numeric (.ofBits 0) (.ofBits 0x40F86A0000000000)
    let s' := numeric (.ofBits 0x8000000000000000) (.ofBits 0x40F86A0000000000)
    s.text ≠ s'.text ∧ s.json.compact ≠ s'.json.compact := by
  intro s s'
  have letters : ∀ symbol ∈ ["e", "inf"], Lettered symbol := by decide
  have different : s ≠ s' := by decide
  have total (x y : Float) : (numeric x y).IsTotal := rfl
  obtain ⟨text, json⟩ := reports_unambiguous (total _ _) (total _ _) letters letters
  exact ⟨mt text.mp different, mt (json (by decide) (by decide)).mp different⟩

end Snapshot

end Seidel
