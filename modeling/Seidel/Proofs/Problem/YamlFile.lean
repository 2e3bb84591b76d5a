import Seidel.Proofs.Decimal.Whole
import Seidel.Proofs.Problem.Files
import Seidel.Proofs.System.Rows
import Seidel.Proofs.Yaml.Lines
import Seidel.Proofs.Yaml.Nodes

/-!
# Problems survive YAML files

What is saved of a problem with equations is the text of a flat mapping (`tokens?_printYaml`). Each
of its parts means again what it was written for, because a text that is written plain means nothing
else, and the digits of a number are no padded number. A valid problem has equations, so it is
loaded as the same problem (`saveAs_yaml_loads`).
-/

namespace Seidel

/-! ## Whole numbers -/

namespace Yaml

theorem digitValue?_of_isDigit {c : Char} (h : c.isDigit = true) :
    digitValue? c = some (c.toNat - 48) ∧ c.toNat - 48 < 10 := by
  refine ⟨if_pos h, ?_⟩
  have upper : c.toNat ≤ 57 := (Char.isDigit_iff_toNat.mp h).2
  omega

theorem natOfDigits?_digits {cs : List Char} (digits : ∀ c ∈ cs, c.isDigit = true)
    (nonempty : cs ≠ []) : natOfDigits? 10 cs = some (Decimal.natOfDigits cs) := by
  have fold (start : Nat) : cs.foldlM (fun n c => (digitValue? c).bind fun d =>
      if d < 10 then some (n * 10 + d) else none) start = some (Nat.ofDigitChars 10 cs start) := by
    clear nonempty
    induction cs generalizing start with
    | nil => rfl
    | cons c cs ih =>
      obtain ⟨head, later⟩ := List.forall_mem_cons.mp digits
      obtain ⟨value, small⟩ := digitValue?_of_isDigit head
      rw [List.foldlM_cons, value, Option.bind_some, if_pos small, Nat.ofDigitChars_cons,
        Nat.mul_comm 10]
      exact ih later _
  rw [natOfDigits?, if_neg nonempty]
  exact fold 0

/-- Digits start with no sign, and with no zero unless they are one. -/
theorem natOfWord?_toDigits (n : Nat) : natOfWord? (Nat.toDigits 10 n) = some n := by
  obtain ⟨c, cs, eq, digit⟩ := Decimal.exists_toDigits n
  have zero := Decimal.toDigits_of_head_zero (n := n)
  have decimal := natOfDigits?_digits (Decimal.toDigits_isDigit n) Nat.toDigits_ne_nil
  rw [Decimal.natOfDigits_toDigits] at decimal
  rw [eq] at zero decimal ⊢
  by_cases isZero : c = '0'
  · subst isZero
    rw [zero rfl] at decimal ⊢
    exact decimal
  · have notPlus : c ≠ '+' := by
      rintro rfl
      cases digit
    have notMinus : c ≠ '-' := by
      rintro rfl
      cases digit
    have unsigned : dropPlus (c :: cs) = c :: cs := by simp [dropPlus, notPlus]
    have unmarked : natOfMarked? (c :: cs) = none := by simp [natOfMarked?, isZero]
    have unpadded : isPaddedNumber (c :: cs) = false := by
      simp [isPaddedNumber, dropSign, notPlus, notMinus, isZero]
    rw [natOfWord?, unsigned, unmarked, unpadded]
    exact decimal

end Yaml

namespace Problem

open Yaml Yaml.Lexer

/-! ## The printed mapping -/

/-- A text as it is read from a scalar that it was written to. -/
def leafOf (s : String) : Leaf :=
  ⟨ScalarStyle.of s.toList, s.toList⟩

/-- The entries of a problem with at least one equation. -/
def flatEntries (name : Option String) (iterations : UInt64) (first : String)
    (later : List String) : List FlatEntry :=
  (name.toList.map fun name => ("name".toList, .scalar (leafOf name)))
    ++ [("iterations".toList, .scalar ⟨.plain, Nat.toDigits 10 iterations.toNat⟩),
      ("equations".toList, .items (leafOf first) (later.map leafOf))]

/-- What is written from the count on. -/
def countedText (iterations : UInt64) (items : List (List Char)) : List Char :=
  "iterations".toList ++ ':' :: ' ' :: (Nat.toDigits 10 iterations.toNat ++ '\n' ::
    ("equations".toList ++ ':' :: '\n' :: items.flatMap fun cs => '-' :: ' ' :: scalarText cs))

theorem isKey_iterations : IsKey "iterations".toList := by
  constructor <;> decide

theorem isKey_equations : IsKey "equations".toList := by
  constructor <;> decide

theorem isKey_name : IsKey "name".toList := by
  constructor <;> decide

theorem isAlphanum_of_mem_toDigits {c : Char} {n : Nat} (h : c ∈ Nat.toDigits 10 n) :
    c.isAlphanum = true := by
  rw [Char.isAlphanum, Decimal.toDigits_isDigit n c h, Bool.or_true]

/-- The count may be the first entry or follow the name. -/
theorem ends_countedText (iterations : UInt64) (items : List (List Char)) {blocks : List Nat}
    (margin : blocks = [] ∨ blocks = [0]) (line : Nat) (tokens : List Yaml.Token) :
    (⟨⟨⟨line, 0⟩, countedText iterations items⟩, blocks, true, none, [], tokens⟩ : Lexer).Ends
      (tokens.reverse ++ (opening blocks).reverse
        ++ .scalar .plain "iterations".toList :: .value ::
          .scalar .plain (Nat.toDigits 10 iterations.toNat) :: .key ::
          .scalar .plain "equations".toList :: .value ::
          (items.flatMap fun cs => [.blockEntry, .scalar (ScalarStyle.of cs) cs])
        ++ [.blockEnd]) := by
  refine ends_word isKey_iterations Nat.toDigits_ne_nil (fun _ => isAlphanum_of_mem_toDigits)
    (isKey_equations.startsLine _) margin fun line =>
    ends_sequence isKey_equations (startsLine_items items) (.inr rfl) fun line => ?_
  have ends := ends_items items line (.value :: .scalar .plain "equations".toList :: .key ::
    .scalar .plain (Nat.toDigits 10 iterations.toNat) :: .value ::
    .scalar .plain "iterations".toList :: (opening blocks ++ tokens))
  simpa [opening] using ends

def nameLine : Option String → List Char
  | some name => "name".toList ++ ':' :: ' ' :: scalarText name.toList
  | none => []

variable (name : Option String) (iterations : UInt64) (first : String) (later : List String)

theorem toList_printYaml : (printYaml ⟨name, iterations, first :: later⟩).toList
    = nameLine name ++ countedText iterations ((first :: later).map String.toList) := by
  have present : ((first :: later).flatMap fun e => '-' :: ' ' :: scalarText e.toList) ≠ [] :=
    List.cons_ne_nil _ _
  have named : "name: ".toList = "name".toList ++ [':', ' '] := by decide
  have counted : "iterations: ".toList = "iterations".toList ++ [':', ' '] := by decide
  have listed : "\nequations:\n".toList = '\n' :: ("equations".toList ++ [':', '\n']) := by decide
  unfold printYaml countedText nameLine
  rw [named, counted, listed]
  -- From here on the keys may be any text.
  generalize "name".toList = nameKey
  generalize "iterations".toList = countKey
  generalize "equations".toList = listKey
  simp only [if_neg present, String.toList_ofList, List.flatMap_map]
  cases name with
  | none => simp only [List.append_assoc, List.cons_append, List.nil_append]
  | some name => simp only [List.append_assoc, List.cons_append, List.nil_append]

theorem uniform_entry {key text : List Char} (isKey : IsKey key) {c : Char} (blank : IsUniform c)
    (h : Uniform text) : Uniform (key ++ ':' :: c :: text) :=
  uniform_append.mpr ⟨fun d hd => isUniform_of_isAlphanum (List.all_eq_true.mp isKey.chars d hd),
    uniform_cons.mpr ⟨by decide, uniform_cons.mpr ⟨blank, h⟩⟩⟩

theorem uniform_printYaml : Uniform (printYaml ⟨name, iterations, first :: later⟩).toList := by
  have named : Uniform (nameLine name) := by
    cases name with
    | none => exact nofun
    | some name => exact uniform_entry isKey_name (by decide) (uniform_scalarText _)
  have digits : Uniform (Nat.toDigits 10 iterations.toNat) := fun c hc =>
    isUniform_of_isAlphanum (isAlphanum_of_mem_toDigits hc)
  have items : Uniform (((first :: later).map String.toList).flatMap
      fun cs => '-' :: ' ' :: scalarText cs) := uniform_flatMap fun cs _ =>
    uniform_cons.mpr ⟨by decide, uniform_cons.mpr ⟨by decide, uniform_scalarText cs⟩⟩
  rw [toList_printYaml]
  exact uniform_append.mpr ⟨named, uniform_entry isKey_iterations (by decide)
    (uniform_append.mpr ⟨digits, uniform_cons.mpr ⟨by decide,
      uniform_entry isKey_equations (by decide) items⟩⟩)⟩

/-- The tokens of a printed problem are those of its entries. -/
theorem tokens?_printYaml : tokens? (printYaml ⟨name, iterations, first :: later⟩).toList
    = some (.blockMappingStart ::
      ((flatEntries name iterations first later).flatMap FlatEntry.tokens ++ [.blockEnd])) := by
  have uniform := uniform_printYaml name iterations first later
  rw [tokens?, if_pos (all_isAllowed uniform), unifyBreaks_eq uniform, toList_printYaml]
  suffices ends : (start (nameLine name
      ++ countedText iterations ((first :: later).map String.toList))).Ends
      (.blockMappingStart :: ((flatEntries name iterations first later).flatMap FlatEntry.tokens
        ++ [.blockEnd])) from ends _ (Nat.lt_succ_self _)
  have leaves : (((first :: later).map String.toList).flatMap
      fun cs => [.blockEntry, .scalar (ScalarStyle.of cs) cs])
      = itemTokens (leafOf first :: later.map leafOf) ++ [] := by
    rw [itemTokens, ← List.map_cons, List.flatMap_map, List.flatMap_map, List.append_nil]
    rfl
  cases name with
  | none =>
    have ends := ends_countedText iterations ((first :: later).map String.toList) (.inl rfl) 0 []
    rw [leaves] at ends
    exact ends
  | some name =>
    refine ends_text isKey_name name.toList (isKey_iterations.startsLine _) (.inl rfl) ?_
    intro line
    have ends := ends_countedText iterations ((first :: later).map String.toList) (.inr rfl) line
      (.scalar (ScalarStyle.of name.toList) name.toList :: .value :: .scalar .plain "name".toList ::
        opening [])
    rw [leaves] at ends
    exact ends

/-! ## What the mapping means -/

theorem textOfNode?_leafOf (s : String) : textOfNode? (leafOf s).node = some s :=
  congrArg some String.ofList_toList

theorem isReserved_of_plain {cs : List Char} (plain : ScalarStyle.of cs = .plain) :
    isReserved cs = false := by
  rcases ScalarStyle.of_cases cs with ⟨_, notReserved, _⟩ | ⟨style, _⟩ | ⟨style, _⟩ | style
  · exact notReserved
  all_goals
    rw [style] at plain
    cases plain

/-- Text that is written plain is no word for nothing. -/
theorem nameOfNode?_leafOf (s : String) : nameOfNode? (leafOf s).node = some (some s) := by
  have text := textOfNode?_leafOf s
  unfold leafOf Leaf.node at text ⊢
  cases style : ScalarStyle.of s.toList with
  | plain =>
    have notReserved := isReserved_of_plain style
    simp only [isReserved, Bool.or_eq_false_iff, decide_eq_false_iff_not] at notReserved
    have notNull : ¬ (s.toList = [] ∨ isNullWord s.toList = true) := by
      simp [notReserved]
    simp only [nameOfNode?, if_neg notNull, String.ofList_toList]
  | _ =>
    rw [style] at text
    exact congrArg (Option.map some) text

theorem iterationsOfNode?_toDigits (n : UInt64) :
    iterationsOfNode? (Leaf.node ⟨.plain, Nat.toDigits 10 n.toNat⟩) = some n := by
  simp only [Leaf.node, iterationsOfNode?, true_or, ↓reduceIte, natOfWord?_toDigits,
    Option.bind_some]
  rw [if_pos n.toNat_lt, UInt64.ofNat_toNat]

theorem equationsOfNode?_leaves (d : Document) (equations : List String) :
    equationsOfNode? d (.sequence {} ((equations.map leafOf).map Leaf.node)) = some equations := by
  apply mapM_eq_some_iff.mpr
  rw [List.map_map, List.forall₂_map_left_iff, List.forall₂_same]
  exact fun s _ => textOfNode?_leafOf s

/-- The values of a flat mapping by the texts of their keys. -/
def valuesOf (entries : List FlatEntry) : List (String × Node Nat) :=
  entries.map fun entry => (String.ofList entry.1, entry.2.node)

theorem mapM_nodes (d : Document) (entries : List FlatEntry) :
    ((entries.map FlatEntry.nodes).mapM fun (key, value) =>
      ((d.target? key).bind textOfNode?).map (·, value)) = some (valuesOf entries) := by
  apply mapM_eq_some_iff.mpr
  rw [List.forall₂_map_left_iff, valuesOf, List.forall₂_map_right_iff, List.forall₂_same]
  exact fun _ _ => rfl

/-- A problem is made of the values of its three keys; none of them has to be looked up. -/
theorem ofDocument?_flat {d : Document} {entries : List FlatEntry}
    (root : d.root = .mapping {} (entries.map FlatEntry.nodes)) {called counted listed : Node Nat}
    (nameValue : valueOf? (valuesOf entries) "name" (some .empty) = some called)
    (countValue : valueOf? (valuesOf entries) "iterations" (some (.scalar {} .plain ['1', '0']))
      = some counted)
    (listValue : valueOf? (valuesOf entries) "equations" none = some listed)
    (direct : ∀ n ∈ [called, counted, listed], d.target? n = some n) {p : Problem}
    (readName : nameOfNode? called = some p.name)
    (readIterations : iterationsOfNode? counted = some p.iterations)
    (readEquations : equationsOfNode? d listed = some p.equations) : ofDocument? d = some p := by
  simp only [List.forall_mem_cons] at direct
  simp only [ofDocument?, root, mapM_nodes, nameValue, countValue, listValue, direct, readName,
    readIterations, readEquations, Option.bind_eq_bind, Option.bind_some]

/-- A missing name stays missing. -/
theorem ofDocument?_flatEntries :
    ofDocument? ⟨.mapping {} ((flatEntries name iterations first later).map FlatEntry.nodes), []⟩
      = some ⟨name, iterations, first :: later⟩ := by
  have readName : nameOfNode? ((name.map fun name => (leafOf name).node).getD .empty)
      = some name := by
    cases name with
    | none => rfl
    | some name => exact nameOfNode?_leafOf name
  refine ofDocument?_flat rfl ?_ ?_ ?_ ?_ readName (iterationsOfNode?_toDigits iterations)
    (equationsOfNode?_leaves _ (first :: later))
  · cases name <;> rfl
  · cases name <;> rfl
  · cases name <;> rfl
  · rintro n (_ | ⟨_, _ | ⟨_, _ | ⟨_, ⟨⟩⟩⟩⟩)
    · cases name <;> rfl
    · rfl
    · rfl

theorem parseYaml?_printYaml : parseYaml? (printYaml ⟨name, iterations, first :: later⟩)
    = some ⟨name, iterations, first :: later⟩ := by
  unfold parseYaml?
  rw [tokens?_printYaml]
  simp only [Option.bind_eq_bind, Option.bind_some, document?_mapping, resolve?_mapping]
  exact ofDocument?_flatEntries name iterations first later

/-! ## Files -/

theorem equations_of_valid {p : Problem} (valid : p.validate = .ok ()) :
    ∃ first later, p.equations = first :: later := by
  apply List.exists_cons_of_ne_nil
  intro none
  rw [validate, if_pos none] at valid
  cases valid

/-- **YAML files keep problems.** A valid problem can be saved over anything, and what is saved is
loaded as the same problem, whatever its texts look like. An invalid problem is refused, and the
file stays as it was. -/
theorem saveAs_yaml_loads (p : Problem) (content : Option ByteArray) :
    match p.validate with
    | .ok () => ∃ bytes, p.saveAs .yaml content = (.ok (), some bytes)
        ∧ loadAs .yaml (.ok bytes) = .ok p
    | .error cause => p.saveAs .yaml content = (.error cause, content) := by
  refine saveAs_loads .yaml (fun valid => ?_) content
  obtain ⟨name, iterations, equations⟩ := p
  obtain ⟨first, later, rfl⟩ := equations_of_valid valid
  exact parseYaml?_printYaml name iterations first later

end Problem

end Seidel
