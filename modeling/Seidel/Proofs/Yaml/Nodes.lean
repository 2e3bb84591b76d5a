import Seidel.Yaml.Anchor

/-!
# Flat mappings

The tokens of a block mapping whose keys are plain words and whose values are scalars, or sequences
of scalars that are not indented, are put together to this mapping (`document?_mapping`). Without
anchors in it nothing has to be looked up (`resolve?_mapping`).
-/

namespace Seidel.Yaml

/-- A scalar without properties. -/
structure Leaf where
  style : ScalarStyle
  text : List Char

namespace Leaf

def token (leaf : Leaf) : Token := .scalar leaf.style leaf.text

def node {α : Type} (leaf : Leaf) : Node α := .scalar {} leaf.style leaf.text

end Leaf

/-- The tokens of a sequence that is not indented. -/
def itemTokens (items : List Leaf) : List Token :=
  items.flatMap fun item => [.blockEntry, item.token]

theorem itemTokens_cons (item : Leaf) (items : List Leaf) :
    itemTokens (item :: items) = .blockEntry :: item.token :: itemTokens items := rfl

theorem length_itemTokens (items : List Leaf) : (itemTokens items).length = 2 * items.length := by
  induction items with
  | nil => rfl
  | cons item items ih =>
    rw [itemTokens_cons, List.length_cons, List.length_cons, ih, List.length_cons]
    omega

/-- A value in a flat mapping. -/
inductive FlatValue
  | scalar (content : Leaf)
  | items (first : Leaf) (later : List Leaf)

namespace FlatValue

def tokens : FlatValue → List Token
  | scalar content => [content.token]
  | items first later => itemTokens (first :: later)

def node {α : Type} : FlatValue → Node α
  | scalar content => content.node
  | items first later => .sequence {} ((first :: later).map Leaf.node)

end FlatValue

/-- A key with its value. -/
abbrev FlatEntry := List Char × FlatValue

namespace FlatEntry

def tokens (entry : FlatEntry) : List Token :=
  .key :: .scalar .plain entry.1 :: .value :: entry.2.tokens

def nodes {α : Type} (entry : FlatEntry) : Node α × Node α :=
  (.scalar {} .plain entry.1, entry.2.node)

end FlatEntry

/-! ## From tokens to nodes -/

variable (handles : Handles) {fuel : Nat} {rest : List Token}

theorem ofTokens?_leaf (place : Place) (leaf : Leaf) (rest : List Token) :
    Node.ofTokens? handles place (fuel + 1) (leaf.token :: rest) = some (leaf.node, rest) := by
  simp [Node.ofTokens?, Leaf.token, properties?, Leaf.node]

theorem indentlessItems?_cons (item : Leaf) (rest : List Token) :
    indentlessItems? handles (fuel + 2) (.blockEntry :: item.token :: rest)
      = (indentlessItems? handles (fuel + 1) rest).bind
        fun (items, rest) => some (item.node :: items, rest) := by
  have present : endsIndentlessItem (item.token :: rest) = false := rfl
  rw [indentlessItems?, if_neg (by rw [present]; exact Bool.false_ne_true), ofTokens?_leaf]
  rfl

theorem indentlessItems?_leaves {items : List Leaf} (enough : items.length < fuel)
    (ends : endsEntry rest = true) :
    indentlessItems? handles fuel (itemTokens items ++ rest)
      = some (items.map Leaf.node, rest) := by
  induction items generalizing fuel with
  | nil =>
    obtain ⟨fuel, rfl⟩ := Nat.exists_eq_succ_of_ne_zero (Nat.ne_zero_of_lt enough)
    change indentlessItems? handles (fuel + 1) rest = _
    rw [indentlessItems?]
    · rfl
    · rintro _ rfl
      cases ends
  | cons item items ih =>
    rw [List.length_cons] at enough
    match fuel with
    | fuel + 2 =>
      refine (indentlessItems?_cons handles item (itemTokens items ++ rest)).trans ?_
      rw [ih (by omega)]
      rfl

theorem blockValue?_present {ts : List Token} (present : endsEntry ts = false) :
    blockValue? handles (fuel + 1) (.value :: ts) = Node.ofTokens? handles .entry fuel ts := by
  rw [blockValue?, if_neg (by rw [present]; exact Bool.false_ne_true)]

theorem blockValue?_flat {value : FlatValue} (enough : value.tokens.length + 2 < fuel)
    (ends : endsEntry rest = true) :
    blockValue? handles fuel (.value :: (value.tokens ++ rest)) = some (value.node, rest) := by
  match fuel with
  | fuel + 2 =>
    cases value with
    | scalar content =>
      exact (blockValue?_present handles rfl).trans (ofTokens?_leaf handles .entry content rest)
    | items first later =>
      have short : (first :: later).length < fuel := by
        change (itemTokens (first :: later)).length + 2 < fuel + 2 at enough
        rw [length_itemTokens] at enough
        omega
      have read := indentlessItems?_leaves handles short ends
      have sequence : Node.ofTokens? handles .entry (fuel + 1) (itemTokens (first :: later) ++ rest)
          = (indentlessItems? handles fuel (itemTokens (first :: later) ++ rest)).bind
            fun (items, rest) => some (.sequence {} items, rest) := rfl
      refine (blockValue?_present handles rfl).trans (sequence.trans ?_)
      rw [read]
      rfl

theorem blockEntries?_cons (key : List Char) (ts : List Token) :
    blockEntries? handles (fuel + 2) (.key :: .scalar .plain key :: ts)
      = (blockValue? handles (fuel + 1) ts).bind fun (value, rest) =>
        (blockEntries? handles (fuel + 1) rest).bind fun (entries, rest) =>
          some ((.scalar {} .plain key, value) :: entries, rest) := by
  have read : Node.ofTokens? handles .entry (fuel + 1) (.scalar .plain key :: ts)
      = some (.scalar {} .plain key, ts) := ofTokens?_leaf handles .entry ⟨.plain, key⟩ ts
  have present : endsEntry (.scalar .plain key :: ts) = false := rfl
  rw [blockEntries?, if_neg (by rw [present]; exact Bool.false_ne_true), read]
  rfl

theorem blockEntries?_flat (rest : List Token) {entries : List FlatEntry}
    (enough : (entries.flatMap FlatEntry.tokens).length + 2 < fuel) :
    blockEntries? handles fuel (entries.flatMap FlatEntry.tokens ++ .blockEnd :: rest)
      = some (entries.map FlatEntry.nodes, rest) := by
  induction entries generalizing fuel with
  | nil =>
    obtain ⟨fuel, rfl⟩ := Nat.exists_eq_succ_of_ne_zero (Nat.ne_zero_of_lt enough)
    rfl
  | cons entry entries ih =>
    rw [List.flatMap_cons, List.length_append] at enough
    obtain ⟨key, value⟩ := entry
    have length : (FlatEntry.tokens (key, value)).length = value.tokens.length + 3 := rfl
    rw [length] at enough
    have ends : endsEntry (entries.flatMap FlatEntry.tokens ++ .blockEnd :: rest) = true := by
      cases entries <;> rfl
    match fuel with
    | fuel + 2 =>
      have first : blockValue? handles (fuel + 1) (.value :: (value.tokens
          ++ (entries.flatMap FlatEntry.tokens ++ .blockEnd :: rest)))
          = some (value.node, entries.flatMap FlatEntry.tokens ++ .blockEnd :: rest) :=
        blockValue?_flat handles (by omega) ends
      have later : blockEntries? handles (fuel + 1)
          (entries.flatMap FlatEntry.tokens ++ .blockEnd :: rest)
          = some (entries.map FlatEntry.nodes, rest) := ih (by omega)
      rw [List.flatMap_cons, List.append_assoc]
      refine (blockEntries?_cons handles key (.value :: (value.tokens
        ++ (entries.flatMap FlatEntry.tokens ++ .blockEnd :: rest)))).trans ?_
      simp only [first, later, Option.bind_some]
      rfl

theorem ofTokens?_mapping (ts : List Token) :
    Node.ofTokens? handles .block (fuel + 1) (.blockMappingStart :: ts)
      = (blockEntries? handles fuel ts).bind fun (entries, rest) =>
        some (.mapping {} entries, rest) := rfl

/-- The tokens of a flat mapping are put together to it. -/
theorem document?_mapping (entries : List FlatEntry) :
    document? (.blockMappingStart :: (entries.flatMap FlatEntry.tokens ++ [.blockEnd]))
      = some (.mapping {} (entries.map FlatEntry.nodes)) := by
  have enough : (entries.flatMap FlatEntry.tokens).length + 2
      < 2 * (entries.flatMap FlatEntry.tokens ++ [Token.blockEnd]).length + 3 := by
    rw [List.length_append]
    omega
  have read := blockEntries?_flat defaultHandles [] enough
  have implicit (ts : List Token) : document? (.blockMappingStart :: ts)
      = (Node.ofTokens? defaultHandles .block (2 * ts.length + 3 + 1)
          (.blockMappingStart :: ts)).bind
        fun (root, rest) => if rest.all (· == .documentEnd) then some root else none := rfl
  rw [implicit, ofTokens?_mapping, read]
  rfl

/-! ## Without anchors -/

theorem resolveItems?_leaves (a : Anchors) (items : List Leaf) :
    resolveItems? a (items.map Leaf.node) = some (items.map Leaf.node, [], a) := by
  induction items with
  | nil => rfl
  | cons item items ih =>
    have first : Node.resolve? a item.node = some (item.node, [], a) := rfl
    simp only [List.map_cons, resolveItems?, first, ih, Option.bind_eq_bind, Option.bind_some]
    rfl

theorem resolve?_flat (a : Anchors) (value : FlatValue) :
    Node.resolve? a value.node = some (value.node, [], a) := by
  cases value with
  | scalar content => rfl
  | items first later =>
    have items := resolveItems?_leaves a (first :: later)
    simp only [FlatValue.node, Node.resolve?, Anchors.add, items]
    rfl

theorem resolveEntries?_flat (a : Anchors) (entries : List FlatEntry) :
    resolveEntries? a (entries.map FlatEntry.nodes)
      = some (entries.map FlatEntry.nodes, [], a) := by
  induction entries with
  | nil => rfl
  | cons entry entries ih =>
    have key : Node.resolve? a (.scalar {} .plain entry.1)
        = some (.scalar {} .plain entry.1, [], a) := rfl
    rw [List.map_cons, FlatEntry.nodes, resolveEntries?]
    simp only [key, resolve?_flat, ih, Option.bind_eq_bind, Option.bind_some]
    rfl

theorem resolve?_mapping (entries : List FlatEntry) :
    Node.resolve? {} (.mapping {} (entries.map FlatEntry.nodes))
      = some (.mapping {} (entries.map FlatEntry.nodes), [], {}) := by
  simp only [Node.resolve?, Anchors.add, resolveEntries?_flat]
  rfl

end Seidel.Yaml
