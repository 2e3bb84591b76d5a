import Seidel.Yaml.Node

/-!
Looking up anchors. An anchor gives its node a number, the number of different names before it, and
an alias means the number that its name has at that point. When a name is given again, the next
new name gets the same number, and of nodes with one number the last one counts.
-/

namespace Seidel.Yaml

/-- The anchors of a document up to some point. -/
structure Anchors where
  /-- The number of each name, the latest first. -/
  numbers : List (List Char × Nat) := []
  /-- How many different names there are. -/
  count : Nat := 0

/-- Gives the next number to an anchor, if there is one. -/
def Anchors.add (a : Anchors) : Option (List Char) → Anchors × Option Nat
  | none => (a, none)
  | some name =>
    let count := if (a.numbers.lookup name).isSome then a.count else a.count + 1
    (⟨(name, a.count) :: a.numbers, count⟩, some a.count)

/-- Nodes with their numbers, in the order in which they start. -/
abbrev Numbered := List (Nat × Node Nat)

/-- The node itself when it has a number. -/
def numbered (number : Option Nat) (n : Node Nat) : Numbered :=
  match number with
  | some k => [(k, n)]
  | none => []

mutual

/-- The node with numbers in its aliases, the nodes in it that have numbers, and the anchors after
it. None when an alias has no anchor before it. -/
def Node.resolve? (a : Anchors) : Node (List Char) → Option (Node Nat × Numbered × Anchors)
  | .alias name => (a.numbers.lookup name).map fun k => (.alias k, [], a)
  | .scalar properties style text =>
    let (a, number) := a.add properties.anchor
    let n : Node Nat := .scalar properties style text
    some (n, numbered number n, a)
  | .sequence properties items => do
    let (a, number) := a.add properties.anchor
    let (items, inner, a) ← resolveItems? a items
    let n : Node Nat := .sequence properties items
    some (n, numbered number n ++ inner, a)
  | .mapping properties entries => do
    let (a, number) := a.add properties.anchor
    let (entries, inner, a) ← resolveEntries? a entries
    let n : Node Nat := .mapping properties entries
    some (n, numbered number n ++ inner, a)

def resolveItems? (a : Anchors) :
    List (Node (List Char)) → Option (List (Node Nat) × Numbered × Anchors)
  | [] => some ([], [], a)
  | item :: items => do
    let (item, inner, a) ← item.resolve? a
    let (items, later, a) ← resolveItems? a items
    some (item :: items, inner ++ later, a)

def resolveEntries? (a : Anchors) : List (Node (List Char) × Node (List Char)) →
    Option (List (Node Nat × Node Nat) × Numbered × Anchors)
  | [] => some ([], [], a)
  | (key, value) :: entries => do
    let (key, inKey, a) ← key.resolve? a
    let (value, inValue, a) ← value.resolve? a
    let (entries, later, a) ← resolveEntries? a entries
    some ((key, value) :: entries, inKey ++ inValue ++ later, a)

end

/-- A document with its numbered nodes. -/
structure Document where
  root : Node Nat
  numbered : Numbered

/-- Whatever an alias means: the last node with its number. Anything else means itself. -/
def Document.target? (d : Document) : Node Nat → Option (Node Nat)
  | .alias k => ((d.numbered.filter (·.1 == k)).getLast?).map Prod.snd
  | n => some n

end Seidel.Yaml
