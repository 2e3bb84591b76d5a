import Seidel.Problem.Basic
import Seidel.Yaml.Anchor
import Seidel.Yaml.Lexer
import Seidel.Yaml.Printer

/-!
Problems as YAML: a mapping with the keys `name`, `iterations` and `equations`, of which only the
last is required. Other keys are ignored. Any scalar is text where text is wanted.
-/

namespace Seidel.Problem

open Yaml

def nullTag : List Char := "tag:yaml.org,2002:null".toList

def integerTag : List Char := "tag:yaml.org,2002:int".toList

/-- The text of a scalar, whatever its style and tag. -/
def textOfNode? : Node Nat → Option String
  | .scalar _ _ text => some (String.ofList text)
  | _ => none

/-- Text, or none for a plain scalar that means nothing. A plain scalar with the tag of nothing must
mean it; with another tag it is text. -/
def nameOfNode? : Node Nat → Option (Option String)
  | .scalar properties .plain text =>
    match properties.tag with
    | none => some (if text = [] ∨ isNullWord text then none else some (String.ofList text))
    | some tag =>
      if tag ≠ nullTag then some (some (String.ofList text))
      else if isNullWord text then some none
      else none
  | n => (textOfNode? n).map some

/-- A whole number below `2 ^ 64` in a plain scalar, or in a literal one with the tag of whole
numbers. -/
def iterationsOfNode? : Node Nat → Option UInt64
  | .scalar properties style text =>
    if style = .plain ∨ (style = .literal ∧ properties.tag = some integerTag) then
      (natOfWord? text).bind fun n => if n < UInt64.size then some (.ofNat n) else none
    else none
  | _ => none

/-- The texts in a sequence. An empty plain scalar is an empty sequence. -/
def equationsOfNode? (d : Document) : Node Nat → Option (List String)
  | .sequence _ items => items.mapM fun item => (d.target? item).bind textOfNode?
  | .scalar _ .plain [] => some []
  | _ => none

/-- The only value of a key, or `default` when there is none. None when there are several. -/
def valueOf? {α : Type} (entries : List (String × α)) (key : String) (default : Option α) :
    Option α :=
  match entries.filter (·.1 == key) with
  | [] => default
  | [(_, value)] => some value
  | _ => none

/-- The problem that a document describes. Every key must be text. -/
def ofDocument? (d : Document) : Option Problem :=
  match d.root with
  | .mapping _ entries => do
    let entries ← entries.mapM fun (key, value) =>
      ((d.target? key).bind textOfNode?).map (·, value)
    let name ← valueOf? entries "name" (some .empty)
    let iterations ← valueOf? entries "iterations" (some (.scalar {} .plain ['1', '0']))
    let equations ← valueOf? entries "equations" none
    some ⟨← nameOfNode? (← d.target? name), ← iterationsOfNode? (← d.target? iterations),
      ← equationsOfNode? d (← d.target? equations)⟩
  | _ => none

/-- Reads a problem. -/
def parseYaml? (source : String) : Option Problem := do
  let node ← document? (← tokens? source.toList)
  let (root, numbered, _) ← node.resolve? {}
  ofDocument? ⟨root, numbered⟩

/-- A missing name is left out. -/
def printYaml (p : Problem) : String :=
  let name := match p.name with
    | some name => "name: ".toList ++ scalarText name.toList
    | none => []
  let items := p.equations.flatMap fun e => '-' :: ' ' :: scalarText e.toList
  String.ofList (name ++ "iterations: ".toList ++ Nat.toDigits 10 p.iterations.toNat
    ++ (if items = [] then "\nequations: []\n".toList else "\nequations:\n".toList ++ items))

end Seidel.Problem
