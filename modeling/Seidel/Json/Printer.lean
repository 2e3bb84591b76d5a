import Seidel.Json.Basic

/-!
JSON as text, either with nothing between the tokens or on indented lines.
-/

namespace Seidel.Json

/-- Where lines begin: nowhere, or at a depth that is indented two blanks for each level. -/
inductive Spacing
  | compact
  | indented (depth : Nat)
  deriving DecidableEq, Repr

/-- The beginning of the next line. -/
def Spacing.newline : Spacing → List Char
  | .compact => []
  | .indented depth => '\n' :: List.replicate (2 * depth) ' '

/-- One level deeper. -/
def Spacing.inner : Spacing → Spacing
  | .compact => .compact
  | .indented depth => .indented (depth + 1)

/-- What separates a name from its value. -/
def Spacing.colon : Spacing → List Char
  | .compact => [':']
  | .indented _ => [':', ' ']

mutual

/-- The text of a value. -/
def print (spacing : Spacing) : Json → List Char
  | .null => ['n', 'u', 'l', 'l']
  | .bool true => ['t', 'r', 'u', 'e']
  | .bool false => ['f', 'a', 'l', 's', 'e']
  | .number literal => literal
  | .string inner => '"' :: (inner ++ ['"'])
  | .array [] => ['[', ']']
  | .array (item :: items) =>
    '[' :: (spacing.inner.newline ++ print spacing.inner item
      ++ printItems spacing.inner items ++ spacing.newline ++ [']'])
  | .object [] => ['{', '}']
  | .object ((name, value) :: members) =>
    '{' :: (spacing.inner.newline ++ '"' :: (name ++ '"' :: (spacing.colon
      ++ print spacing.inner value)) ++ printMembers spacing.inner members
      ++ spacing.newline ++ ['}'])

/-- The items after the first. -/
def printItems (spacing : Spacing) : List Json → List Char
  | [] => []
  | item :: items =>
    ',' :: (spacing.newline ++ print spacing item ++ printItems spacing items)

/-- The members after the first. -/
def printMembers (spacing : Spacing) : List (List Char × Json) → List Char
  | [] => []
  | (name, value) :: members =>
    ',' :: (spacing.newline ++ '"' :: (name ++ '"' :: (spacing.colon ++ print spacing value))
      ++ printMembers spacing members)

end

/-- The text on one line. -/
def compact (j : Json) : String :=
  String.ofList (j.print .compact)

/-- The text on indented lines. -/
def pretty (j : Json) : String :=
  String.ofList (j.print (.indented 0))

end Seidel.Json
