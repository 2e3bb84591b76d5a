import Seidel.Yaml.Character

/-!
White space inside plain and quoted scalars. Blanks on one line stand for themselves; around line
breaks they are dropped, a single line feed becomes a space, and of several line feeds the first
is dropped.
-/

namespace Seidel.Yaml

/-- The white space since the last other character. -/
inductive Gap
  /-- Blanks on one line. -/
  | blanks (chars : List Char)
  /-- A first line break and the further ones. The first is empty after an escaped line break. -/
  | breaks (first further : List Char)
  deriving DecidableEq, Repr

namespace Gap

def empty : Gap := .blanks []

/-- What follows an escaped line break. -/
def escaped : Gap := .breaks [] []

/-- The gap with one more character. -/
def add : Gap → Char → Gap
  | .blanks chars, c => if isBreak c then .breaks [c] [] else .blanks (chars ++ [c])
  | .breaks first further, c =>
    if isBreak c then .breaks first (further ++ [c]) else .breaks first further

def isEmpty : Gap → Bool
  | .blanks chars => chars.isEmpty
  | .breaks .. => false

/-- Whether the gap goes over a line break. -/
def hasBreak : Gap → Bool
  | .blanks _ => false
  | .breaks .. => true

/-- What a gap between other characters stands for. -/
def text : Gap → List Char
  | .blanks chars => chars
  | .breaks first further =>
    if first = ['\n'] then (if further = [] then [' '] else further) else first ++ further

end Gap

end Seidel.Yaml
