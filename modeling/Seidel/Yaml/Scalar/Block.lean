import Seidel.Yaml.Character

/-!
Block scalars: indented lines below a header. In a literal scalar line breaks stand for themselves;
in a folded one a single line feed between lines that do not start with a blank becomes a space.
The line breaks at the end are clipped to one, stripped or kept.
-/

namespace Seidel.Yaml

/-- What happens to the line breaks at the end. -/
inductive Chomping
  | clip
  | strip
  | keep
  deriving DecidableEq, Repr

/-- The decisions in a header; the indentation is found by looking at the lines when absent. -/
structure BlockHeader where
  chomping : Chomping
  indentation : Option Nat
  deriving DecidableEq, Repr

def chomping? : List Char → Chomping × List Char
  | '+' :: cs => (.keep, cs)
  | '-' :: cs => (.strip, cs)
  | cs => (.clip, cs)

/-- An indentation indicator, if a digit comes next; none when the digit is a zero. -/
def indentation? : List Char → Option (Option Nat × List Char)
  | c :: cs =>
    if c = '0' then none
    else if c.isDigit then some (some (c.toNat - 48), cs)
    else some (none, c :: cs)
  | [] => some (none, [])

/-- Two indicators in either order, and what follows them. -/
def BlockHeader.read (cs : List Char) : Option (BlockHeader × List Char) :=
  match chomping? cs with
  | (.clip, _) => do
    let (indentation, rest) ← indentation? cs
    match indentation with
    | some _ => let (chomping, rest) := chomping? rest; some (⟨chomping, indentation⟩, rest)
    | none => some (⟨.clip, none⟩, rest)
  | (chomping, rest) => do
    let (indentation, rest) ← indentation? rest
    some (⟨chomping, indentation⟩, rest)

/-- The greatest number of spaces before the first other character of a line, over the blank lines
and the first other line; `column` spaces have been seen on this line, and `greatest` before. None
at a tab. -/
def leadingSpaces? (greatest column : Nat) : List Char → Option Nat
  | [] => some (max greatest column)
  | c :: cs =>
    if c = ' ' then leadingSpaces? greatest (column + 1) cs
    else if c = '\t' then none
    else if isBreak c then leadingSpaces? (max greatest column) 0 cs
    else some (max greatest column)

/-- What stands between the last line and the next one. -/
structure BlockGap where
  /-- The break at the end of the last line; empty before the first line. -/
  ending : List Char
  /-- The breaks of the empty lines since then. -/
  blankLines : List Char
  /-- Whether the last line started with a blank. -/
  afterBlank : Bool
  deriving DecidableEq, Repr

/-- What the gap stands for before a line that starts with a blank, or not. -/
def BlockGap.text (g : BlockGap) (folded : Bool) (startsBlank : Bool) : List Char :=
  if folded && g.ending == ['\n'] && !g.afterBlank && !startsBlank then
    (if g.blankLines = [] then [' '] else g.blankLines)
  else g.ending ++ g.blankLines

/-- What the gap after the last line stands for. -/
def BlockGap.tail (g : BlockGap) : Chomping → List Char
  | .strip => []
  | .clip => g.ending
  | .keep => g.ending ++ g.blankLines

/-- The lines of a block scalar indented by `indent`. Inside a line the gap is none; `startsBlank`
then tells how the line started. None at a tab that stands for indentation. -/
def readBlock (folded : Bool) (chomping : Chomping) (indent : Nat) (startsBlank : Bool)
    (gap : Option BlockGap) (p : Position) (cs : List Char) : Option (List Char × Cursor) :=
  match cs, gap with
  | [], none => some ([], ⟨p, []⟩)
  | [], some gap => some (gap.tail chomping, ⟨p, []⟩)
  | c :: rest, none =>
    if isBreak c then
      readBlock folded chomping indent startsBlank (some ⟨[c], [], startsBlank⟩) (p.after c) rest
    else
      (readBlock folded chomping indent startsBlank none (p.after c) rest).map
        fun (text, after) => (c :: text, after)
  | c :: rest, some gap =>
    if p.column < indent && c == ' ' then
      readBlock folded chomping indent startsBlank (some gap) (p.after c) rest
    else if p.column < indent && c == '\t' then none
    else if isBreak c then
      readBlock folded chomping indent startsBlank
        (some { gap with blankLines := gap.blankLines ++ [c] }) (p.after c) rest
    else if p.column == indent then
      (readBlock folded chomping indent (isBlank c) none (p.after c) rest).map
        fun (text, after) => (gap.text folded (isBlank c) ++ c :: text, after)
    else some (gap.tail chomping, ⟨p, c :: rest⟩)

/-- A block scalar after its indicator, in a collection at column `parent` if in any. -/
def readBlockScalar (folded : Bool) (parent : Option Nat) (c : Cursor) :
    Option (List Char × Cursor) := do
  let (header, rest) ← BlockHeader.read c.rest
  let c := (c.skip (c.rest.length - rest.length)).skipWhile isBlank
  let c := if c.rest.head? == some '#' then c.skipWhile (!isBreak ·) else c
  if !(c.rest.head?.all isBreak) then none
  else
    let c := c.skip 1
    let least := (parent.map (· + 1)).getD 0
    let indent ← match header.indentation with
      | some n => some (parent.getD 0 + n)
      | none => (leadingSpaces? 0 c.position.column c.rest).map fun n => max (max n least) 1
    readBlock folded header.chomping indent false (some ⟨[], [], false⟩) c.position c.rest

end Seidel.Yaml
