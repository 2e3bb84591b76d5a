import Seidel.Text.Blank

/-!
Equations as lines of plain text, up to the first blank line or the end of the input. What follows
the first blank line is not looked at, not even to see whether it is text.
-/

namespace Seidel.Lines

/-- The lines of an input, without the line feeds. -/
def lines (bytes : List UInt8) : List (List UInt8) :=
  bytes.splitOn 10

/-- The text of a line, none when it is not UTF-8. -/
def decode? (line : List UInt8) : Option (List Char) :=
  (String.fromUTF8? ⟨line.toArray⟩).map fun s => Text.trim s.toList

/-- The trimmed lines before the first blank one; none when a line before it is not UTF-8. -/
def beforeBlank? : List (List UInt8) → Option (List String)
  | [] => some []
  | line :: rest =>
    match decode? line with
    | none => none
    | some [] => some []
    | some cs => (beforeBlank? rest).map (String.ofList cs :: ·)

/-- The equations at the start of an input. -/
def equations? (bytes : ByteArray) : Option (List String) :=
  beforeBlank? (lines bytes.data.toList)

/-- Whether some finished line is blank, so that nothing more of the input is needed. -/
def isComplete (bytes : ByteArray) : Bool :=
  (lines bytes.data.toList).dropLast.any fun line => decode? line == some []

end Seidel.Lines
