import Seidel.Yaml.Scalar.Gap

/-!
Quoted scalars. Between single quotes only the quote is special, and is written twice; between
double quotes a backslash begins an escape.
-/

namespace Seidel.Yaml

/-- Whether a mark between documents stands here, where a quoted scalar cannot have one. -/
def interrupted (p : Position) (cs : List Char) : Bool :=
  p.column == 0 && atDocumentMark cs

/-- The rest of a single-quoted scalar after a gap, and the place after its closing quote. -/
def readSingleQuoted (gap : Gap) (p : Position) : List Char → Option (List Char × Cursor)
  | [] => none
  | '\'' :: '\'' :: rest =>
    (readSingleQuoted .empty ((p.after '\'').after '\'') rest).map fun (text, after) =>
      (gap.text ++ '\'' :: text, after)
  | c :: rest =>
    if isSpace c then readSingleQuoted (gap.add c) (p.after c) rest
    else if interrupted p (c :: rest) then none
    else if c = '\'' then some (gap.text, ⟨p.after c, rest⟩)
    else (readSingleQuoted .empty (p.after c) rest).map fun (text, after) =>
      (gap.text ++ c :: text, after)

/-- The character that a backslash and one more character stand for. -/
def simpleEscape? : Char → Option Char
  | '0' => some '\x00'
  | 'a' => some '\x07'
  | 'b' => some '\x08'
  | 't' => some '\t'
  | '\t' => some '\t'
  | 'n' => some '\n'
  | 'v' => some '\x0b'
  | 'f' => some '\x0c'
  | 'r' => some '\r'
  | 'e' => some '\x1b'
  | ' ' => some ' '
  | '"' => some '"'
  | '/' => some '/'
  | '\\' => some '\\'
  | 'N' => some '\x85'
  | '_' => some '\u00a0'
  | 'L' => some '\u2028'
  | 'P' => some '\u2029'
  | _ => none

/-- How many hexadecimal digits follow a backslash and this character. -/
def escapeWidth? : Char → Option Nat
  | 'x' => some 2
  | 'u' => some 4
  | 'U' => some 8
  | _ => none

/-- The character with a code point. -/
def charOfCode? (n : Nat) : Option Char :=
  if n.isValidChar then some (Char.ofNat n) else none

/-- What an escape stands for, given what follows the backslash, and how long it is without the
backslash. -/
def escape? : List Char → Option (Char × Nat)
  | [] => none
  | e :: rest =>
    match simpleEscape? e, escapeWidth? e with
    | some c, _ => some (c, 1)
    | none, some width =>
      if rest.length < width then none
      else do
        let c ← (hexNumber? (rest.take width)).bind charOfCode?
        some (c, width + 1)
    | none, none => none

/-- The rest of a double-quoted scalar after a gap, and the place after its closing quote. The next
`skipped` characters belong to an escape that has been read. -/
def readDoubleQuoted (gap : Gap) (skipped : Nat) (p : Position) :
    List Char → Option (List Char × Cursor)
  | [] => none
  | c :: rest =>
    match skipped with
    | skipped + 1 => readDoubleQuoted gap skipped (p.after c) rest
    | 0 =>
      if isSpace c then readDoubleQuoted (gap.add c) 0 (p.after c) rest
      else if interrupted p (c :: rest) then none
      else if c = '"' then some (gap.text, ⟨p.after c, rest⟩)
      else if c ≠ '\\' then
        (readDoubleQuoted .empty 0 (p.after c) rest).map fun (text, after) =>
          (gap.text ++ c :: text, after)
      else if rest.head?.any isBreak then
        (readDoubleQuoted .escaped 1 (p.after c) rest).map fun (text, after) =>
          (gap.text ++ text, after)
      else match escape? rest with
        | none => none
        | some (e, length) =>
          (readDoubleQuoted .empty length (p.after c) rest).map fun (text, after) =>
            (gap.text ++ e :: text, after)

end Seidel.Yaml
