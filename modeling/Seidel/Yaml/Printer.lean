import Seidel.Yaml.Token
import Seidel.Yaml.Word

/-!
Writing text as a YAML scalar: plain where it reads back as the same text, between single quotes
where quotes are enough, below a header when it has several lines, and between double quotes when
some of its characters can only be escaped.
-/

namespace Seidel.Yaml

/-- The characters that are written as they are. -/
def isPrintable (c : Char) : Bool :=
  let n := c.toNat
  n == 0xA || (0x20 ≤ n && n ≤ 0x7E) || (0xA0 ≤ n && n ≤ 0xD7FF)
    || (0xE000 ≤ n && n ≤ 0xFFFD && n != 0xFEFF)

/-- Whether two neighbours satisfy two tests. -/
def hasNeighbours (first second : Char → Bool) : List Char → Bool
  | [] => false
  | [_] => false
  | a :: b :: cs => (first a && second b) || hasNeighbours first second (b :: cs)

/-- Whether the first character cannot start plain text. -/
def startsLikeIndicator : List Char → Bool
  | [] => false
  | c :: cs =>
    isIndicator c || ((c == '?' || c == ':' || c == '-') && atSpace cs)
      || (['-', '-', '-'] : List Char).isPrefixOf (c :: cs)
      || (['.', '.', '.'] : List Char).isPrefixOf (c :: cs)

/-- Whether a colon before white space or a comment sign after it ends plain text. -/
def hasIndicator (cs : List Char) : Bool :=
  startsLikeIndicator cs || cs.tail.getLast? == some ':'
    || hasNeighbours (· == ':') isSpace cs.tail || hasNeighbours isSpace (· == '#') cs

def hasSpaceBeforeBreak (cs : List Char) : Bool :=
  hasNeighbours (· == ' ') isBreak cs

def hasBreakBeforeSpace (cs : List Char) : Bool :=
  hasNeighbours isBreak (· == ' ') cs

/-- Whether plain text reads back. -/
def allowsPlain (cs : List Char) : Bool :=
  cs.all isPrintable && !cs.any isBreak && !hasIndicator cs && cs.head? != some ' '
    && cs.getLast? != some ' '

/-- Whether text between single quotes reads back. -/
def allowsSingleQuoted (cs : List Char) : Bool :=
  cs.all isPrintable && !hasSpaceBeforeBreak cs && !hasBreakBeforeSpace cs

/-- Whether text of several lines reads back. -/
def allowsLiteral (cs : List Char) : Bool :=
  cs.all isPrintable && !hasSpaceBeforeBreak cs && cs.getLast? != some ' '

/-- How some text is written. -/
def ScalarStyle.of (cs : List Char) : ScalarStyle :=
  if cs.contains '\n' then (if allowsLiteral cs then .literal else .doubleQuoted)
  else if !isReserved cs && allowsPlain cs then .plain
  else if allowsSingleQuoted cs then .singleQuoted
  else .doubleQuoted

/-- The indentation of the lines of a scalar. -/
def indentation : List Char := [' ', ' ']

/-- Text between single quotes: a quote is written twice, and lines are indented. -/
def singleQuotedText (lineStart : Bool) : List Char → List Char
  | [] => if lineStart then indentation else []
  | c :: cs =>
    if isBreak c then c :: singleQuotedText true cs
    else (if lineStart then indentation else [])
      ++ (if c = '\'' then ['\'', '\''] else [c]) ++ singleQuotedText false cs

/-- The lines of a literal scalar; empty lines are not indented. -/
def literalText (lineStart : Bool) : List Char → List Char
  | [] => []
  | c :: cs =>
    if isBreak c then c :: literalText true cs
    else (if lineStart then indentation else []) ++ c :: literalText false cs

/-- The header of a literal scalar: the indentation when the first line does not show it, and what
happens to the line breaks at the end. -/
def literalHeader (cs : List Char) : List Char :=
  '|' :: ((if cs.head?.any fun c => c == ' ' || isBreak c then ['2'] else [])
    ++ (match cs.reverse with
      | [] => ['-']
      | [c] => if isBreak c then ['+'] else ['-']
      | c :: d :: _ => if !isBreak c then ['-'] else if isBreak d then ['+'] else []))

def upperHexDigit (n : Nat) : Char :=
  n.digitChar.toUpper

/-- Some hexadecimal digits, the last `count` of them. -/
def upperHexDigits : Nat → Nat → List Char
  | 0, _ => []
  | count + 1, n => upperHexDigits count (n / 16) ++ [upperHexDigit (n % 16)]

/-- A character as an escape: by a letter if it has one, and by its code point otherwise. -/
def escapeText (c : Char) : List Char :=
  let n := c.toNat
  if n = 0x00 then ['\\', '0']
  else if n = 0x07 then ['\\', 'a']
  else if n = 0x08 then ['\\', 'b']
  else if n = 0x09 then ['\\', 't']
  else if n = 0x0A then ['\\', 'n']
  else if n = 0x0B then ['\\', 'v']
  else if n = 0x0C then ['\\', 'f']
  else if n = 0x0D then ['\\', 'r']
  else if n = 0x1B then ['\\', 'e']
  else if n = 0x22 then ['\\', '"']
  else if n = 0x5C then ['\\', '\\']
  else if n = 0x85 then ['\\', 'N']
  else if n = 0x2028 then ['\\', 'L']
  else if n = 0x2029 then ['\\', 'P']
  else if n ≤ 0xFF then '\\' :: 'x' :: upperHexDigits 2 n
  else if n ≤ 0xFFFF then '\\' :: 'u' :: upperHexDigits 4 n
  else '\\' :: 'U' :: upperHexDigits 8 n

/-- Text between double quotes. -/
def doubleQuotedText (cs : List Char) : List Char :=
  cs.flatMap fun c =>
    if isPrintable c && !isBreak c && c != '"' && c != '\\' then [c] else escapeText c

/-- Text as a scalar, up to the end of its last line. -/
def scalarText (cs : List Char) : List Char :=
  match ScalarStyle.of cs with
  | .plain => cs ++ ['\n']
  | .singleQuoted => '\'' :: (singleQuotedText false cs ++ ['\'', '\n'])
  | .literal | .folded =>
    literalHeader cs ++ '\n' :: (literalText true cs
      ++ (if cs.getLast?.any isBreak then [] else ['\n']))
  | .doubleQuoted => '"' :: (doubleQuotedText cs ++ ['"', '\n'])

end Seidel.Yaml
