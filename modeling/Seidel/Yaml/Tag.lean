import Seidel.Yaml.Token

/-!
Tags and directives. A tag names the type of a node, in full between angle brackets or with a handle
that stands for its beginning; a directive gives the version of the language or the meaning of a
handle.

Escapes in tags stand for bytes, and a tag ends at a byte of zero; a byte is kept as the character
with its number.
-/

namespace Seidel.Yaml

/-- The characters of tags; `bracketed` where commas and square brackets belong to them too. -/
def isTagChar (bracketed : Bool) (c : Char) : Bool :=
  isNameChar c || c == ';' || c == '/' || c == '?' || c == ':' || c == '@' || c == '&' || c == '='
    || c == '+' || c == '$' || c == '.' || c == '!' || c == '~' || c == '*' || c == '\'' || c == '('
    || c == ')' || (bracketed && (c == ',' || c == '[' || c == ']'))

/-- One byte: a percent sign and two hexadecimal digits. -/
def escapedByte? : List Char → Option (Nat × List Char)
  | '%' :: a :: b :: cs => (hexNumber? [a, b]).map (·, cs)
  | _ => none

/-- How many bytes follow the first byte of a character. -/
def continuationCount? (first : Nat) : Option Nat :=
  if first < 0x80 then some 0
  else if first < 0xC0 then none
  else if first < 0xE0 then some 1
  else if first < 0xF0 then some 2
  else if first < 0xF8 then some 3
  else none

/-- The rest of an escaped character: so many bytes that can continue one. -/
def continuationBytes? : Nat → List Char → Option (List Char × List Char)
  | 0, cs => some ([], cs)
  | n + 1, cs => do
    let (byte, cs) ← escapedByte? cs
    if byte / 0x40 = 2 then
      let (bytes, cs) ← continuationBytes? n cs
      some (Char.ofNat byte :: bytes, cs)
    else none

/-- One character that is written as the escapes of its bytes. -/
def escapedCharacter? (cs : List Char) : Option (List Char × List Char) := do
  let (byte, cs) ← escapedByte? cs
  let (bytes, cs) ← continuationBytes? (← continuationCount? byte) cs
  some (Char.ofNat byte :: bytes, cs)

/-- The longest text that can belong to a tag, with its escapes undone, and what follows it. None
when an escape is malformed. The text is not longer than `fuel`. -/
def tagChars? (bracketed : Bool) : Nat → List Char → Option (List Char × List Char)
  | 0, _ => none
  | _ + 1, [] => some ([], [])
  | fuel + 1, c :: cs =>
    if c = '%' then do
      let (bytes, cs) ← escapedCharacter? (c :: cs)
      let (text, cs) ← tagChars? bracketed fuel cs
      some (bytes ++ text, cs)
    else if isTagChar bracketed c then
      (tagChars? bracketed fuel cs).map fun (text, cs) => (c :: text, cs)
    else some ([], c :: cs)

/-- The text of a tag; what follows a zero byte does not count. -/
def tagText? (bracketed : Bool) (cs : List Char) : Option (List Char × List Char) :=
  (tagChars? bracketed (cs.length + 1) cs).map fun (text, cs) =>
    (text.takeWhile (· != '\x00'), cs)

/-- Tag text that is not empty as it is written. -/
def nonemptyTagText? (bracketed : Bool) (cs : List Char) : Option (List Char × List Char) :=
  if cs.head?.any fun c => isTagChar bracketed c || c == '%' then tagText? bracketed cs else none

/-- An exclamation mark, a name and perhaps another exclamation mark. -/
def handleText? : List Char → Option (List Char × List Char)
  | '!' :: cs =>
    let name := cs.takeWhile isNameChar
    match cs.dropWhile isNameChar with
    | '!' :: cs => some ('!' :: (name ++ ['!']), cs)
    | cs => some ('!' :: name, cs)
  | _ => none

/-- Whether a handle stands between two exclamation marks. -/
def isClosedHandle (handle : List Char) : Bool :=
  1 < handle.length && handle.getLast? == some '!'

/-- A tag without white space after it: its handle and the text that follows the handle. A lone
exclamation mark is a tag with an empty handle. -/
def tag? : List Char → Option (Token × List Char)
  | '!' :: '<' :: cs => do
    let (text, cs) ← nonemptyTagText? true cs
    match cs with
    | '>' :: cs => some (.tag [] text, cs)
    | _ => none
  | cs => do
    let (handle, cs) ← handleText? cs
    if isClosedHandle handle then
      let (text, cs) ← nonemptyTagText? false cs
      some (.tag handle text, cs)
    else
      let (text, cs) ← tagText? false cs
      let text := handle.drop 1 ++ text
      some (if text = [] then .tag [] ['!'] else .tag ['!'] text, cs)

/-! ## Directives -/

/-- A number of at most nine digits. -/
def versionNumber? (cs : List Char) : Option (Nat × List Char) :=
  let digits := cs.takeWhile Char.isDigit
  if digits = [] ∨ 9 < digits.length then none
  else some (Nat.ofDigitChars 10 digits 0, cs.dropWhile Char.isDigit)

/-- Two numbers with a point between them. -/
def version? (cs : List Char) : Option (Token × List Char) := do
  let (major, cs) ← versionNumber? (cs.dropWhile isBlank)
  match cs with
  | '.' :: cs => (versionNumber? cs).map fun (minor, cs) => (.version major minor, cs)
  | _ => none

/-- A handle and its meaning. -/
def handleMeaning? (cs : List Char) : Option (Token × List Char) := do
  let (name, cs) ← handleText? (cs.dropWhile isBlank)
  if name = ['!'] || isClosedHandle name then
    match cs with
    | c :: _ =>
      if isBlank c then
        let (meaning, cs) ← nonemptyTagText? true (cs.dropWhile isBlank)
        if atSpace cs then some (.handle name meaning, cs) else none
      else none
    | [] => none
  else none

/-- A directive after its percent sign, with its whole line and the break at the end of it; only a
comment may follow it on the line. -/
def directive? (cs : List Char) : Option (Token × List Char) := do
  let name := cs.takeWhile isNameChar
  let cs := cs.dropWhile isNameChar
  if !atSpace cs then none
  else
    let (token, cs) ←
      if name = ['Y', 'A', 'M', 'L'] then version? cs
      else if name = ['T', 'A', 'G'] then handleMeaning? cs
      else none
    let cs := cs.dropWhile isBlank
    let cs := if cs.head? = some '#' then cs.dropWhile (!isBreak ·) else cs
    if cs.head?.all isBreak then some (token, cs.drop 1) else none

end Seidel.Yaml
