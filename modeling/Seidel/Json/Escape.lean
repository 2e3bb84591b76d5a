/-!
The inside of a JSON string: what must be escaped is written with a backslash, and escapes are read
back. An escape may name half of a surrogate pair; such text is well-formed but stands for no
sequence of characters unless the other half follows.

Main statements: escaped text stands between quotes as it is (`quoted?_escape`), and reading undoes
escaping (`unescape?_escape`).
-/

namespace Seidel.Json

/-- A hexadecimal digit in lower case. -/
def hexDigit (n : Nat) : Char :=
  n.digitChar

def isHexDigit (c : Char) : Bool :=
  c.isDigit || ('a' ≤ c && c ≤ 'f') || ('A' ≤ c && c ≤ 'F')

def hexValue (c : Char) : Nat :=
  if c.isDigit then c.toNat - 48 else if c ≤ 'F' then c.toNat - 55 else c.toNat - 87

/-- The value of four hexadecimal digits. -/
def unitOfHex (a b c d : Char) : Nat :=
  ((hexValue a * 16 + hexValue b) * 16 + hexValue c) * 16 + hexValue d

/-- Quotes, backslashes and the characters below space are escaped, and nothing else. -/
def escapeChar (c : Char) : List Char :=
  if c = '"' then ['\\', '"']
  else if c = '\\' then ['\\', '\\']
  else if c = '\x08' then ['\\', 'b']
  else if c = '\x0c' then ['\\', 'f']
  else if c = '\n' then ['\\', 'n']
  else if c = '\r' then ['\\', 'r']
  else if c = '\t' then ['\\', 't']
  else if c.toNat < 0x20 then
    ['\\', 'u', '0', '0', hexDigit (c.toNat / 16), hexDigit (c.toNat % 16)]
  else [c]

def escape (cs : List Char) : List Char :=
  cs.flatMap escapeChar

/-- The character that a backslash and one more character stand for. -/
def simpleEscape? : Char → Option Char
  | '"' => some '"'
  | '\\' => some '\\'
  | '/' => some '/'
  | 'b' => some '\x08'
  | 'f' => some '\x0c'
  | 'n' => some '\n'
  | 'r' => some '\r'
  | 't' => some '\t'
  | _ => none

/-- The text that stands before the closing quote, and what follows the quote. None when an escape
is malformed, a character below space is not escaped, or the quote is missing. -/
def quoted? : List Char → Option (List Char × List Char)
  | [] => none
  | '"' :: rest => some ([], rest)
  | '\\' :: 'u' :: a :: b :: c :: d :: rest =>
    if isHexDigit a && isHexDigit b && isHexDigit c && isHexDigit d then
      (quoted? rest).map fun (inner, after) => ('\\' :: 'u' :: a :: b :: c :: d :: inner, after)
    else none
  | '\\' :: e :: rest =>
    if (simpleEscape? e).isSome then
      (quoted? rest).map fun (inner, after) => ('\\' :: e :: inner, after)
    else none
  | c :: rest =>
    if c.toNat < 0x20 || c == '\\' then none
    else (quoted? rest).map fun (inner, after) => (c :: inner, after)

/-- The characters that well-formed text inside quotes stands for. None when it names half of a
surrogate pair. -/
def unescape? : List Char → Option (List Char)
  | [] => some []
  | '\\' :: 'u' :: a :: b :: c :: d :: rest =>
    let unit := unitOfHex a b c d
    if 0xDC00 ≤ unit ∧ unit ≤ 0xDFFF then none
    else if 0xD800 ≤ unit ∧ unit ≤ 0xDBFF then
      match rest with
      | '\\' :: 'u' :: a :: b :: c :: d :: rest =>
        let low := unitOfHex a b c d
        if 0xDC00 ≤ low ∧ low ≤ 0xDFFF then
          (unescape? rest).map
            (Char.ofNat (0x10000 + (unit - 0xD800) * 0x400 + (low - 0xDC00)) :: ·)
        else none
      | _ => none
    else (unescape? rest).map (Char.ofNat unit :: ·)
  | '\\' :: e :: rest =>
    (simpleEscape? e).bind fun c => (unescape? rest).map (c :: ·)
  | c :: rest => (unescape? rest).map (c :: ·)

/-! ## Reading what was written -/

theorem hexValue_hexDigit {n : Nat} (h : n < 16) : hexValue (hexDigit n) = n := by
  have all : ∀ n, n < 16 → hexValue (hexDigit n) = n := by decide
  exact all n h

theorem isHexDigit_hexDigit {n : Nat} (h : n < 16) : isHexDigit (hexDigit n) = true := by
  have all : ∀ n, n < 16 → isHexDigit (hexDigit n) = true := by decide
  exact all n h

theorem unitOfHex_hexDigit {n : Nat} (h : n < 0x20) :
    unitOfHex '0' '0' (hexDigit (n / 16)) (hexDigit (n % 16)) = n := by
  rw [unitOfHex, hexValue_hexDigit (by omega), hexValue_hexDigit (by omega)]
  simp [hexValue]
  omega

/-- A backslash and a letter read back as the character they stand for. -/
theorem unescape?_simpleEscape {e c : Char} (h : simpleEscape? e = some c) (rest : List Char) :
    unescape? ('\\' :: e :: rest) = (unescape? rest).map (c :: ·) := by
  have hu : e ≠ 'u' := by
    rintro rfl
    simp [simpleEscape?] at h
  rw [unescape?.eq_def]
  split <;> grind

/-- A character that needs no escape reads back as itself. -/
theorem unescape?_cons {c : Char} (h : c ≠ '\\') (rest : List Char) :
    unescape? (c :: rest) = (unescape? rest).map (c :: ·) := by
  rw [unescape?.eq_def]
  split <;> grind

/-- An escaped character reads back, whatever follows it. -/
theorem unescape?_escapeChar (c : Char) (rest : List Char) :
    unescape? (escapeChar c ++ rest) = (unescape? rest).map (c :: ·) := by
  unfold escapeChar
  split
  · subst c; exact unescape?_simpleEscape rfl rest
  split
  · subst c; exact unescape?_simpleEscape rfl rest
  split
  · subst c; exact unescape?_simpleEscape rfl rest
  split
  · subst c; exact unescape?_simpleEscape rfl rest
  split
  · subst c; exact unescape?_simpleEscape rfl rest
  split
  · subst c; exact unescape?_simpleEscape rfl rest
  split
  · subst c; exact unescape?_simpleEscape rfl rest
  split
  · rename_i h
    rw [List.cons_append, List.cons_append, List.cons_append, List.cons_append, List.cons_append,
      List.cons_append, List.nil_append, unescape?.eq_def]
    simp only [unitOfHex_hexDigit h, Char.ofNat_toNat]
    rw [if_neg (by omega), if_neg (by omega)]
  · rename_i hb _ _ _ _ _ _
    exact unescape?_cons hb rest

/-- Escaped text reads back. -/
theorem unescape?_escape (cs : List Char) : unescape? (escape cs) = some cs := by
  induction cs with
  | nil => rfl
  | cons c cs ih =>
    rw [escape, List.flatMap_cons, unescape?_escapeChar, ← escape, ih]
    rfl

/-- A backslash and a letter do not end a string. -/
theorem quoted?_simpleEscape {e c : Char} (h : simpleEscape? e = some c) (rest : List Char) :
    quoted? ('\\' :: e :: rest) =
      (quoted? rest).map fun (inner, after) => ('\\' :: e :: inner, after) := by
  have hu : e ≠ 'u' := by
    rintro rfl
    simp [simpleEscape?] at h
  rw [quoted?.eq_def]
  split <;> grind

/-- A character that needs no escape does not end a string. -/
theorem quoted?_cons {c : Char} (hq : c ≠ '"') (hb : c ≠ '\\') (h : ¬c.toNat < 0x20)
    (rest : List Char) :
    quoted? (c :: rest) = (quoted? rest).map fun (inner, after) => (c :: inner, after) := by
  rw [quoted?.eq_def]
  split <;> grind

/-- An escaped character does not end a string. -/
theorem quoted?_escapeChar (c : Char) (rest : List Char) :
    quoted? (escapeChar c ++ rest) =
      (quoted? rest).map fun (inner, after) => (escapeChar c ++ inner, after) := by
  unfold escapeChar
  split
  · subst c; exact quoted?_simpleEscape rfl rest
  split
  · subst c; exact quoted?_simpleEscape rfl rest
  split
  · subst c; exact quoted?_simpleEscape rfl rest
  split
  · subst c; exact quoted?_simpleEscape rfl rest
  split
  · subst c; exact quoted?_simpleEscape rfl rest
  split
  · subst c; exact quoted?_simpleEscape rfl rest
  split
  · subst c; exact quoted?_simpleEscape rfl rest
  split
  · have ha : isHexDigit (hexDigit (c.toNat / 16)) := isHexDigit_hexDigit (by omega)
    have hb : isHexDigit (hexDigit (c.toNat % 16)) := isHexDigit_hexDigit (by omega)
    have hz : isHexDigit '0' := rfl
    simp [quoted?, ha, hb, hz]
  · rename_i hb _ _ _ _ _ h
    exact quoted?_cons (by assumption) hb h rest

/-- Escaped text stands between quotes as it is. -/
theorem quoted?_escape (cs rest : List Char) :
    quoted? (escape cs ++ '"' :: rest) = some (escape cs, rest) := by
  induction cs with
  | nil => rfl
  | cons c cs ih =>
    rw [escape, List.flatMap_cons, List.append_assoc, quoted?_escapeChar, ← escape, ih]
    rfl

end Seidel.Json
