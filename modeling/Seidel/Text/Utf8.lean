/-!
Showing bytes that need not be text. Well-formed UTF-8 is shown as the characters it encodes; of
anything else, each longest start of a character is shown as one replacement character.
-/

namespace Seidel.Text

/-- A character of which some bytes are still to come. -/
structure Unfinished where
  /-- How many bytes are missing. -/
  missing : Nat
  /-- The least value that the next byte may have. -/
  low : Nat
  /-- The greatest value that the next byte may have. -/
  high : Nat
  /-- The bits read so far. -/
  bits : Nat

/-- What the first byte of a character of two, three or four bytes announces. The bounds on the
second byte leave out overlong forms, surrogates and code points above `10FFFF`. -/
def Unfinished.ofLead? (b : Nat) : Option Unfinished :=
  if b < 0xC2 then none
  else if b < 0xE0 then some ⟨1, 0x80, 0xBF, b - 0xC0⟩
  else if b = 0xE0 then some ⟨2, 0xA0, 0xBF, 0⟩
  else if b = 0xED then some ⟨2, 0x80, 0x9F, b - 0xE0⟩
  else if b < 0xF0 then some ⟨2, 0x80, 0xBF, b - 0xE0⟩
  else if b = 0xF0 then some ⟨3, 0x90, 0xBF, 0⟩
  else if b < 0xF4 then some ⟨3, 0x80, 0xBF, b - 0xF0⟩
  else if b = 0xF4 then some ⟨3, 0x80, 0x8F, b - 0xF0⟩
  else none

/-- The byte that stands where a character may begin: what it shows at once, and what it begins. -/
def beginCharacter (b : Nat) : List Char × Option Unfinished :=
  if b < 0x80 then ([Char.ofNat b], none)
  else match Unfinished.ofLead? b with
    | some u => ([], some u)
    | none => (['\uFFFD'], none)

/-- One more byte. -/
def nextByte (pending : Option Unfinished) (b : Nat) : List Char × Option Unfinished :=
  match pending with
  | none => beginCharacter b
  | some u =>
    if u.low ≤ b ∧ b ≤ u.high then
      let bits := u.bits * 64 + (b - 0x80)
      if u.missing = 1 then ([Char.ofNat bits], none)
      else ([], some ⟨u.missing - 1, 0x80, 0xBF, bits⟩)
    else
      let (shown, next) := beginCharacter b
      ('\uFFFD' :: shown, next)

/-- The characters shown for `bytes` after an unfinished one. -/
def showBytesFrom : Option Unfinished → List Nat → List Char
  | none, [] => []
  | some _, [] => ['\uFFFD']
  | pending, b :: bytes =>
    let (shown, next) := nextByte pending b
    shown ++ showBytesFrom next bytes

/-- The text shown for any bytes. -/
def showBytes (bytes : ByteArray) : String :=
  String.ofList (showBytesFrom none (bytes.toList.map UInt8.toNat))

end Seidel.Text
