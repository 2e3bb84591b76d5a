import Seidel.Decimal.Basic

/-!
The decimal that stands for a float: of all decimals that read back as the float, one with the
fewest digits, and of those the nearest.
-/

namespace Seidel.Decimal

/-- Which of two equally near decimals stands for a value. -/
inductive Tie
  /-- The larger one. -/
  | up
  /-- The one with an even last digit. -/
  | even
  deriving DecidableEq, Repr

/-- Whether the lower of two equally near decimals is taken, when its digits are `below`. -/
def Tie.takesLower (tie : Tie) (below : Nat) : Bool :=
  match tie with
  | .up => false
  | .even => below % 2 == 0

/-- The decimals of `count` digits next to a value of `length` digits on either side, the preferred
one first, and how far each is from the value in units of its last digit. Only the value itself
when it has no more digits than that. Rounding `99.7` up gives the single digit of `1e2`. -/
def neighbours (tie : Tie) (value : Decimal) (length count : Nat) : List (Nat × Decimal) :=
  let dropped := length - count
  let unit := Nat.pow 10 dropped
  let below := value.digits / unit
  let rest := value.digits % unit
  let lower : Decimal := ⟨below, value.exponent + dropped⟩
  let upper : Decimal :=
    if below + 1 = Nat.pow 10 count then ⟨1, value.exponent + dropped + count⟩
    else ⟨below + 1, value.exponent + dropped⟩
  if rest = 0 then [(0, lower)]
  else if 2 * rest < unit ∨ (2 * rest = unit ∧ tie.takesLower below) then
    [(rest, lower), (unit - rest, upper)]
  else [(unit - rest, upper), (rest, lower)]

/-- Whether the decimal reads back as the value. -/
def readsAs (x : Float) (d : Decimal) : Bool :=
  d.toFloat.toBits == x.toBits

/-- The shortest decimal that reads back as `x`, which is finite and not negative. What is further
away than half the weight of the last binary digit does not read back, and is not tried. Seventeen
digits always suffice; the exact expansion, which reads back whatever the search finds, closes
it. -/
def shortest (tie : Tie) (x : Float) : Decimal :=
  let binary := Binary.ofMagnitude x
  let value := binary.toDecimal
  let step := { binary with mantissa := 1 }.toDecimal.digits
  let length := value.text.length
  let found := (List.range 17).findSome? fun n =>
    (neighbours tie value length (n + 1)).find? fun (distance, d) =>
      decide (2 * distance ≤ step) && readsAs x d
  (found.map Prod.snd).getD value

end Seidel.Decimal
