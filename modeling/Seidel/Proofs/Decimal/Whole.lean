import Seidel.Decimal.Numeral

/-!
# Whole numbers in digits

The digits of a number are read back as the number, and only zero starts with a zero.
-/

namespace Seidel.Decimal

theorem toDigits_isDigit (n : Nat) : ∀ c ∈ Nat.toDigits 10 n, c.isDigit = true :=
  fun _ hc => Nat.isDigit_of_mem_toDigits (by decide) (by decide) hc

theorem exists_toDigits (n : Nat) : ∃ c cs, Nat.toDigits 10 n = c :: cs ∧ c.isDigit = true := by
  obtain ⟨c, cs, eq⟩ := List.exists_cons_of_ne_nil (Nat.toDigits_ne_nil (n := n) (b := 10))
  refine ⟨c, cs, eq, toDigits_isDigit n c ?_⟩
  rw [eq]
  exact List.mem_cons_self

theorem natOfDigits_toDigits (n : Nat) : natOfDigits (Nat.toDigits 10 n) = n :=
  Nat.ofDigitChars_ten_toDigits

/-- A zero is followed by no further digit. -/
theorem toDigits_of_head_zero {n : Nat} (h : (Nat.toDigits 10 n).head? = some '0') :
    Nat.toDigits 10 n = ['0'] := by
  induction n using Nat.strongRecOn with
  | ind n ih =>
    by_cases small : n < 10
    · rw [Nat.toDigits_of_lt_base small] at h ⊢
      exact congrArg (· :: []) (Option.some.inj h)
    · have large : 10 ≤ n := Nat.le_of_not_lt small
      have split := Nat.toDigits_of_base_le (b := 10) (by decide) large
      obtain ⟨c, cs, eq, _⟩ := exists_toDigits (n / 10)
      rw [split, eq, List.cons_append] at h
      have one : Nat.toDigits 10 (n / 10) = ['0'] := ih (n / 10) (by omega) (by rwa [eq])
      have value := natOfDigits_toDigits (n / 10)
      rw [one] at value
      have : n / 10 = 0 := value.symm
      omega

end Seidel.Decimal
