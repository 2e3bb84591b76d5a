import Seidel.Proofs.Decimal.Reading

/-!
# A zero after the point

A quotient that is a whole number is exact, whether the dividend and the divisor are floats or large
numbers. So `.0` at the end of the digits changes nothing (`toFloat_tenths`).
-/

namespace Seidel.Decimal

open Float.Model Binary64

/-- A multiple is divided without a remainder, and the quotient has enough bits to be rounded. -/
theorem divCore_multiple {q d : Nat} (hq : 0 < q) (hd : 0 < d) {a b : Nat}
    (h : b ≤ a ∨ (q * d).log2 ≤ 53) :
    ∃ j : Nat, 2 ^ 52 ≤ q * 2 ^ j ∧
      UnpackedFloat.divCore Format.binary64 (q * d * 2 ^ a) (-a) (d * 2 ^ b) (-b)
        = (q * 2 ^ j, -(j : Int), .exact) := by
  have product : 0 < q * d := Nat.mul_pos hq hd
  have bits : (q * d).log2 ≤ d.log2 + (q.log2 + 1) := log2_mul_le hq hd Nat.lt_log2_self
  generalize hT : min (-(a : Int) - -(b : Int)) (Format.binary64.targetExponent
    (totalExponent (q * d * 2 ^ a) (-a) - totalExponent (d * 2 ^ b) (-b))) = T
  have low : T ≤ 0 ∧ T ≤ -(a : Int) - -(b : Int) ∧ T ≤ q.log2 - 52 := by
    unfold totalExponent Format.targetExponent at hT
    rw [mantissaBits_eq, log2_mul_two_pow product, log2_mul_two_pow hd] at hT
    change min _ (max _ (-1074 : Int)) = T at hT
    omega
  have enough : 52 ≤ (q * 2 ^ (-T).toNat).log2 := by
    rw [log2_mul_two_pow hq]
    omega
  have positive : 0 < q * 2 ^ (-T).toNat := Nat.mul_pos hq (Nat.two_pow_pos _)
  refine ⟨(-T).toNat, (Nat.le_log2 (Nat.ne_of_gt positive)).mp enough, ?_⟩
  have shifted : (q * d * 2 ^ a) <<< (-(a : Int) - -(b : Int) - T).toNat
      = q * 2 ^ (-T).toNat * (d * 2 ^ b) := by
    have places : a + (-(a : Int) - -(b : Int) - T).toNat = (-T).toNat + b := by omega
    rw [Nat.shiftLeft_eq, Nat.mul_assoc (q * d), ← Nat.pow_add, places, Nat.pow_add]
    ring
  unfold UnpackedFloat.divCore
  simp only [hT, shifted, Nat.mul_mod_left, Nat.mul_div_cancel _ (Nat.mul_pos hd (Nat.two_pow_pos b)),
    UnpackedFloat.accuracyOfFraction, ↓reduceIte, Prod.mk.injEq, and_true, true_and]
  omega

/-- The quotient of a multiple is rounded like a whole number. -/
theorem div_multiple {q d : Nat} (hq : 0 < q) (hd : 0 < d) {a b : Nat}
    (h : b ≤ a ∨ (q * d).log2 ≤ 53) {m n : Nat} {e f : Int} (hm : m = q * d * 2 ^ a) (he : e = -a)
    (hn : n = d * 2 ^ b) (hf : f = -b) {m_pos : 0 < m} {n_pos : 0 < n} :
    UnpackedFloat.div Format.binary64 (.finite .positive m e m_pos) (.finite .positive n f n_pos)
      = round (q * 2 ^ 53) (-53) := by
  obtain ⟨j, enough, exact⟩ := divCore_multiple hq hd h
  have unit (k : Nat) : (2 : Rat) ^ k * 2 ^ (-(k : Int)) = 1 := by
    rw [zpow_neg, zpow_natCast]
    exact mul_inv_cancel₀ (pow_ne_zero k two_ne_zero)
  have same : ((q * 2 ^ j : Nat) : Rat) * 2 ^ (-(j : Int))
      = ((q * 2 ^ 53 : Nat) : Rat) * 2 ^ (-(53 : Nat) : Int) := by
    rw [Nat.cast_mul, Nat.cast_mul, Nat.cast_pow, Nat.cast_pow, mul_assoc, mul_assoc]
    exact congrArg _ ((unit j).trans (unit 53).symm)
  subst hm he hn hf
  simp only [UnpackedFloat.div, exact]
  exact round_eq_round enough (by omega) same

/-- Ten times as many digits and one place after the point. -/
theorem toFloat_tenths (m : Nat) : toFloat ⟨m * 10, -1⟩ = toFloat ⟨m, 0⟩ := by
  rcases Nat.eq_zero_or_pos m with rfl | pos
  · rfl
  · have ten : 0 < m * 10 := Nat.mul_pos pos (by decide)
    have whole := toFloat_whole (e := 0) pos (by omega)
    rw [Nat.pow_zero, Nat.mul_one] at whole
    refine Eq.trans ?_ whole.symm
    change Float.ofScientific (m * 10) true 1 = _
    unfold Float.ofScientific
    split
    · rename_i short
      have log : (m * 10).log2 < 53 := (Nat.log2_lt (Nat.ne_of_gt ten)).mpr short.1
      obtain ⟨_, left⟩ := decode_toFloat ten short.1
      have right : decode Float.exactlyRepresentablePowersOfTen[1]
          = .finite .positive (10 * 2 ^ 49) (-49) (by decide) := by rfl
      simp only [↓reduceIte]
      change encode (UnpackedFloat.div Format.binary64 (decode _) (decode _)) = _
      rw [left, right]
      exact congrArg encode (div_multiple pos (d := 10) (by decide) (b := 49) (.inr (by omega)) rfl
        (by omega) rfl rfl)
    · change encode (UnpackedFloat.ofScientific Format.binary64 (m * 10) (-1)) = _
      have limit : (2 : Int) ^ Format.binary64.exponentBits = 2048 := rfl
      unfold UnpackedFloat.ofScientific
      rw [limit, dif_neg (by omega), if_neg (by omega), if_neg (by omega), if_neg (by omega)]
      exact congrArg encode (div_multiple pos (d := 10) (by decide) (.inl (Nat.le_refl 0))
        (Nat.mul_one _).symm rfl rfl rfl)

end Seidel.Decimal
