import Seidel.Decimal.Basic
import Seidel.Proofs.Binary64.Comparison
import Seidel.Proofs.Binary64.Rounding

/-!
# From decimals to floats

A decimal with a power of ten that is not negative is rounded by its value (`toFloat_whole`), on
the short way through exact floats as on the long way through large numbers. So zeros may move
between the digits and the exponent (`toFloat_shift`).
-/

namespace Seidel

open Float.Model Binary64

namespace Binary64

/-- Small whole numbers are floats. -/
theorem decode_toFloat {m : Nat} (pos : 0 < m) (small : m < 2 ^ 53) :
    ∃ hp, decode m.toUInt64.toFloat
      = .finite .positive (m * 2 ^ (52 - m.log2)) ((m.log2 : Int) - 52) hp := by
  have log : m.log2 < 53 := (Nat.log2_lt (Nat.ne_of_gt pos)).mpr small
  have scaled := log2_mul_two_pow pos (52 - m.log2)
  have hp : 0 < m * 2 ^ (52 - m.log2) := Nat.mul_pos pos (Nat.two_pow_pos _)
  have bounds := (Nat.log2_eq_iff (Nat.ne_of_gt hp)).mp (show _ = 52 by omega)
  have canonical : Canonical (.finite .positive (m * 2 ^ (52 - m.log2)) ((m.log2 : Int) - 52) hp) :=
    ⟨bounds.2, by omega, by omega, Or.inl bounds.1⟩
  have rounded : UnpackedFloat.ofUInt64 Format.binary64 m.toUInt64
      = .finite .positive (m * 2 ^ (52 - m.log2)) ((m.log2 : Int) - 52) hp := by
    have toNat : m.toUInt64.toNat = m := UInt64.toNat_ofNat_of_lt' (Nat.lt_trans small (by decide))
    have amount : (0 - target m 0).toNat = 52 - m.log2 := by
      rw [target_eq]
      omega
    unfold UnpackedFloat.ofUInt64 UnpackedFloat.ofNat UnpackedFloat.ofInt UnpackedFloat.normalize
    rw [toNat, Int.compare_eq_gt.mpr (by omega)]
    change UnpackedFloat.roundWithAccuracy Format.binary64 .positive (m <<< (0 - target m 0).toNat)
      (0 - ((0 - target m 0).toNat : Int)) .exact = _
    rw [amount, Nat.shiftLeft_eq, ← round_canonical canonical]
    congr 1
    omega
  refine ⟨hp, ?_⟩
  change decode (encode (UnpackedFloat.ofUInt64 Format.binary64 m.toUInt64)) = _
  rw [rounded, decode_encode canonical]

def isPowerOfTen (e : Nat) : UnpackedFloat → Bool
  | .finite s p q _ =>
    decide (s.apply 1 = 1 ∧ 2 ^ 52 ≤ p ∧ p * 2 ^ q.toNat = 10 ^ e * 2 ^ (-q).toNat)
  | .zero _ | .infinity _ | .notANumber => false

/-- The powers of ten up to the twenty-second are floats. -/
theorem decode_powerOfTen {e : Nat} (he : e < Float.exactlyRepresentablePowersOfTen.size) :
    ∃ p q hp, decode Float.exactlyRepresentablePowersOfTen[e] = .finite .positive p q hp ∧
      2 ^ 52 ≤ p ∧ (p : Rat) * 2 ^ q = 10 ^ e := by
  have all : ∀ i : Fin 23, ∀ h : i.val < Float.exactlyRepresentablePowersOfTen.size,
      isPowerOfTen i.val (decode Float.exactlyRepresentablePowersOfTen[i.val]) = true := by
    decide +kernel
  have exact := all ⟨e, he⟩ he
  cases eq : decode Float.exactlyRepresentablePowersOfTen[e] with
  | finite s p q hp =>
    simp only [eq, isPowerOfTen, decide_eq_true_eq] at exact
    obtain ⟨positive, lower, same⟩ := exact
    obtain rfl : s = .positive := by
      cases s
      · cases positive
      · rfl
    refine ⟨p, q, hp, rfl, lower, ?_⟩
    have split : (2 : Rat) ^ q * 2 ^ (-q).toNat = 2 ^ q.toNat := by
      rw [← zpow_natCast, ← zpow_natCast, ← zpow_add₀ two_ne_zero]
      congr 1
      omega
    apply mul_right_cancel₀ (pow_ne_zero (-q).toNat (two_ne_zero (α := Rat)))
    rw [mul_assoc, split]
    exact_mod_cast same
  | _ => simp [eq, isPowerOfTen] at exact

end Binary64

namespace Decimal

/-- A whole number, written with a power of ten, is rounded by its value. -/
theorem toFloat_whole {m e : Nat} (pos : 0 < m) (he : e ≤ 2048) :
    toFloat ⟨m, e⟩ = encode (round (m * 10 ^ e * 2 ^ 53) (-53)) := by
  have sign : decide ((e : Int) < 0) = false := decide_eq_false (by omega)
  unfold toFloat
  rw [sign, Int.natAbs_natCast]
  unfold Float.ofScientific
  split
  · rename_i short
    obtain ⟨hm, left⟩ := decode_toFloat pos short.1
    obtain ⟨p, q, hp, right, lower, power⟩ := decode_powerOfTen (e := e) (by
      simp [Float.exactlyRepresentablePowersOfTen]
      omega)
    simp only [Bool.false_eq_true, ↓reduceIte]
    change encode (UnpackedFloat.mul Format.binary64 (decode _) (decode _)) = _
    rw [left, right]
    change encode (round (m * 2 ^ (52 - m.log2) * p) ((m.log2 : Int) - 52 + q)) = _
    refine congrArg encode ?_
    have log : m.log2 < 53 := (Nat.log2_lt (Nat.ne_of_gt pos)).mpr short.1
    have scaled := log2_mul_two_pow pos (52 - m.log2)
    have normal : 2 ^ 52 ≤ m * 2 ^ (52 - m.log2) :=
      (Nat.le_log2 (Nat.ne_of_gt hm)).mp (by omega)
    apply round_eq_round
    · exact Nat.le_trans normal (Nat.le_mul_of_pos_right _ hp)
    · exact Nat.le_trans (by decide) (Nat.le_mul_of_pos_left (2 ^ 53)
        (Nat.mul_pos pos (Nat.pow_pos (by decide))))
    · have unit : (2 : Rat) ^ 53 * 2 ^ (-53 : Int) = 1 := by norm_num
      have cancel : (2 : Rat) ^ (52 - m.log2) * 2 ^ ((m.log2 : Int) - 52) = 1 := by
        rw [← zpow_natCast, ← zpow_add₀ two_ne_zero, ← zpow_zero (2 : Rat)]
        congr 1
        omega
      push_cast
      rw [zpow_add₀ two_ne_zero]
      calc (m : Rat) * 2 ^ (52 - m.log2) * p * (2 ^ ((m.log2 : Int) - 52) * 2 ^ q)
        _ = m * (2 ^ (52 - m.log2) * 2 ^ ((m.log2 : Int) - 52)) * (p * 2 ^ q) := by ring
        _ = m * 10 ^ e := by rw [cancel, power, mul_one]
        _ = m * 10 ^ e * 2 ^ 53 * 2 ^ (-53 : Int) := by rw [mul_assoc, unit, mul_one]
  · change encode (UnpackedFloat.ofScientific Format.binary64 m (e : Int)) = _
    have limit : (2 : Int) ^ Format.binary64.exponentBits = 2048 := rfl
    unfold UnpackedFloat.ofScientific
    rw [limit, dif_neg (by omega), if_neg (by omega), if_neg (by omega), if_pos (by omega)]
    change encode (round ((m <<< 53) * 10 ^ (e : Int).toNat) (-53)) = _
    rw [Int.toNat_natCast, Nat.shiftLeft_eq, Nat.mul_right_comm]

theorem toFloat_zero (e : Nat) : toFloat ⟨0, e⟩ = encode (.zero .positive) := by
  have sign : decide ((e : Int) < 0) = false := decide_eq_false (by omega)
  unfold toFloat
  rw [sign, Int.natAbs_natCast]
  unfold Float.ofScientific
  split
  · rename_i short
    obtain ⟨p, q, hp, right, _, _⟩ := decode_powerOfTen (e := e) (by
      simp [Float.exactlyRepresentablePowersOfTen]
      omega)
    simp only [Bool.false_eq_true, ↓reduceIte]
    change encode (UnpackedFloat.mul Format.binary64 (decode _) (decode _)) = _
    rw [right]
    rfl
  · rfl

/-- Zeros at the end of the digits count like powers of ten. -/
theorem toFloat_shift {m e : Nat} (he : m = 0 ∨ e ≤ 2048) :
    toFloat ⟨(m * 10 ^ e : Nat), 0⟩ = toFloat ⟨m, e⟩ := by
  rcases Nat.eq_zero_or_pos m with rfl | pos
  · rw [Nat.zero_mul, toFloat_zero]
    exact toFloat_zero 0
  · have whole := toFloat_whole (e := 0) (Nat.mul_pos pos (Nat.pow_pos (n := e) (by decide : 0 < 10)))
      (by omega)
    rw [Nat.pow_zero, Nat.mul_one] at whole
    rw [toFloat_whole pos (by omega)]
    exact whole

/-- What is not zero and has a larger power of ten is read as infinite. -/
theorem bounded_of_isFinite {m e : Nat} (h : (toFloat ⟨m, e⟩).isFinite = true) :
    m = 0 ∨ e ≤ 2048 := by
  by_contra large
  have limit : (2 : Int) ^ Format.binary64.exponentBits = 2048 := rfl
  have infinite : toFloat ⟨m, e⟩ = encode (.infinity .positive) := by
    have sign : decide ((e : Int) < 0) = false := decide_eq_false (by omega)
    unfold toFloat
    rw [sign, Int.natAbs_natCast]
    unfold Float.ofScientific
    rw [dif_neg (by omega)]
    change encode (UnpackedFloat.ofScientific Format.binary64 m (e : Int)) = _
    unfold UnpackedFloat.ofScientific
    rw [limit, dif_neg (by omega), if_pos (by omega)]
  rw [infinite] at h
  have : (decode (encode (.infinity .positive))).isFinite = true := h
  rw [decode_encode (u := .infinity .positive) trivial] at this
  cases this

end Decimal

end Seidel
