import Seidel.Proofs.Binary64.Decoding

/-!
# Rounding

A mantissa and an exponent that are exact are rounded by the value that they stand for, however it
is split between the two (`round_scaled`). A canonical value is left alone (`round_canonical`).
-/

namespace Seidel.Binary64

open Float.Model

abbrev round (m : Nat) (e : Int) : UnpackedFloat :=
  UnpackedFloat.roundWithAccuracy Format.binary64 .positive m e .exact

/-- The exponent that a value is rounded to. -/
abbrev target (m : Nat) (e : Int) : Int := Format.binary64.targetExponent (totalExponent m e)

theorem target_eq (m : Nat) (e : Int) : target m e = max (m.log2 + e - 52) (-1074) := by
  unfold target Format.targetExponent totalExponent
  rw [mantissaBits_eq]
  change max _ (-1074 : Int) = _
  omega

theorem log2_mul_two_pow {m : Nat} (hm : 0 < m) (k : Nat) : (m * 2 ^ k).log2 = m.log2 + k := by
  have bounds := (Nat.log2_eq_iff (Nat.ne_of_gt hm)).mp rfl
  have pos : 0 < m * 2 ^ k := Nat.mul_pos hm (Nat.two_pow_pos k)
  apply (Nat.log2_eq_iff (Nat.ne_of_gt pos)).mpr
  constructor
  · rw [Nat.pow_add]
    exact Nat.mul_le_mul_right _ bounds.1
  · rw [Nat.add_right_comm, Nat.pow_add]
    exact Nat.mul_lt_mul_of_pos_right bounds.2 (Nat.two_pow_pos k)

theorem log2_mul_le {a b n : Nat} (ha : 0 < a) (hb : 0 < b) (h : a < 2 ^ n) :
    (a * b).log2 ≤ b.log2 + n := by
  have bound : b < 2 ^ (b.log2 + 1) := Nat.lt_log2_self
  have product : a * b < 2 ^ (b.log2 + n + 1) := by
    have := Nat.mul_lt_mul'' h bound
    rwa [← Nat.pow_add, Nat.add_comm n, Nat.add_right_comm] at this
  have := (Nat.log2_lt (Nat.ne_of_gt (Nat.mul_pos ha hb))).mpr product
  omega

theorem target_scaled {m : Nat} (hm : 0 < m) (e : Int) (k : Nat) :
    target (m * 2 ^ k) (e - k) = target m e := by
  rw [target_eq, target_eq, log2_mul_two_pow hm]
  omega

/-! ## Shifting -/

abbrev exactly (m : Nat) : UnpackedFloat.ExtendedMantissa := ⟨m, false, false⟩

theorem shiftRight_add (em : UnpackedFloat.ExtendedMantissa) (a b : Nat) :
    em >>> (a + b) = (em >>> b) >>> a := by
  induction a with
  | zero =>
    rw [Nat.zero_add]
    rfl
  | succ a ih =>
    rw [Nat.add_right_comm]
    exact congrArg UnpackedFloat.ExtendedMantissa.shiftRightOne ih

theorem shiftRight_scaled (m k : Nat) : exactly (m * 2 ^ k) >>> k = exactly m := by
  induction k generalizing m with
  | zero =>
    rw [Nat.pow_zero, Nat.mul_one]
    rfl
  | succ k ih =>
    have half : exactly (m * 2) >>> 1 = exactly m := by
      change UnpackedFloat.ExtendedMantissa.shiftRightOne (exactly (m * 2)) = exactly m
      simp [UnpackedFloat.ExtendedMantissa.shiftRightOne]
    rw [Nat.add_comm, shiftRight_add, Nat.pow_add, ← Nat.mul_assoc, Nat.pow_one, ih, half]

theorem shiftToTarget_eq (m : Nat) (e : Int) :
    UnpackedFloat.shiftToTargetExponent Format.binary64 m e .exact
      = (exactly m >>> (target m e - e).toNat, e + ((target m e - e).toNat : Int)) := rfl

/-! ## Rounding -/

theorem round_scaled {m : Nat} (hm : 0 < m) {e : Int} (he : e ≤ target m e) (k : Nat) :
    round (m * 2 ^ k) (e - k) = round m e := by
  have amount : (target m e - (e - k)).toNat = (target m e - e).toNat + k := by omega
  have exponent : e - k + ((target m e - e).toNat + k : Nat)
      = e + ((target m e - e).toNat : Int) := by omega
  have first : UnpackedFloat.shiftToTargetExponent Format.binary64 (m * 2 ^ k) (e - k) .exact
      = UnpackedFloat.shiftToTargetExponent Format.binary64 m e .exact := by
    rw [shiftToTarget_eq, shiftToTarget_eq, target_scaled hm, amount, exponent, shiftRight_add,
      shiftRight_scaled]
  unfold round UnpackedFloat.roundWithAccuracy
  rw [first]

theorem target_canonical {m : Nat} {hm : 0 < m} {s : UnpackedFloat.Sign} {e : Int}
    (h : Canonical (.finite s m e hm)) : target m e = e := by
  obtain ⟨upper, lower, _, normal⟩ := h
  have small : m.log2 < 53 := (Nat.log2_lt (Nat.ne_of_gt hm)).mpr upper
  rw [target_eq]
  rcases normal with normal | rfl
  · rw [log2_of_normal normal upper]
    omega
  · omega

theorem round_canonical {m : Nat} {hm : 0 < m} {e : Int}
    (h : Canonical (.finite .positive m e hm)) : round m e = .finite .positive m e hm := by
  have stays : UnpackedFloat.shiftToTargetExponent Format.binary64 m e .exact = (exactly m, e) := by
    rw [shiftToTarget_eq, target_canonical h, Int.sub_self]
    exact Prod.ext rfl (Int.add_zero e)
  have rounded : (exactly m).roundedMantissa = m := rfl
  unfold round UnpackedFloat.roundWithAccuracy
  simp only [stays, rounded, Nat.ne_of_gt hm, ↓reduceDIte]

theorem round_canonical_scaled {m : Nat} {hm : 0 < m} {e : Int}
    (h : Canonical (.finite .positive m e hm)) (k : Nat) :
    round (m * 2 ^ k) (e - k) = .finite .positive m e hm := by
  rw [round_scaled hm (Int.le_of_eq (target_canonical h).symm), round_canonical h]

/-- Two ways to write one value are rounded alike, if both mantissas have enough bits. -/
theorem round_eq_round {m n : Nat} (hm : 2 ^ 52 ≤ m) (hn : 2 ^ 52 ≤ n) {e f : Int}
    (same : (m : Rat) * 2 ^ e = n * 2 ^ f) : round m e = round n f := by
  have enough {m : Nat} (hm : 2 ^ 52 ≤ m) (e : Int) : e ≤ target m e := by
    have := (Nat.le_log2 (by omega)).mpr hm
    rw [target_eq]
    omega
  -- the mantissa that stands with the smaller exponent is the other one, shifted
  have scaled {m n : Nat} (hm : 2 ^ 52 ≤ m) {e f : Int} (le : f ≤ e)
      (same : (m : Rat) * 2 ^ e = n * 2 ^ f) : round m e = round n f := by
    have exponent : e - ((e - f).toNat : Int) = f := by omega
    have shifted : m * 2 ^ (e - f).toNat = n := by
      have split : (2 : Rat) ^ e = 2 ^ (e - f).toNat * 2 ^ f := by
        rw [← zpow_natCast, ← zpow_add₀ two_ne_zero]
        congr 1
        omega
      rw [split, ← mul_assoc] at same
      exact_mod_cast mul_right_cancel₀ (zpow_ne_zero f two_ne_zero) same
    rw [← round_scaled (by omega) (enough hm e) (e - f).toNat, exponent, shifted]
  rcases Int.le_total f e with le | le
  · exact scaled hm le same
  · exact (scaled hn le same.symm).symm

end Seidel.Binary64
