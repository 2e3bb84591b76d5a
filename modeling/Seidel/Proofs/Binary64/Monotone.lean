import Seidel.Proofs.Binary64.Order
import Seidel.Proofs.Binary64.Rounding

/-!
# Rounding keeps the order

Of two mantissas with one exponent, the larger one is not rounded to less (`rank_round_mono`): not
where it is rounded to fewer places than the other, and not where it becomes infinite. Shifting
keeps the order because the two residual bits are no less part of a value than its mantissa is
(`inQuarters`).
-/

namespace Seidel.Binary64

open Float.Model

/-! ## The nearest whole number -/

/-- The residual bits, as quarters of a unit. -/
def residue (em : UnpackedFloat.ExtendedMantissa) : Nat :=
  2 * em.roundBit.toNat + em.stickyBit.toNat

/-- A mantissa and its residual bits, in quarters of a unit. -/
def inQuarters (em : UnpackedFloat.ExtendedMantissa) : Nat :=
  4 * em.mantissa + residue em

section

variable (em : UnpackedFloat.ExtendedMantissa)

theorem residue_lt : residue em < 4 := by
  have := em.roundBit.toNat_le
  have := em.stickyBit.toNat_le
  unfold residue
  omega

theorem inQuarters_shiftRightOne :
    inQuarters em.shiftRightOne = 2 * em.mantissa + min (residue em) 1 := by
  have round : (em.mantissa % 2 != 0).toNat = em.mantissa % 2 := by
    rcases Nat.mod_two_eq_zero_or_one em.mantissa with even | odd
    · rw [even]
      rfl
    · rw [odd]
      rfl
  have sticky : (em.roundBit || em.stickyBit).toNat = min (residue em) 1 := by
    unfold residue
    cases em.roundBit <;> cases em.stickyBit <;> rfl
  simp only [inQuarters, residue, UnpackedFloat.ExtendedMantissa.shiftRightOne, round, sticky]
  omega

theorem roundedMantissa_eq :
    em.roundedMantissa = em.mantissa
      + if residue em = 3 then 1 else if residue em = 2 then em.mantissa % 2 else 0 := by
  obtain ⟨m, r, s⟩ := em
  cases r <;> cases s <;> rfl

end

section

variable {a b : UnpackedFloat.ExtendedMantissa}

theorem inQuarters_shiftRight_le (h : inQuarters a ≤ inQuarters b) (k : Nat) :
    inQuarters (a >>> k) ≤ inQuarters (b >>> k) := by
  induction k with
  | zero => exact h
  | succ k ih =>
    change inQuarters (a >>> k).shiftRightOne ≤ inQuarters (b >>> k).shiftRightOne
    have := residue_lt (a >>> k)
    have := residue_lt (b >>> k)
    rw [inQuarters_shiftRightOne, inQuarters_shiftRightOne]
    unfold inQuarters at ih
    omega

theorem roundedMantissa_le (h : inQuarters a ≤ inQuarters b) :
    a.roundedMantissa ≤ b.roundedMantissa := by
  have := residue_lt a
  have := residue_lt b
  rw [roundedMantissa_eq, roundedMantissa_eq]
  unfold inQuarters at h
  split_ifs <;> omega

end

/-- The whole number nearest to `m / 2 ^ k`, the even one if two are. -/
abbrev nearest (m k : Nat) : Nat := (exactly m >>> k).roundedMantissa

variable {m n k r : Nat} {e t : Int}

theorem nearest_mono (h : m ≤ n) (k : Nat) : nearest m k ≤ nearest n k := by
  apply roundedMantissa_le
  apply inQuarters_shiftRight_le
  exact Nat.add_le_add_right (Nat.mul_le_mul_left 4 h) _

theorem nearest_scaled (m k : Nat) : nearest (m * 2 ^ k) k = m := by
  unfold nearest
  rw [shiftRight_scaled]
  rfl

theorem nearest_le (h : m ≤ r * 2 ^ k) : nearest m k ≤ r :=
  (nearest_mono h k).trans (nearest_scaled r k).le

theorem le_nearest (h : r * 2 ^ k ≤ m) : r ≤ nearest m k :=
  (nearest_scaled r k).ge.trans (nearest_mono h k)

/-! ## What rounding makes of a mantissa -/

/-- The exponent and the size of a rounded mantissa. It may be a power of two with one bit too
many. -/
structure Fits (r : Nat) (t : Int) : Prop where
  le : r ≤ 2 ^ 53
  least : -1074 ≤ t
  normal : 2 ^ 52 ≤ r ∨ t = -1074

/-- The mantissa that `m` is rounded to. -/
abbrev rounded (m : Nat) (e : Int) : Nat := nearest m (target m e - e).toNat

/-- A rounded mantissa as a value. -/
def settle (r : Nat) (t : Int) : UnpackedFloat :=
  if h : r = 0 then .zero .positive
  else if r < 2 ^ 53 then .finite .positive r t (Nat.pos_of_ne_zero h)
  else .finite .positive (2 ^ 52) (t + 1) (by decide)

theorem fits_rounded (hm : 0 < m) (he : e ≤ target m e) : Fits (rounded m e) (target m e) := by
  have eq := target_eq m e
  have upper : m < 2 ^ (m.log2 + 1) := Nat.lt_log2_self
  have lower : 2 ^ m.log2 ≤ m := Nat.log2_self_le (Nat.ne_of_gt hm)
  refine ⟨nearest_le ?_, by omega, ?_⟩
  · rw [← Nat.pow_add]
    exact upper.le.trans (Nat.pow_le_pow_right (by decide) (by omega))
  · by_cases least : target m e = -1074
    · exact .inr least
    · refine .inl (le_nearest ?_)
      rw [← Nat.pow_add]
      exact (Nat.pow_le_pow_right (by decide) (by omega)).trans lower

theorem shift_small (small : r < 2 ^ 53) (least : -1074 ≤ t) :
    UnpackedFloat.shiftToTargetExponent Format.binary64 r t .exact = (exactly r, t) := by
  have bits : r.log2 ≤ 52 := by
    by_cases zero : r = 0
    · rw [zero]
      decide
    · exact Nat.lt_succ_iff.mp ((Nat.log2_lt zero).mpr small)
  have amount : (target r t - t).toNat = 0 := by
    rw [target_eq]
    omega
  rw [shiftToTarget_eq, amount]
  exact Prod.ext rfl (Int.add_zero t)

theorem shift_carry (least : -1074 ≤ t) :
    UnpackedFloat.shiftToTargetExponent Format.binary64 (2 ^ 53) t .exact
      = (exactly (2 ^ 52), t + 1) := by
  have amount : (target (2 ^ 53) t - t).toNat = 1 := by
    rw [target_eq, Nat.log2_two_pow]
    omega
  rw [shiftToTarget_eq, amount]
  exact Prod.ext (shiftRight_scaled (2 ^ 52) 1) rfl

theorem round_eq_settle (hm : 0 < m) (he : e ≤ target m e) :
    round m e = settle (rounded m e) (target m e) := by
  have exponent : e + ((target m e - e).toNat : Int) = target m e := by omega
  obtain ⟨le, least, _⟩ := fits_rounded hm he
  unfold round UnpackedFloat.roundWithAccuracy
  rw [shiftToTarget_eq, exponent]
  unfold rounded nearest at le ⊢
  dsimp only
  generalize (exactly m >>> (target m e - e).toNat).roundedMantissa = r at *
  by_cases carry : r = 2 ^ 53
  · rw [carry, shift_carry least]
    rfl
  · have small : r < 2 ^ 53 := Nat.lt_of_le_of_ne le carry
    rw [shift_small small least, settle]
    simp only [small, ↓reduceIte]

theorem rank_settle_nonneg (fits : Fits r t) : 0 ≤ rank (settle r t) := by
  have := fits.least
  unfold settle
  split
  · exact Int.le_refl 0
  · split <;> simp only [rank, UnpackedFloat.Sign.apply] <;> omega

/-- The exponents decide, and then the mantissas. -/
theorem rank_settle_le {r' : Nat} {t' : Int} (fits : Fits r t) (fits' : Fits r' t')
    (h : t < t' ∨ t = t' ∧ r ≤ r') : rank (settle r t) ≤ rank (settle r' t') := by
  have nonneg := rank_settle_nonneg fits'
  obtain ⟨le, least, normal⟩ := fits
  obtain ⟨le', least', normal'⟩ := fits'
  by_cases zero : r = 0
  · simpa only [settle, zero, ↓reduceDIte, rank] using nonneg
  · have positive : r' ≠ 0 := by omega
    unfold settle
    rw [dif_neg zero, dif_neg positive]
    split <;> split <;> simp only [rank, UnpackedFloat.Sign.apply] <;> omega

/-! ## Overflow -/

theorem decode_overflow (s : UnpackedFloat.Sign) (hp : 0 < m) (high : 971 < e) :
    decode (encode (.finite s m e hp)) = .infinity s := by
  have large : 2 ^ 11 ≤ (e + (1023 : Nat) + (52 : Nat)).toNat + 1 := by omega
  have same : UnpackedFloat.pack Format.binary64 (.finite s m e hp)
      = UnpackedFloat.pack Format.binary64 (.infinity s) := by
    simp only [UnpackedFloat.pack, exponentBias_eq, large, ↓reduceIte]
  change UnpackedFloat.unpack Format.binary64 (UnpackedFloat.pack Format.binary64 _) = _
  rw [same]
  exact unpack_pack (u := .infinity s) trivial

/-- A rounded value is a float as it is, or it is too large for any. -/
theorem decode_encode_settle (fits : Fits r t) :
    decode (encode (settle r t))
      = if rank (settle r t) < 2047 * 2 ^ 53 then settle r t else .infinity .positive := by
  have finite {m : Nat} {e : Int} (hp : 0 < m) (upper : m < 2 ^ 53) (least : -1074 ≤ e)
      (normal : 2 ^ 52 ≤ m ∨ e = -1074) : decode (encode (.finite .positive m e hp))
        = if (e + 1075) * 2 ^ 53 + m < 2047 * 2 ^ 53 then .finite .positive m e hp
          else .infinity .positive := by
    by_cases high : 971 < e
    · rw [decode_overflow .positive hp high, if_neg (by omega)]
    · have canonical : Canonical (.finite .positive m e hp) := ⟨upper, least, by omega, normal⟩
      rw [decode_encode canonical, if_pos (by omega)]
  obtain ⟨le, least, normal⟩ := fits
  unfold settle
  split
  · exact decode_encode (u := .zero .positive) trivial
  · split
    · rename_i small
      exact finite _ small least normal
    · exact finite _ (by decide) (by omega) (.inl (Nat.le_refl _))

theorem isNumber_settle (fits : Fits r t) : decode (encode (settle r t)) ≠ .notANumber := by
  rw [decode_encode_settle fits]
  split
  · unfold settle
    split
    · exact UnpackedFloat.noConfusion
    · split <;> exact UnpackedFloat.noConfusion
  · exact UnpackedFloat.noConfusion

theorem rank_encode_settle_nonneg (fits : Fits r t) : 0 ≤ rank (decode (encode (settle r t))) := by
  rw [decode_encode_settle fits]
  split
  · exact rank_settle_nonneg fits
  · decide

theorem rank_encode_settle_mono {r' : Nat} {t' : Int} (fits : Fits r t) (fits' : Fits r' t')
    (h : rank (settle r t) ≤ rank (settle r' t')) :
    rank (decode (encode (settle r t))) ≤ rank (decode (encode (settle r' t'))) := by
  have infinite : rank (.infinity .positive) = 2048 * 2 ^ 53 := rfl
  rw [decode_encode_settle fits, decode_encode_settle fits']
  split <;> split <;> omega

/-! ## The order -/

/-- **Rounding keeps the order.** -/
theorem rank_round_mono (hm : 0 < m) (h : m ≤ n) (he : e ≤ target m e) :
    rank (decode (encode (round m e))) ≤ rank (decode (encode (round n e))) := by
  have hn : 0 < n := Nat.lt_of_lt_of_le hm h
  have log : m.log2 ≤ n.log2 :=
    (Nat.le_log2 (Nat.ne_of_gt hn)).mpr ((Nat.log2_self_le (Nat.ne_of_gt hm)).trans h)
  have targets : target m e ≤ target n e := by
    rw [target_eq, target_eq]
    omega
  have he' : e ≤ target n e := Int.le_trans he targets
  have fits := fits_rounded hm he
  have fits' := fits_rounded hn he'
  rw [round_eq_settle hm he, round_eq_settle hn he']
  apply rank_encode_settle_mono fits fits'
  apply rank_settle_le fits fits'
  rcases Int.lt_or_eq_of_le targets with lt | eq
  · exact .inl lt
  · refine .inr ⟨eq, ?_⟩
    unfold rounded
    rw [eq]
    exact nearest_mono h _

end Seidel.Binary64
