import Seidel.Proofs.Binary64.Monotone
import Seidel.Proofs.Binary64.Special

/-!
# Products keep the order

Of two values that are not negative, the smaller one has the smaller product with a positive factor
(`mul_le_mul_right`). The two exact products have a common exponent, for which the larger mantissa
is shifted, so that they are rounded in their order; the infinities and zeros are above and below
all else.
-/

namespace Seidel.Binary64

open Float.Model

variable {m n : Nat} {e f : Int}

/-! ## Products of mantissas -/

/-- A product of two mantissas has enough bits to be rounded. -/
theorem le_target_mul {s t : UnpackedFloat.Sign} {hm : 0 < m} {hn : 0 < n}
    (hu : Canonical (.finite s m e hm)) (hv : Canonical (.finite t n f hn)) :
    e + f ≤ target (m * n) (e + f) := by
  obtain ⟨_, _, _, normal⟩ := hu
  obtain ⟨_, _, _, normal'⟩ := hv
  have product : 0 < m * n := Nat.mul_pos hm hn
  have bits (large : 2 ^ 52 ≤ m * n) : e + f ≤ target (m * n) (e + f) := by
    have := (Nat.le_log2 (Nat.ne_of_gt product)).mpr large
    rw [target_eq]
    omega
  rcases normal with normal | rfl
  · exact bits (normal.trans (Nat.le_mul_of_pos_right m hn))
  · rcases normal' with normal' | rfl
    · exact bits (normal'.trans (Nat.le_mul_of_pos_left n hm))
    · rw [target_eq]
      omega

theorem rank_mul_mono {m' : Nat} {e' : Int} {hm : 0 < m} {hm' : 0 < m'} {hn : 0 < n}
    (hu : Canonical (.finite .positive m e hm)) (hv : Canonical (.finite .positive m' e' hm'))
    (hc : Canonical (.finite .positive n f hn))
    (h : rank (.finite .positive m e hm) ≤ rank (.finite .positive m' e' hm')) :
    rank (decode (encode (round (m * n) (e + f))))
      ≤ rank (decode (encode (round (m' * n) (e' + f)))) := by
  have enough := le_target_mul hu hc
  have enough' := le_target_mul hv hc
  obtain ⟨upper, least, _, normal⟩ := hu
  obtain ⟨upper', least', _, normal'⟩ := hv
  have ranks : (e + 1075) * 2 ^ 53 + m ≤ (e' + 1075) * 2 ^ 53 + m' := h
  -- the larger mantissa is shifted until both have the smaller exponent
  obtain ⟨k, rfl⟩ : ∃ k : Nat, e' = e + k := ⟨(e' - e).toNat, by omega⟩
  have mantissas : m ≤ m' * 2 ^ k := by
    rcases Nat.eq_zero_or_pos k with rfl | pos
    · omega
    · have two : 2 ^ 1 ≤ 2 ^ k := Nat.pow_le_pow_right (by decide) pos
      have := Nat.mul_le_mul (show 2 ^ 52 ≤ m' by omega) two
      omega
  have exponent : e + k + f - k = e + f := by omega
  rw [← round_scaled (Nat.mul_pos hm' hn) enough' k, exponent]
  apply rank_round_mono (Nat.mul_pos hm hn) _ enough
  rw [Nat.mul_right_comm]
  exact Nat.mul_le_mul_right n mantissas

/-! ## Values that are not negative -/

variable {x y c : Float}

theorem nonneg_iff : .ofBits 0 ≤ x ↔ x.isNaN = false ∧ 0 ≤ rank (decode x) := by
  have zero : rank (decode (.ofBits 0)) = 0 := by
    rw [decode_zero]
    rfl
  constructor
  · intro h
    obtain ⟨number, number'⟩ := numbers_of_le h
    rw [le_iff_rank number number', zero] at h
    exact ⟨number', h⟩
  · rintro ⟨number, nonneg⟩
    rwa [le_iff_rank (by decide) number, zero]

/-- What is not negative is infinite, a zero, or finite and positive. -/
theorem cases_of_nonneg (h : .ofBits 0 ≤ x) :
    decode x = .infinity .positive ∨ (∃ s, decode x = .zero s) ∨
      ∃ m e hm, decode x = .finite .positive m e hm := by
  obtain ⟨number, nonneg⟩ := nonneg_iff.mp h
  have canonical := canonical_decode x
  cases hx : decode x with
  | notANumber => exact absurd hx (isNaN_eq_false_iff.mp number)
  | zero s => exact .inr (.inl ⟨s, rfl⟩)
  | infinity s =>
    cases s with
    | positive => exact .inl rfl
    | negative =>
      rw [hx] at nonneg
      exact absurd nonneg (by decide)
  | finite s m e hm =>
    cases s with
    | positive => exact .inr (.inr ⟨m, e, hm, rfl⟩)
    | negative =>
      rw [hx] at nonneg canonical
      exact absurd nonneg (not_le.mpr (rank_negative canonical).2)

theorem infinite_or_finite (h : .ofBits 0 ≤ x) :
    decode x = .infinity .positive ∨ x.isFinite = true := by
  rcases cases_of_nonneg h with hx | zero | ⟨m, e, hm, hx⟩
  · exact .inl hx
  · exact .inr (isFinite_iff.mpr (.inl zero))
  · exact .inr (isFinite_iff.mpr (.inr ⟨_, m, e, hm, hx⟩))

theorem nonneg_abs (hx : x.isNaN = false) : .ofBits 0 ≤ x.abs := by
  refine nonneg_iff.mpr ⟨(isNaN_abs x).trans hx, ?_⟩
  have canonical := canonical_decode x.abs
  rw [decode_abs] at canonical ⊢
  cases hd : decode x with
  | notANumber | zero => exact Int.le_refl 0
  | infinity => exact Int.natCast_nonneg (2048 * 2 ^ 53)
  | finite s m e hm =>
    rw [hd] at canonical
    exact (rank_positive canonical).1.le

/-- Only zeros are below a zero and not negative. -/
theorem zero_of_le_zero {s : UnpackedFloat.Sign} (nonneg : .ofBits 0 ≤ x) (h : x ≤ y)
    (hy : decode y = .zero s) : ∃ t, decode x = .zero t := by
  obtain ⟨hx', hy'⟩ := numbers_of_le h
  rw [le_iff_rank hx' hy', hy] at h
  rcases cases_of_nonneg nonneg with hx | zero | ⟨m, e, hm, hx⟩
  · rw [hx] at h
    exact absurd h (by cases s <;> decide)
  · exact zero
  · rw [hx] at h
    exact absurd h (not_le.mpr (rank_positive (hx ▸ canonical_decode x)).1)

theorem le_zero_of_le {s : UnpackedFloat.Sign} (h : x ≤ y) (hy : decode y = .zero s) :
    x ≤ .ofBits 0 := by
  obtain ⟨hx, hy'⟩ := numbers_of_le h
  rw [le_iff_rank hx hy', hy] at h
  rwa [le_iff_rank hx (by decide), decode_zero]

/-- No number is above infinity. -/
theorem le_infinity (hx : x.isNaN = false) (hy : decode y = .infinity .positive) : x ≤ y := by
  have number : y.isNaN = false := by
    rw [isNaN_eq_false_iff, hy]
    exact UnpackedFloat.noConfusion
  have canonical := canonical_decode x
  rw [le_iff_rank hx number, hy]
  cases hd : decode x with
  | notANumber => exact absurd hd (isNaN_eq_false_iff.mp hx)
  | zero s => cases s <;> decide
  | infinity s => cases s <;> decide
  | finite s m e hm =>
    rw [hd] at canonical
    cases s with
    | positive => exact (rank_positive canonical).2.le
    | negative => exact (rank_negative canonical).2.le.trans (by decide)

/-! ## Products with a positive factor -/

theorem decode_mul_finite {hm : 0 < m} {hn : 0 < n}
    (hx : decode x = .finite .positive m e hm) (hy : decode y = .finite .positive n f hn) :
    decode (x * y) = decode (encode (round (m * n) (e + f))) := by
  change decode (encode (UnpackedFloat.mul Format.binary64 (decode x) (decode y))) = _
  rw [hx, hy]
  rfl

section

variable {hn : 0 < n} (hc : decode c = .finite .positive n f hn)

include hc

theorem zero_mul_positive {s : UnpackedFloat.Sign} (hx : decode x = .zero s) :
    ∃ t, decode (x * c) = .zero t :=
  zero_mul_of_isFinite hx (isFinite_iff.mpr (.inr ⟨_, n, f, hn, hc⟩))

protected theorem mul_nonneg (h : .ofBits 0 ≤ x) : .ofBits 0 ≤ x * c := by
  rw [nonneg_iff, isNaN_eq_false_iff]
  rcases cases_of_nonneg h with hx | ⟨s, hx⟩ | ⟨m, e, hm, hx⟩
  · rw [infinity_mul_finite hx hc]
    exact ⟨UnpackedFloat.noConfusion, by decide⟩
  · obtain ⟨t, product⟩ := zero_mul_positive hc hx
    rw [product]
    exact ⟨UnpackedFloat.noConfusion, Int.le_refl 0⟩
  · have enough := le_target_mul (hx ▸ canonical_decode x) (hc ▸ canonical_decode c)
    have fits := fits_rounded (Nat.mul_pos hm hn) enough
    rw [decode_mul_finite hx hc, round_eq_settle (Nat.mul_pos hm hn) enough]
    exact ⟨isNumber_settle fits, rank_encode_settle_nonneg fits⟩

/-- **Products keep the order.** -/
protected theorem mul_le_mul_right (nonneg : .ofBits 0 ≤ x) (h : x ≤ y) : x * c ≤ y * c := by
  have nonneg' := Binary64.le_trans nonneg h
  obtain ⟨number, _⟩ := nonneg_iff.mp (Binary64.mul_nonneg hc nonneg)
  obtain ⟨number', product⟩ := nonneg_iff.mp (Binary64.mul_nonneg hc nonneg')
  have of_zero {s : UnpackedFloat.Sign} (hx : decode x = .zero s) : x * c ≤ y * c := by
    obtain ⟨t, zero⟩ := zero_mul_positive hc hx
    rw [le_iff_rank number number', zero]
    exact product
  rcases cases_of_nonneg nonneg' with hy | ⟨t, hy⟩ | ⟨m', e', hm', hy⟩
  · exact le_infinity number (infinity_mul_finite hy hc)
  · obtain ⟨s, hx⟩ := zero_of_le_zero nonneg h hy
    exact of_zero hx
  · rcases cases_of_nonneg nonneg with hx | ⟨s, hx⟩ | ⟨m, e, hm, hx⟩
    · have bounded : y.isFinite = true := isFinite_iff.mpr (.inr ⟨_, m', e', hm', hy⟩)
      exact absurd h (not_infinity_le hx bounded)
    · exact of_zero hx
    · obtain ⟨hx', hy'⟩ := numbers_of_le h
      rw [le_iff_rank hx' hy', hx, hy] at h
      rw [le_iff_rank number number', decode_mul_finite hx hc, decode_mul_finite hy hc]
      exact rank_mul_mono (hx ▸ canonical_decode x) (hy ▸ canonical_decode y)
        (hc ▸ canonical_decode c) h

end

end Seidel.Binary64
