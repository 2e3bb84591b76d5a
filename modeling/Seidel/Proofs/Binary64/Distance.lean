import Seidel.Proofs.Binary64.Agreement
import Seidel.Proofs.Binary64.Order

/-!
# The distance of two values

The distance of two values is the same from either side (`abs_sub_comm`), and so is the larger of
two absolute values (`larger_abs_comm`). A difference whose operands are exchanged is the opposite,
because nothing in rounding looks at the sign; only of a difference of zero the sign may stay.
-/

namespace Seidel.Binary64

open Float.Model

variable {x y z : Float}

protected theorem abs_abs (x : Float) : x.abs.abs = x.abs := by
  apply decode_injective
  rw [decode_abs, decode_abs]
  cases decode x <;> rfl

protected theorem abs_neg (x : Float) : (-x).abs = x.abs := by
  apply decode_injective
  rw [decode_abs, decode_abs, decode_neg]
  cases decode x <;> rfl

/-! ## The larger of two absolute values -/

/-- Numbers that are not below each other are equal. -/
theorem agree_of_not_lt (hx : x.isNaN = false) (hy : y.isNaN = false) (h : ¬ x < y)
    (h' : ¬ y < x) : Agree x y := by
  rw [lt_iff_rank hx hy] at h
  rw [lt_iff_rank hy hx] at h'
  left
  change ((decode x).compare (decode y) == some .eq) = true
  rw [compare_decode hx hy, beq_iff_eq, Option.some.injEq, compare_eq_iff_eq]
  omega

theorem larger_of_nan_left (hx : x.isNaN = true) : larger x y = y := by
  simp only [larger, hx, Bool.or_true, ↓reduceIte]

theorem larger_of_nan_right (hy : y.isNaN = true) : larger x y = x := by
  have nan := isNaN_iff.mp hy
  cases hx : x.isNaN with
  | true =>
    rw [larger_of_nan_left hx]
    exact decode_injective (nan.trans (isNaN_iff.mp hx).symm)
  | false => exact larger_of_not_lt hx fun lt => not_le_nan nan (Binary64.le_of_lt lt)

theorem larger_comm (x y : Float) : Agree (larger x y) (larger y x) := by
  cases hx : x.isNaN with
  | true => exact agree_of_eq ((larger_of_nan_left hx).trans (larger_of_nan_right hx).symm)
  | false =>
    cases hy : y.isNaN with
    | true => exact agree_of_eq ((larger_of_nan_right hy).trans (larger_of_nan_left hy).symm)
    | false =>
      by_cases lt : x < y
      · have not : ¬ y < x := by
          rw [lt_iff_rank hx hy] at lt
          rw [lt_iff_rank hy hx]
          omega
        exact agree_of_eq ((larger_of_lt lt).trans (larger_of_not_lt hy not).symm)
      · rw [larger_of_not_lt hx lt]
        by_cases lt' : y < x
        · exact agree_of_eq (larger_of_lt lt').symm
        · rw [larger_of_not_lt hy lt']
          exact agree_of_not_lt hx hy lt lt'

theorem exists_larger_abs (x y : Float) : ∃ z : Float, larger x.abs y.abs = z.abs := by
  unfold larger
  split
  · exact ⟨y, rfl⟩
  · exact ⟨x, rfl⟩

theorem larger_abs_comm (x y : Float) : larger x.abs y.abs = larger y.abs x.abs := by
  have same := (larger_comm x.abs y.abs).abs_eq
  obtain ⟨z, hz⟩ := exists_larger_abs x y
  obtain ⟨z', hz'⟩ := exists_larger_abs y x
  rwa [hz, hz', Binary64.abs_abs, Binary64.abs_abs, ← hz, ← hz'] at same

/-! ## Differences -/

theorem unpack_word_neg (s : UnpackedFloat.Sign) (e : BitVec 11) (m : BitVec 52) :
    UnpackedFloat.unpack Format.binary64 (word (-s) e m)
      = (UnpackedFloat.unpack Format.binary64 (word s e m)).neg := by
  rw [unpack_word, unpack_word]
  split_ifs <;> rfl

/-- The sign of a value decides no other bit of it. -/
theorem decode_encode_neg (u : UnpackedFloat) :
    decode (encode u.neg) = (decode (encode u)).neg := by
  change UnpackedFloat.unpack Format.binary64 (UnpackedFloat.pack Format.binary64 u.neg)
    = (UnpackedFloat.unpack Format.binary64 (UnpackedFloat.pack Format.binary64 u)).neg
  cases u with
  | notANumber => exact unpack_pack (u := .notANumber) trivial
  | infinity s => exact unpack_word_neg s _ _
  | zero s => exact unpack_word_neg s _ _
  | finite s m e hp =>
    simp only [UnpackedFloat.neg, UnpackedFloat.pack]
    split
    · exact unpack_word_neg s _ _
    · split
      · exact unpack_word_neg s _ _
      · exact unpack_word_neg s _ _

theorem round_neg (s : UnpackedFloat.Sign) (m : Nat) (e : Int) :
    UnpackedFloat.round Format.binary64 (-s) m e
      = (UnpackedFloat.round Format.binary64 s m e).neg := by
  simp only [UnpackedFloat.round, UnpackedFloat.roundWithAccuracy]
  split <;> rfl

theorem normalize_neg (i e : Int) :
    SameButZero (.normalize Format.binary64 (-i) e .positive)
      (UnpackedFloat.normalize Format.binary64 i e .positive).neg := by
  unfold UnpackedFloat.normalize
  rcases lt_trichotomy i 0 with negative | rfl | positive
  · rw [Int.compare_eq_lt.mpr negative, Int.compare_eq_gt.mpr (by omega)]
    exact .inl (round_neg .negative _ e)
  · exact .zeros _ _
  · rw [Int.compare_eq_gt.mpr positive, Int.compare_eq_lt.mpr (by omega), Int.neg_neg]
    exact .inl (round_neg .positive _ e)

/-- Exchanged operands give the opposite, but for the sign of a zero. -/
theorem sub_swap (u v : UnpackedFloat) :
    SameButZero (.sub Format.binary64 v u) (UnpackedFloat.sub Format.binary64 u v).neg := by
  cases u with
  | notANumber => cases v <;> exact .refl _
  | infinity s =>
    cases v with
    | infinity t => cases s <;> cases t <;> exact .refl _
    | zero | finite | notANumber => exact .refl _
  | zero s =>
    cases v with
    | zero t => cases s <;> cases t <;> exact .zeros _ _
    | infinity t => cases t <;> exact .refl _
    | finite t m e hp => cases t <;> exact .refl _
    | notANumber => exact .refl _
  | finite s m e hp =>
    cases v with
    | finite t n f hq =>
      simp only [UnpackedFloat.sub]
      rw [← Int.neg_sub, min_comm]
      exact normalize_neg _ _
    | infinity t => cases t <;> exact .refl _
    | zero | notANumber => exact .refl _

/-- **The distance is the same from either side.** -/
protected theorem abs_sub_comm (x y : Float) : (x - y).abs = (y - x).abs := by
  have opposite :
      encode (UnpackedFloat.sub Format.binary64 (decode x) (decode y)).neg = -(x - y) := by
    apply decode_injective
    rw [decode_encode_neg, decode_neg]
    rfl
  have swapped : Agree (y - x) (-(x - y)) := by
    rw [← opposite]
    exact agree_encode (sub_swap (decode x) (decode y))
  rw [swapped.abs_eq, Binary64.abs_neg]

end Seidel.Binary64
