import Seidel.Proofs.Binary64.Comparison

/-!
# Infinities and values that are not numbers

How the special values run through sums, differences and products. A finite operand never brings
an infinity back to a finite value, and nothing brings back what is not a number.
-/

namespace Seidel.Binary64

open Float.Model

theorem decode_add {x y : Float} {u : UnpackedFloat}
    (h : UnpackedFloat.add Format.binary64 (decode x) (decode y) = u) (canonical : Canonical u) :
    decode (x + y) = u := by
  subst h
  exact decode_encode canonical

theorem decode_sub {x y : Float} {u : UnpackedFloat}
    (h : UnpackedFloat.sub Format.binary64 (decode x) (decode y) = u) (canonical : Canonical u) :
    decode (x - y) = u := by
  subst h
  exact decode_encode canonical

theorem decode_mul {x y : Float} {u : UnpackedFloat}
    (h : UnpackedFloat.mul Format.binary64 (decode x) (decode y) = u) (canonical : Canonical u) :
    decode (x * y) = u := by
  subst h
  exact decode_encode canonical

/-! ## Infinities -/

theorem add_infinity {x y : Float} {s : UnpackedFloat.Sign} (hx : x.isFinite = true)
    (hy : decode y = .infinity s) : decode (x + y) = .infinity s := by
  have h : UnpackedFloat.add Format.binary64 (decode x) (decode y) = .infinity s := by
    rcases isFinite_iff.mp hx with ⟨t, hx⟩ | ⟨t, m, e, hp, hx⟩ <;> rw [hx, hy] <;> rfl
  exact decode_add h trivial

theorem infinity_sub {x y : Float} {s : UnpackedFloat.Sign} (hx : decode x = .infinity s)
    (hy : y.isFinite = true) : decode (x - y) = .infinity s := by
  have h : UnpackedFloat.sub Format.binary64 (decode x) (decode y) = .infinity s := by
    rcases isFinite_iff.mp hy with ⟨t, hy⟩ | ⟨t, m, e, hp, hy⟩ <;> rw [hx, hy] <;> rfl
  exact decode_sub h trivial

theorem finite_mul_infinity {x y : Float} {s t : UnpackedFloat.Sign} {m : Nat} {e : Int}
    {hp : 0 < m} (hx : decode x = .finite s m e hp) (hy : decode y = .infinity t) :
    decode (x * y) = .infinity (s * t) := by
  have h : UnpackedFloat.mul Format.binary64 (decode x) (decode y) = .infinity (s * t) := by
    rw [hx, hy]
    rfl
  exact decode_mul h trivial

theorem infinity_mul_finite {x y : Float} {s t : UnpackedFloat.Sign} {m : Nat} {e : Int}
    {hp : 0 < m} (hx : decode x = .infinity s) (hy : decode y = .finite t m e hp) :
    decode (x * y) = .infinity (s * t) := by
  have h : UnpackedFloat.mul Format.binary64 (decode x) (decode y) = .infinity (s * t) := by
    rw [hx, hy]
    rfl
  exact decode_mul h trivial

theorem infinity_mul_infinity {x y : Float} {s t : UnpackedFloat.Sign}
    (hx : decode x = .infinity s) (hy : decode y = .infinity t) :
    decode (x * y) = .infinity (s * t) := by
  have h : UnpackedFloat.mul Format.binary64 (decode x) (decode y) = .infinity (s * t) := by
    rw [hx, hy]
    rfl
  exact decode_mul h trivial

theorem infinity_le_infinity {x y : Float} {s : UnpackedFloat.Sign} (hx : decode x = .infinity s)
    (hy : decode y = .infinity s) : x ≤ y := by
  rw [le_iff, hx, hy]
  refine ⟨.eq, ?_, rfl⟩
  cases s <;> rfl

theorem not_infinity_le {x y : Float} (hx : decode x = .infinity .positive)
    (hy : y.isFinite = true) : ¬ x ≤ y := by
  rw [le_iff, hx]
  rintro ⟨o, ho, le⟩
  rcases isFinite_iff.mp hy with ⟨t, hy⟩ | ⟨t, m, e, hp, hy⟩ <;>
    · rw [hy] at ho
      cases ho
      cases le

theorem not_infinity_lt {x y : Float} (hx : decode x = .infinity .positive)
    (hy : y.isFinite = true) : ¬ x < y := by
  intro h
  exact not_infinity_le hx hy (Binary64.le_of_lt h)

/-! ## Values that are not numbers -/

theorem nan_add_right {x y : Float} (hy : decode y = .notANumber) :
    decode (x + y) = .notANumber := by
  have h : UnpackedFloat.add Format.binary64 (decode x) (decode y) = .notANumber := by
    rw [hy]
    cases decode x <;> rfl
  exact decode_add h trivial

theorem nan_sub {x y : Float} (hx : decode x = .notANumber) : decode (x - y) = .notANumber := by
  have h : UnpackedFloat.sub Format.binary64 (decode x) (decode y) = .notANumber := by
    rw [hx]
    cases decode y <;> rfl
  exact decode_sub h trivial

theorem zero_mul_infinity {x y : Float} {s t : UnpackedFloat.Sign} (hx : decode x = .zero s)
    (hy : decode y = .infinity t) : decode (x * y) = .notANumber := by
  have h : UnpackedFloat.mul Format.binary64 (decode x) (decode y) = .notANumber := by
    rw [hx, hy]
    rfl
  exact decode_mul h trivial

theorem infinity_mul_zero {x y : Float} {s t : UnpackedFloat.Sign} (hx : decode x = .infinity s)
    (hy : decode y = .zero t) : decode (x * y) = .notANumber := by
  have h : UnpackedFloat.mul Format.binary64 (decode x) (decode y) = .notANumber := by
    rw [hx, hy]
    rfl
  exact decode_mul h trivial

theorem nan_mul_right {x y : Float} (hy : decode y = .notANumber) :
    decode (x * y) = .notANumber := by
  have h : UnpackedFloat.mul Format.binary64 (decode x) (decode y) = .notANumber := by
    rw [hy]
    cases decode x <;> rfl
  exact decode_mul h trivial

theorem not_nan_le {x y : Float} (hx : decode x = .notANumber) : ¬ x ≤ y := by
  rw [le_iff, hx]
  rintro ⟨o, ho, _⟩
  cases ho

theorem not_le_nan {x y : Float} (hy : decode y = .notANumber) : ¬ x ≤ y := by
  have none : (decode x).compare .notANumber = none := by
    cases decode x <;> simp [UnpackedFloat.compare]
  rw [le_iff, hy, none]
  rintro ⟨o, ho, _⟩
  cases ho

/-! ## Zeros -/

theorem zero_mul_of_isFinite {x y : Float} {s : UnpackedFloat.Sign} (hx : decode x = .zero s)
    (hy : y.isFinite = true) : ∃ t, decode (x * y) = .zero t := by
  have h : ∃ t, UnpackedFloat.mul Format.binary64 (decode x) (decode y) = .zero t := by
    rcases isFinite_iff.mp hy with ⟨t, hy⟩ | ⟨t, m, e, hp, hy⟩ <;> rw [hx, hy] <;> exact ⟨_, rfl⟩
  obtain ⟨t, h⟩ := h
  exact ⟨t, decode_mul h trivial⟩

theorem mul_zero_of_isFinite {x y : Float} {s : UnpackedFloat.Sign} (hx : x.isFinite = true)
    (hy : decode y = .zero s) : ∃ t, decode (x * y) = .zero t := by
  have h : ∃ t, UnpackedFloat.mul Format.binary64 (decode x) (decode y) = .zero t := by
    rcases isFinite_iff.mp hx with ⟨t, hx⟩ | ⟨t, m, e, hp, hx⟩ <;> rw [hx, hy] <;> exact ⟨_, rfl⟩
  obtain ⟨t, h⟩ := h
  exact ⟨t, decode_mul h trivial⟩

/-! ## Values that are not finite -/

theorem special_iff {u : UnpackedFloat} :
    u.isFinite = false ↔ u = .notANumber ∨ ∃ s, u = .infinity s := by
  cases u <;> simp [UnpackedFloat.isFinite]

theorem encode_not_finite {u : UnpackedFloat} (h : u.isFinite = false) :
    (encode u).isFinite = false := by
  have canonical : Canonical u := by
    rcases special_iff.mp h with rfl | ⟨s, rfl⟩ <;> trivial
  change (decode (encode u)).isFinite = false
  rw [decode_encode canonical, h]

/-- What is not finite stays so under addition. -/
theorem add_not_finite {x y : Float} (h : x.isFinite = false ∨ y.isFinite = false) :
    (x + y).isFinite = false := by
  change (decode x).isFinite = false ∨ (decode y).isFinite = false at h
  apply encode_not_finite (u := UnpackedFloat.add Format.binary64 (decode x) (decode y))
  simp only [special_iff] at h
  rcases h with (hx | ⟨s, hx⟩) | hy | ⟨s, hy⟩
  · rw [hx]
    rfl
  · rw [hx]
    cases decode y with
    | infinity t => cases s <;> cases t <;> rfl
    | _ => rfl
  · rw [hy]
    cases decode x <;> rfl
  · rw [hy]
    cases decode x with
    | infinity t => cases s <;> cases t <;> rfl
    | _ => rfl

theorem sub_not_finite {x y : Float} (h : x.isFinite = false) : (x - y).isFinite = false := by
  change (decode x).isFinite = false at h
  apply encode_not_finite (u := UnpackedFloat.sub Format.binary64 (decode x) (decode y))
  rcases special_iff.mp h with hx | ⟨s, hx⟩
  · rw [hx]
    rfl
  · rw [hx]
    cases decode y with
    | infinity t => cases s <;> cases t <;> rfl
    | _ => rfl

/-- Not even a zero hides a factor that is not finite. -/
theorem mul_not_finite {x y : Float} (h : y.isFinite = false) : (x * y).isFinite = false := by
  change (decode y).isFinite = false at h
  apply encode_not_finite (u := UnpackedFloat.mul Format.binary64 (decode x) (decode y))
  rcases special_iff.mp h with hy | ⟨s, hy⟩
  · rw [hy]
    cases decode x <;> rfl
  · rw [hy]
    cases decode x <;> rfl

end Seidel.Binary64
