import Seidel.Proofs.Binary64.Special

/-!
# Floats that agree

Two floats agree when they compare as equal or are both no numbers: they are the same, or zeros that
may differ in their sign (`agree_iff`). Sums, differences and products of floats that agree agree
again, and so do their quotients by one and the same divisor. Quotients by the two zeros do not.
A zero that is added leaves a sum that agrees with the other summand.
-/

namespace Seidel.Binary64

open Float.Model

/-- Equal as floats compare, or both not a number. -/
def Agree (x y : Float) : Prop :=
  (x == y) = true ∨ x.isNaN = true ∧ y.isNaN = true

/-- The same, but for the sign of a zero. -/
def SameButZero (u v : UnpackedFloat) : Prop :=
  u = v ∨ ∃ s t, u = .zero s ∧ v = .zero t

theorem agree_iff {x y : Float} : Agree x y ↔ SameButZero (decode x) (decode y) := by
  have positive : decode 0 = .zero .positive := rfl
  have negative : decode (-0) = .zero .negative := by
    rw [decode_neg, positive]
    rfl
  constructor
  · rintro (equal | ⟨hx, hy⟩)
    · rcases (Float.beq_iff_ne_nan_and_eq.mp equal).2.2 with rfl | ⟨rfl, rfl⟩ | ⟨rfl, rfl⟩
      · exact .inl rfl
      · exact .inr ⟨_, _, positive, negative⟩
      · exact .inr ⟨_, _, negative, positive⟩
    · exact .inl ((isNaN_iff.mp hx).trans (isNaN_iff.mp hy).symm)
  · rintro (same | ⟨s, t, hx, hy⟩)
    · obtain rfl := decode_injective same
      cases hx : x.isNaN with
      | true => exact .inr ⟨hx, hx⟩
      | false =>
        refine .inl (Float.beq_self_iff.mpr ?_)
        rintro rfl
        cases hx
    · left
      change (decode x).beq (decode y) = true
      rw [hx, hy]
      cases s <;> cases t <;> rfl

theorem agree_of_eq {x y : Float} (h : x = y) : Agree x y :=
  agree_iff.mpr (.inl (congrArg decode h))

theorem agree_encode {u v : UnpackedFloat} (h : SameButZero u v) : Agree (encode u) (encode v) := by
  rcases h with rfl | ⟨s, t, rfl, rfl⟩
  · exact agree_of_eq rfl
  · refine agree_iff.mpr (.inr ⟨s, t, decode_encode trivial, decode_encode trivial⟩)

/-! ## Arithmetic -/

namespace SameButZero

variable {u u' v v' w : UnpackedFloat}

theorem refl (u : UnpackedFloat) : SameButZero u u := .inl rfl

theorem zeros (s t : UnpackedFloat.Sign) : SameButZero (.zero s) (.zero t) := .inr ⟨s, t, rfl, rfl⟩

theorem trans (h : SameButZero u v) (h' : SameButZero v w) : SameButZero u w := by
  rcases h with rfl | ⟨s, t, rfl, rfl⟩
  · exact h'
  · rcases h' with rfl | ⟨_, t', _, rfl⟩
    · exact zeros s t
    · exact zeros s t'

/-- An operation that the sign of a zero does not matter to, on either side. -/
theorem congr {op : UnpackedFloat → UnpackedFloat → UnpackedFloat}
    (left : ∀ s t v, SameButZero (op (.zero s) v) (op (.zero t) v))
    (right : ∀ u s t, SameButZero (op u (.zero s)) (op u (.zero t)))
    (hu : SameButZero u u') (hv : SameButZero v v') : SameButZero (op u v) (op u' v') := by
  have first : SameButZero (op u v) (op u' v) := by
    rcases hu with rfl | ⟨s, t, rfl, rfl⟩
    · exact refl _
    · exact left s t v
  have second : SameButZero (op u' v) (op u' v') := by
    rcases hv with rfl | ⟨s, t, rfl, rfl⟩
    · exact refl _
    · exact right u' s t
  exact first.trans second

theorem add (hu : SameButZero u u') (hv : SameButZero v v') :
    SameButZero (.add Format.binary64 u v) (.add Format.binary64 u' v') := by
  refine congr (fun s t v => ?_) (fun u s t => ?_) hu hv
  · cases v with
    | zero r => cases s <;> cases t <;> cases r <;> exact zeros _ _
    | _ => exact refl _
  · cases u with
    | zero r => cases s <;> cases t <;> cases r <;> exact zeros _ _
    | _ => exact refl _

theorem sub (hu : SameButZero u u') (hv : SameButZero v v') :
    SameButZero (.sub Format.binary64 u v) (.sub Format.binary64 u' v') := by
  refine congr (fun s t v => ?_) (fun u s t => ?_) hu hv
  · cases v with
    | zero r => cases s <;> cases t <;> cases r <;> exact zeros _ _
    | _ => exact refl _
  · cases u with
    | zero r => cases s <;> cases t <;> cases r <;> exact zeros _ _
    | _ => exact refl _

theorem mul (hu : SameButZero u u') (hv : SameButZero v v') :
    SameButZero (.mul Format.binary64 u v) (.mul Format.binary64 u' v') := by
  refine congr (fun s t v => ?_) (fun u s t => ?_) hu hv
  · cases v with
    | infinity | notANumber => exact refl _
    | zero | finite => exact zeros _ _
  · cases u with
    | infinity | notANumber => exact refl _
    | zero | finite => exact zeros _ _

theorem div (hu : SameButZero u u') (d : UnpackedFloat) :
    SameButZero (.div Format.binary64 u d) (.div Format.binary64 u' d) := by
  rcases hu with rfl | ⟨s, t, rfl, rfl⟩
  · exact refl _
  · cases d with
    | zero | notANumber => exact refl _
    | infinity | finite => exact zeros _ _

end SameButZero

namespace Agree

variable {x x' y y' z : Float} {s : UnpackedFloat.Sign}

theorem refl (x : Float) : Agree x x := agree_of_eq rfl

theorem symm (h : Agree x y) : Agree y x := by
  rw [agree_iff] at h ⊢
  rcases h with same | ⟨s, t, hx, hy⟩
  · exact .inl same.symm
  · exact .inr ⟨t, s, hy, hx⟩

theorem trans (h : Agree x y) (h' : Agree y z) : Agree x z :=
  agree_iff.mpr ((agree_iff.mp h).trans (agree_iff.mp h'))

theorem abs_eq (h : Agree x y) : x.abs = y.abs := by
  apply decode_injective
  rw [decode_abs, decode_abs]
  rcases agree_iff.mp h with same | ⟨s, t, hx, hy⟩
  · rw [same]
  · rw [hx, hy]
    rfl

theorem add (hx : Agree x x') (hy : Agree y y') : Agree (x + y) (x' + y') :=
  agree_encode ((agree_iff.mp hx).add (agree_iff.mp hy))

/-- A zero adds nothing, though the sign of another zero may change. -/
theorem add_zero (hy : decode y = .zero s) : Agree (x + y) x := by
  have same : SameButZero (.add Format.binary64 (decode x) (decode y)) (decode x) := by
    rw [hy]
    cases decode x with
    | zero t => cases s <;> cases t <;> exact .zeros _ _
    | infinity | finite | notANumber => exact .refl _
  have agree := agree_encode same
  rwa [encode_decode] at agree

theorem zero_add (hx : decode x = .zero s) : Agree (x + y) y := by
  have same : SameButZero (.add Format.binary64 (decode x) (decode y)) (decode y) := by
    rw [hx]
    cases decode y with
    | zero t => cases s <;> cases t <;> exact .zeros _ _
    | infinity | finite | notANumber => exact .refl _
  have agree := agree_encode same
  rwa [encode_decode] at agree

theorem sub (hx : Agree x x') (hy : Agree y y') : Agree (x - y) (x' - y') :=
  agree_encode ((agree_iff.mp hx).sub (agree_iff.mp hy))

theorem mul (hx : Agree x x') (hy : Agree y y') : Agree (x * y) (x' * y') :=
  agree_encode ((agree_iff.mp hx).mul (agree_iff.mp hy))

theorem div (hx : Agree x x') (d : Float) : Agree (x / d) (x' / d) :=
  agree_encode ((agree_iff.mp hx).div (decode d))

end Agree

end Seidel.Binary64
