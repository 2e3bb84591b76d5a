import Seidel.Decimal.Shortest
import Seidel.Proofs.Decimal.Reading

/-!
# Every finite float is a decimal

The exact expansion of a float reads back as the float: where it needs a division by a power of
ten, the division leaves no remainder. So what the search for fewer digits returns reads back too
(`toFloat_shortest`).
-/

namespace Seidel

open Float.Model Binary64

namespace Binary

/-- The parts of the bits are those of the decoded value. -/
theorem ofMagnitude_eq {x : Float} :
    match decode x with
    | .finite _ m e _ => ofMagnitude x = ⟨m, e⟩
    | .zero _ => (ofMagnitude x).mantissa = 0
    | _ => True := by
  have mantissa := toNat_mantissaBits x.toBits.toBitVec
  have exponent := toNat_exponentBits x.toBits.toBitVec
  have toNat : x.toBits.toBitVec.toNat = x.toBits.toNat := rfl
  have split : ofMagnitude x = if (exponentBits x.toBits.toBitVec).toNat = 0 then
      ⟨(mantissaBits x.toBits.toBitVec).toNat, -1074⟩
    else ⟨(mantissaBits x.toBits.toBitVec).toNat + 0x10000000000000,
      ((exponentBits x.toBits.toBitVec).toNat : Int) - 1075⟩ := by
    rw [mantissa, exponent, toNat]
    rfl
  have reads := reads_decode x
  generalize decode x = u at *
  cases reads with
  | infinity => trivial
  | notANumber => trivial
  | zero least none =>
    rw [split, if_pos least]
    exact none
  | subnormal _ least =>
    rw [split, if_pos least]
  | normal _ positive _ =>
    rw [split, if_neg (Nat.ne_of_gt positive)]
    exact congrArg (Binary.mk · _) (Nat.add_comm ..)

end Binary

namespace Decimal

/-- A quotient by a power of ten that is a binary fraction is exact. -/
theorem divCore_exact {m : Nat} {e : Int} {hp : 0 < m} {s : UnpackedFloat.Sign}
    (canonical : Canonical (.finite s m e hp)) {k : Nat} (he : e = -k) :
    ∃ j : Nat, UnpackedFloat.divCore Format.binary64 (m * 5 ^ k) 0 (10 ^ k) 0
      = (m * 2 ^ j, e - j, .exact) := by
  obtain ⟨upper, lower, _, _⟩ := canonical
  have five : 0 < 5 ^ k := Nat.pow_pos (by decide)
  have ten : 10 ^ k = 5 ^ k * 2 ^ k := by rw [← Nat.mul_pow]
  have bits : (m * 5 ^ k).log2 ≤ (5 ^ k).log2 + 53 := log2_mul_le hp five upper
  generalize hT : Format.binary64.targetExponent
    (totalExponent (m * 5 ^ k) 0 - totalExponent (10 ^ k) 0) = T
  have low : T ≤ -k := by
    unfold totalExponent Format.targetExponent at hT
    rw [mantissaBits_eq, ten, log2_mul_two_pow five] at hT
    change max _ (-1074 : Int) = _ at hT
    omega
  have shifted : (m * 5 ^ k) <<< (-T).toNat = m * 2 ^ ((-T).toNat - k) * 10 ^ k := by
    have split : (-T).toNat = (-T).toNat - k + k := by omega
    rw [Nat.shiftLeft_eq, ten]
    conv => lhs; rw [split, Nat.pow_add]
    ring
  refine ⟨(-T).toNat - k, ?_⟩
  unfold UnpackedFloat.divCore
  have least : min (0 - 0 : Int) T = T := by omega
  have amount : (0 - 0 - T : Int) = -T := by omega
  simp only [hT, least, amount, shifted, Nat.mul_mod_left,
    Nat.mul_div_cancel _ (Nat.pow_pos (by decide : 0 < 10)), UnpackedFloat.accuracyOfFraction,
    ↓reduceIte, Prod.mk.injEq, and_true, true_and]
  omega

theorem toFloat_fraction {m : Nat} {e : Int} {hp : 0 < m}
    (canonical : Canonical (.finite .positive m e hp)) {k : Nat} (pos : 0 < k) (he : e = -k) :
    toFloat ⟨m * 5 ^ k, e⟩ = encode (.finite .positive m e hp) := by
  obtain ⟨j, exact⟩ := divCore_exact canonical he
  have sign : decide (e < 0) = true := decide_eq_true (by omega)
  have size : e.natAbs = k := by omega
  have digits : 0 < m * 5 ^ k := Nat.mul_pos hp (Nat.pow_pos (by decide))
  have long : ¬ (m * 5 ^ k < 2 ^ 53 ∧ k ≤ 22) := by
    rintro ⟨small, few⟩
    obtain ⟨_, lower, _, normal⟩ := canonical
    have five : 5 ^ 1 ≤ 5 ^ k := Nat.pow_le_pow_right (by decide) pos
    have := Nat.mul_le_mul (show 2 ^ 52 ≤ m by omega) five
    omega
  have limit : (2 : Int) ^ Format.binary64.exponentBits = 2048 := rfl
  have positive : (-(-(k : Int))).toNat = k := by omega
  unfold toFloat
  rw [sign, size]
  unfold Float.ofScientific
  rw [dif_neg long]
  change encode (UnpackedFloat.ofScientific Format.binary64 (m * 5 ^ k) (Int.negOfNat k)) = _
  congr 1
  obtain ⟨_, lower, _, _⟩ := id canonical
  unfold UnpackedFloat.ofScientific
  rw [Int.negOfNat_eq, Int.ofNat_eq_natCast, limit, dif_neg (by omega), if_neg (by omega),
    if_neg (by omega), if_neg (by omega)]
  simp only [UnpackedFloat.div, positive, exact]
  exact round_canonical_scaled canonical j

/-- Finite and without a sign. -/
def Unsigned (x : Float) : Prop :=
  decode x = .zero .positive ∨ ∃ m e hp, decode x = .finite .positive m e hp

theorem unsigned_abs {x : Float} (h : x.isFinite = true) : Unsigned x.abs := by
  unfold Unsigned
  rw [decode_abs]
  rcases isFinite_iff.mp h with ⟨s, eq⟩ | ⟨s, m, e, hp, eq⟩
  · rw [eq]
    exact Or.inl rfl
  · rw [eq]
    exact Or.inr ⟨m, e, hp, rfl⟩

theorem isFinite_of_unsigned {x : Float} (h : Unsigned x) : x.isFinite = true :=
  isFinite_iff.mpr (h.imp (fun zero => ⟨_, zero⟩) fun ⟨m, e, hp, eq⟩ => ⟨_, m, e, hp, eq⟩)

/-- The exact expansion reads back. -/
theorem toFloat_toDecimal {x : Float} (h : Unsigned x) :
    (Binary.ofMagnitude x).toDecimal.toFloat = x := by
  have parts := @Binary.ofMagnitude_eq x
  have canonical := canonical_decode x
  rcases h with zero | ⟨m, e, hp, finite⟩
  · rw [zero] at parts
    rw [Binary.toDecimal, if_pos parts, ← encode_decode x, zero]
    exact toFloat_zero 0
  · rw [finite] at parts canonical
    have value : encode (.finite .positive m e hp) = x := finite ▸ encode_decode x
    rw [parts, Binary.toDecimal, if_neg (Nat.ne_of_gt hp)]
    by_cases negative : e < 0
    · rw [if_pos negative]
      exact (toFloat_fraction canonical (k := e.natAbs) (by omega) (by omega)).trans value
    · have exponent : e - (e.natAbs + 53 : Nat) = -53 := by omega
      have scaled := round_canonical_scaled canonical (e.natAbs + 53)
      have whole := toFloat_whole (e := 0) (Nat.mul_pos hp (Nat.two_pow_pos e.natAbs)) (by omega)
      rw [Nat.pow_zero, Nat.mul_one, Nat.mul_assoc, ← Nat.pow_add, ← exponent, scaled] at whole
      rw [if_neg negative]
      exact whole.trans value

/-! ## Fewer digits -/

theorem readsAs_iff {x : Float} {d : Decimal} : readsAs x d = true ↔ d.toFloat = x := by
  rw [readsAs, beq_iff_eq, Float.toBits_inj]

theorem toFloat_shortest {tie : Tie} {x : Float} (h : Unsigned x) :
    (shortest tie x).toFloat = x := by
  unfold shortest
  extract_lets binary value step length found
  cases eq : found with
  | none => exact toFloat_toDecimal h
  | some p =>
    obtain ⟨n, _, hn⟩ := List.exists_of_findSome?_eq_some eq
    have reads := List.find?_some hn
    rw [Bool.and_eq_true] at reads
    exact readsAs_iff.mp reads.2

/-- The search finds nothing but zero for zero. -/
theorem shortest_zero (tie : Tie) : shortest tie 0 = ⟨0, 0⟩ := by
  have near (n : Nat) : neighbours tie ⟨0, 0⟩ 1 (n + 1) = [(0, ⟨0, 0⟩)] := by
    simp [neighbours, Nat.sub_eq_zero_of_le (Nat.le_add_left 1 n)]
  unfold shortest
  extract_lets binary value step length found
  have zero : value = ⟨0, 0⟩ := rfl
  have single : length = 1 := congrArg (fun d => d.text.length) zero
  cases eq : found with
  | none => rfl
  | some p =>
    obtain ⟨n, _, hn⟩ := List.exists_of_findSome?_eq_some eq
    have mem := List.mem_of_find?_eq_some hn
    rw [zero, single, near, List.mem_singleton] at mem
    rw [mem]
    rfl

/-- What has no digits is zero, and has no power of ten either. -/
theorem exponent_shortest {tie : Tie} {x : Float} (h : Unsigned x)
    (none : (shortest tie x).digits = 0) : (shortest tie x).exponent ≤ 0 := by
  by_contra positive
  have value : (shortest tie x).toFloat = x := toFloat_shortest h
  have zero : x = 0 := by
    generalize shortest tie x = d at *
    obtain ⟨n, e⟩ := d
    obtain rfl : n = 0 := none
    have whole : (e.toNat : Int) = e := Int.toNat_of_nonneg (Int.le_of_lt (Int.not_le.mp positive))
    rw [← whole, toFloat_zero] at value
    exact value.symm
  subst zero
  rw [shortest_zero] at positive
  exact positive (Int.le_refl 0)

end Decimal

end Seidel
