import Mathlib

/-!
# Floats taken apart

A float is read as a sign, a mantissa and an exponent, or as one of the special values, and
nothing is lost on the way: `encode_decode` and `decode_encode`. Facts about arithmetic on floats
are facts about decoded values; here those of negation, absolute value and the two tests for
values that are no numbers or not finite.
-/

namespace Seidel.Binary64

open Float.Model

/-- What the bits of a float stand for. -/
def decode (x : Float) : UnpackedFloat := x.toModel.unpack

def encode (u : UnpackedFloat) : Float := .ofModel (Float.Model.pack u)

/-- A mantissa of 53 bits or the least exponent, and an exponent that is not too large. -/
def Canonical : UnpackedFloat → Prop
  | .finite _ m e _ => m < 2 ^ 53 ∧ -1074 ≤ e ∧ e ≤ 971 ∧ (2 ^ 52 ≤ m ∨ e = -1074)
  | _ => True

/-! ## The three parts of a word -/

abbrev signBit (b : BitVec 64) : BitVec 1 := @UnpackedFloat.unpackSign Format.binary64 b

abbrev exponentBits (b : BitVec 64) : BitVec 11 := @UnpackedFloat.unpackExponent Format.binary64 b

abbrev mantissaBits (b : BitVec 64) : BitVec 52 := @UnpackedFloat.unpackMantissa Format.binary64 b

abbrev word (s : UnpackedFloat.Sign) (e : BitVec 11) (m : BitVec 52) : BitVec 64 :=
  UnpackedFloat.packComponents Format.binary64 s e m

theorem toNat_signBit (b : BitVec 64) : (signBit b).toNat = b.toNat / 2 ^ 63 := by
  have := b.isLt
  simp [signBit, UnpackedFloat.unpackSign, Nat.shiftRight_eq_div_pow]
  omega

theorem toNat_exponentBits (b : BitVec 64) :
    (exponentBits b).toNat = b.toNat / 2 ^ 52 % 2 ^ 11 := by
  simp [exponentBits, UnpackedFloat.unpackExponent, Nat.shiftRight_eq_div_pow]

theorem toNat_mantissaBits (b : BitVec 64) : (mantissaBits b).toNat = b.toNat % 2 ^ 52 := by
  simp [mantissaBits, UnpackedFloat.unpackMantissa]

theorem word_parts (b : BitVec 64) :
    word (.ofBitVec (signBit b)) (exponentBits b) (mantissaBits b) = b :=
  @UnpackedFloat.packComponents_unpackSign_unpackExponent_unpackMantissa Format.binary64 b

theorem unpack_word (s : UnpackedFloat.Sign) (e : BitVec 11) (m : BitVec 52) :
    UnpackedFloat.unpack Format.binary64 (word s e m) =
      if e = -1#11 then if m = 0#52 then .infinity s else .notANumber
      else if e = 0#11 then
        if h : m = 0#52 then .zero s
        else .finite s m.toNat (-1074) (by simpa [BitVec.toNat_pos, BitVec.pos_iff_ne_zero])
      else .finite s (2 ^ 52 + m.toNat) ((e.toNat : Int) - 1075) (by omega) := by
  have hm : (1#1 ++ m).toNat = 2 ^ 52 + m.toNat := by
    rw [BitVec.toNat_append, ← Nat.shiftLeft_add_eq_or_of_lt m.isLt]
    rfl
  simp only [UnpackedFloat.unpack, UnpackedFloat.unpackMantissa_packComponents,
    UnpackedFloat.unpackExponent_packComponents, UnpackedFloat.unpackSign_packComponents,
    UnpackedFloat.Sign.ofBitVec_toBitVec, hm]
  by_cases he : e = 0#11
  · subst he
    rfl
  · simp only [he, ↓reduceIte]
    rfl

/-- What the three parts of a word say that it stands for. -/
inductive Reads (b : BitVec 64) : UnpackedFloat → Prop
  | infinity (s : UnpackedFloat.Sign) : Reads b (.infinity s)
  | notANumber : Reads b .notANumber
  | zero : (exponentBits b).toNat = 0 → (mantissaBits b).toNat = 0 →
    Reads b (.zero (.ofBitVec (signBit b)))
  | subnormal (hp : 0 < (mantissaBits b).toNat) : (exponentBits b).toNat = 0 →
    Reads b (.finite (.ofBitVec (signBit b)) (mantissaBits b).toNat (-1074) hp)
  | normal (hp : 0 < 2 ^ 52 + (mantissaBits b).toNat) :
    0 < (exponentBits b).toNat → (exponentBits b).toNat < 2047 →
    Reads b (.finite (.ofBitVec (signBit b)) (2 ^ 52 + (mantissaBits b).toNat)
      ((exponentBits b).toNat - 1075) hp)

theorem reads_unpack (b : BitVec 64) : Reads b (UnpackedFloat.unpack Format.binary64 b) := by
  have unpack := unpack_word (.ofBitVec (signBit b)) (exponentBits b) (mantissaBits b)
  rw [word_parts] at unpack
  rw [unpack]
  split
  · split
    · exact .infinity _
    · exact .notANumber
  · rename_i special
    split
    · rename_i least
      split
      · rename_i none
        exact .zero (congrArg BitVec.toNat least) (congrArg BitVec.toNat none)
      · exact .subnormal _ (congrArg BitVec.toNat least)
    · rename_i least
      have he := (exponentBits b).isLt
      have special : (exponentBits b).toNat ≠ 2047 := fun h => special (BitVec.eq_of_toNat_eq h)
      have least : (exponentBits b).toNat ≠ 0 := fun h => least (BitVec.eq_of_toNat_eq h)
      exact .normal _ (by omega) (by omega)

theorem reads_decode (x : Float) : Reads x.toBits.toBitVec (decode x) :=
  reads_unpack _

theorem Reads.canonical {b : BitVec 64} {u : UnpackedFloat} (h : Reads b u) : Canonical u := by
  have hm := (mantissaBits b).isLt
  cases h with
  | infinity => trivial
  | notANumber => trivial
  | zero => trivial
  | subnormal => exact ⟨by omega, by omega, by omega, Or.inr rfl⟩
  | normal => exact ⟨by omega, by omega, by omega, Or.inl (by omega)⟩

theorem canonical_decode (x : Float) : Canonical (decode x) :=
  (reads_decode x).canonical

/-! ## There and back -/

theorem log2_of_normal {m : Nat} (lower : 2 ^ 52 ≤ m) (upper : m < 2 ^ 53) : m.log2 = 52 :=
  (Nat.log2_eq_iff (by omega)).mpr ⟨lower, upper⟩

theorem exponentBias_eq : Format.binary64.exponentBias = 1023 := rfl

theorem mantissaBits_eq : Format.binary64.mantissaBits = 53 := rfl

theorem pack_normal (s : UnpackedFloat.Sign) {m : Nat} {e : Int} (hp : 0 < m)
    (lower : 2 ^ 52 ≤ m) (upper : m < 2 ^ 53) (he : -1074 ≤ e) (he' : e ≤ 971) :
    UnpackedFloat.pack Format.binary64 (.finite s m e hp) =
      word s (BitVec.ofNat 11 (e + 1075).toNat) (BitVec.ofNat 52 m) := by
  have hb : (e + (1023 : Nat) + (52 : Nat)).toNat = (e + 1075).toNat := by omega
  have hn : ¬ 2 ^ 11 ≤ (e + 1075).toNat + 1 := by omega
  simp only [UnpackedFloat.pack, exponentBias_eq, mantissaBits_eq, hb, hn,
    log2_of_normal lower upper, ↓reduceIte]

theorem pack_subnormal (s : UnpackedFloat.Sign) {m : Nat} (hp : 0 < m) (upper : m < 2 ^ 52) :
    UnpackedFloat.pack Format.binary64 (.finite s m (-1074) hp) =
      word s 0#11 (BitVec.ofNat 52 m) := by
  have hl : m.log2 < 52 := (Nat.log2_lt (by omega)).mpr upper
  have hb : ((-1074 : Int) + (1023 : Nat) + (52 : Nat)).toNat = 1 := rfl
  have hn : ¬ 2 ^ 11 ≤ 1 + 1 := by decide
  have hl' : ¬ m.log2 + 1 = 53 := by omega
  simp only [UnpackedFloat.pack, exponentBias_eq, mantissaBits_eq, hb, hn, hl', ↓reduceIte]

theorem unpack_pack {u : UnpackedFloat} (h : Canonical u) :
    UnpackedFloat.unpack Format.binary64 (UnpackedFloat.pack Format.binary64 u) = u := by
  cases u with
  | infinity s => exact unpack_word s (-1#11) 0#52
  | notANumber => exact unpack_word .positive (-1#11) (1#52 <<< 51)
  | zero s => exact unpack_word s 0#11 0#52
  | finite s m e hp =>
    obtain ⟨upper, he, he', normal⟩ := h
    by_cases lower : 2 ^ 52 ≤ m
    · have hm : (BitVec.ofNat 52 m).toNat = m - 2 ^ 52 := by
        rw [BitVec.toNat_ofNat]
        omega
      have hb : (BitVec.ofNat 11 (e + 1075).toNat).toNat = (e + 1075).toNat := by
        rw [BitVec.toNat_ofNat]
        omega
      have h1 : BitVec.ofNat 11 (e + 1075).toNat ≠ -1#11 := by
        intro h
        rw [h] at hb
        change 2047 = (e + 1075).toNat at hb
        omega
      have h0 : BitVec.ofNat 11 (e + 1075).toNat ≠ 0#11 := by
        intro h
        rw [h] at hb
        change 0 = (e + 1075).toNat at hb
        omega
      rw [pack_normal s hp lower upper he he', unpack_word, if_neg h1, if_neg h0]
      simp only [hm, hb, UnpackedFloat.finite.injEq, true_and]
      omega
    · have he : e = -1074 := by omega
      have hm : (BitVec.ofNat 52 m).toNat = m := by
        rw [BitVec.toNat_ofNat]
        omega
      have h0 : BitVec.ofNat 52 m ≠ 0#52 := by
        intro h
        rw [h] at hm
        change 0 = m at hm
        omega
      subst he
      rw [pack_subnormal s hp (by omega), unpack_word, if_neg (by decide), if_pos rfl,
        dif_neg h0]
      simp only [hm]

theorem decode_encode {u : UnpackedFloat} (h : Canonical u) : decode (encode u) = u :=
  unpack_pack h

theorem decode_ofBits (b : UInt64) :
    decode (.ofBits b) = UnpackedFloat.unpack Format.binary64 b.toBitVec :=
  unpack_pack (reads_unpack _).canonical

theorem encode_decode (x : Float) : encode (decode x) = x :=
  x.ofBits_toBits

theorem decode_injective {x y : Float} (h : decode x = decode y) : x = y := by
  rw [← encode_decode x, h, encode_decode]

/-! ## Signs -/

theorem canonical_neg {u : UnpackedFloat} (h : Canonical u) : Canonical u.neg := by
  cases u <;> exact h

theorem canonical_abs {u : UnpackedFloat} (h : Canonical u) : Canonical u.abs := by
  cases u <;> exact h

theorem decode_neg (x : Float) : decode (-x) = (decode x).neg :=
  decode_encode (canonical_neg (canonical_decode x))

theorem decode_abs (x : Float) : decode x.abs = (decode x).abs :=
  decode_encode (canonical_abs (canonical_decode x))

theorem sign_neg_neg (s : UnpackedFloat.Sign) : - -s = s := by
  cases s <;> rfl

theorem neg_neg (x : Float) : - -x = x := by
  apply decode_injective
  rw [decode_neg, decode_neg]
  cases decode x <;> simp [UnpackedFloat.neg, sign_neg_neg]

theorem isFinite_neg (x : Float) : (-x).isFinite = x.isFinite := by
  change (decode (-x)).isFinite = (decode x).isFinite
  rw [decode_neg]
  cases decode x <;> rfl

theorem isFinite_abs (x : Float) : x.abs.isFinite = x.isFinite := by
  change (decode x.abs).isFinite = (decode x).isFinite
  rw [decode_abs]
  cases decode x <;> rfl

theorem isNaN_abs (x : Float) : x.abs.isNaN = x.isNaN := by
  change (decode x.abs).isNaN = (decode x).isNaN
  rw [decode_abs]
  cases decode x <;> rfl

end Seidel.Binary64
