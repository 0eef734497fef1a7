import Mathlib.Algebra.Order.Floor.Semifield
import Mathlib.Data.Rat.Floor
import SafariScript.Decimal.Whole
import SafariScript.Proofs.Decimal.Rounding
import SafariScript.Proofs.Value.Arithmetic

/-!
# Integer parts of decimals

The number that a decimal stands for is read off the sign, the significand and the exponent that the
core library unpacks from it (`value?`). The bits of a decimal say the same (`value?_eq`), and what
is computed from them is the integer part of that number, **toward zero** (`integerPart_eq`).
-/

namespace SafariScript.Decimal

open Float.Model

/-- The number that a sign, a significand and an exponent stand for. An infinity stands for none,
nor does what is not a number. -/
def unpackedValue? : UnpackedFloat → Option ℚ
  | .zero _ => some 0
  | .finite sign significand exponent _ => some (sign.apply significand * 2 ^ exponent)
  | _ => none

/-- The number that a decimal stands for. -/
def value? (x : Float) : Option ℚ := unpackedValue? x.toModel.unpack

/-- The integer next to a number, toward zero. -/
def towardZero (q : ℚ) : ℤ := if 0 ≤ q then ⌊q⌋ else ⌈q⌉

/-! ### The fields of a pattern -/

section Fields

variable (b : BitVec 64)

/-- The lowest 52 bits. -/
theorem toNat_unpackMantissa :
    (@UnpackedFloat.unpackMantissa Format.binary64 b).toNat = b.toNat % 2 ^ 52 := by
  rw [UnpackedFloat.unpackMantissa, BitVec.toNat_cast, BitVec.extractLsb_toNat]
  simp [Format.binary64]

/-- The 11 bits above them. -/
theorem toNat_unpackExponent :
    (@UnpackedFloat.unpackExponent Format.binary64 b).toNat =
      b.toNat / 2 ^ 52 % 2 ^ 11 := by
  rw [UnpackedFloat.unpackExponent, BitVec.toNat_cast, BitVec.extractLsb_toNat]
  simp [Format.binary64, Nat.shiftRight_eq_div_pow]

/-- The highest bit. -/
theorem toNat_unpackSign :
    (@UnpackedFloat.unpackSign Format.binary64 b).toNat = b.toNat / 2 ^ 63 := by
  have hlt : b.toNat / 2 ^ 63 < 2 := by omega
  show (BitVec.extractLsb (52 + 11) (52 + 11) b).toNat = _
  rw [BitVec.extractLsb_toNat, Nat.shiftRight_eq_div_pow]
  exact Nat.mod_eq_of_lt hlt

/-- The sign is negative if the highest bit is set. -/
theorem ofBitVec_unpackSign :
    UnpackedFloat.Sign.ofBitVec (@UnpackedFloat.unpackSign Format.binary64 b) =
      if 2 ^ 63 ≤ b.toNat then .negative else .positive := by
  have hsign := toNat_unpackSign b
  unfold UnpackedFloat.Sign.ofBitVec
  split
  · next h =>
    rw [h] at hsign
    rw [if_neg]
    intro hle
    simp at hsign
    omega
  · next h =>
    rw [if_pos]
    by_contra hlt
    exact h (BitVec.eq_of_toNat_eq (by rw [hsign]; simp; omega))

end Fields

/-- The magnitude that the number stands for. -/
def Binary.value (x : Binary) : ℚ := x.significand * 2 ^ x.exponent

theorem toNat_one_append {n : Nat} (v : BitVec n) : (1#1 ++ v).toNat = 2 ^ n + v.toNat := by
  rw [BitVec.toNat_append, ← Nat.shiftLeft_add_eq_or_of_lt v.isLt, Nat.shiftLeft_eq]
  simp

/-- The magnitude of a pattern, with its sign. -/
def signedValue (bits : UInt64) : ℚ :=
  if 2 ^ 63 ≤ bits.toNat then -(Binary.ofBits bits).value else (Binary.ofBits bits).value

theorem apply_mul (bits : UInt64) (n : Nat) (r : ℚ) (h : (Binary.ofBits bits).value = n * r) :
    (((if 2 ^ 63 ≤ bits.toNat then .negative else .positive : UnpackedFloat.Sign).apply n : ℤ) : ℚ)
      * r = signedValue bits := by
  unfold signedValue
  split
  · rw [h, UnpackedFloat.Sign.apply]
    push_cast
    ring
  · rw [h]
    rfl

/-- A subnormal number is a multiple of the least one. -/
theorem value_ofBits_of_eq_zero {bits : UInt64} (h : bits.toNat / 2 ^ 52 % 2 ^ 11 = 0) :
    (Binary.ofBits bits).value = ((bits.toNat % 2 ^ 52 : Nat) : ℚ) * 2 ^ (-1074 : ℤ) := by
  unfold Binary.ofBits
  dsimp only
  rw [if_pos h]
  rfl

/-- A normal number has one more bit in front. -/
theorem value_ofBits_of_ne_zero {bits : UInt64} (h : bits.toNat / 2 ^ 52 % 2 ^ 11 ≠ 0) :
    (Binary.ofBits bits).value = ((2 ^ 52 + bits.toNat % 2 ^ 52 : Nat) : ℚ) *
      2 ^ (((bits.toNat / 2 ^ 52 % 2 ^ 11 : Nat) : ℤ) - 1075) := by
  unfold Binary.ofBits
  dsimp only
  rw [if_neg h]
  rfl

/-- The three kinds of finite patterns: zero, below the normal numbers, and normal. -/
theorem unpackedValue?_unpack (bits : UInt64) :
    unpackedValue? (.unpack Format.binary64 bits.toBitVec) =
      if UnpackedFloat.isFinite (.unpack Format.binary64 bits.toBitVec) then
        some (signedValue bits) else none := by
  have hmantissa : _ = bits.toNat % 2 ^ 52 := toNat_unpackMantissa bits.toBitVec
  have hexponent : _ = bits.toNat / 2 ^ 52 % 2 ^ 11 := toNat_unpackExponent bits.toBitVec
  have hsign := ofBitVec_unpackSign bits.toBitVec
  unfold UnpackedFloat.unpack
  dsimp only
  -- An exponent of ones only is no finite number; one of zeros only is a zero or subnormal.
  by_cases hall : @UnpackedFloat.unpackExponent Format.binary64 bits.toBitVec = -1#_
  · rw [if_pos hall]
    split <;> rfl
  · rw [if_neg hall]
    by_cases hzero : @UnpackedFloat.unpackExponent Format.binary64 bits.toBitVec = 0#_
    · rw [if_pos hzero]
      rw [hzero] at hexponent
      have hvalue := value_ofBits_of_eq_zero hexponent.symm
      rw [← hmantissa] at hvalue
      by_cases hnone : @UnpackedFloat.unpackMantissa Format.binary64 bits.toBitVec = 0#_
      · rw [dif_pos hnone]
        rw [hnone] at hvalue
        have hnull : (Binary.ofBits bits).value = 0 := hvalue.trans (zero_mul _)
        show some 0 = some (signedValue bits)
        rw [signedValue, hnull, neg_zero, ite_self]
      · rw [dif_neg hnone]
        show some (((UnpackedFloat.Sign.ofBitVec _).apply _ : ℤ) * (2 : ℚ) ^ _) = some _
        rw [hsign, hzero]
        exact congrArg some (apply_mul bits _ _ hvalue)
    · rw [if_neg hzero]
      have hbiased : bits.toNat / 2 ^ 52 % 2 ^ 11 ≠ 0 := fun h ↦
        hzero (BitVec.eq_of_toNat_eq (hexponent.trans h))
      show some (((UnpackedFloat.Sign.ofBitVec _).apply _ : ℤ) * (2 : ℚ) ^ _) = some _
      rw [hsign, toNat_one_append, hmantissa, hexponent]
      exact congrArg some (apply_mul bits _ _ (value_ofBits_of_ne_zero hbiased))

/-- **The bits and the fields agree** on the number that a decimal stands for. -/
theorem value?_eq (x : Float) :
    value? x = if x.isFinite then some (signedValue x.toBits) else none :=
  unpackedValue?_unpack x.toBits

/-! ### The integer part -/

theorem Binary.value_nonneg (x : Binary) : 0 ≤ x.value := by
  unfold Binary.value
  positivity

/-- The whole part of a magnitude is the integer below it. -/
theorem Binary.whole_eq (x : Binary) : (x.whole : ℤ) = ⌊x.value⌋ := by
  have hpos : (2 : ℚ) ^ (-x.exponent).toNat ≠ 0 := by positivity
  have hvalue : x.value = ((x.significand * 2 ^ x.exponent.toNat : Nat) : ℚ) /
      ((2 ^ (-x.exponent).toNat : Nat) : ℚ) := by
    rw [Binary.value]
    push_cast
    rw [eq_div_iff hpos, mul_assoc, zpow_mul_pow_toNat two_ne_zero]
  rw [← Int.natCast_floor_eq_floor x.value_nonneg, hvalue, Nat.floor_div_eq_div]
  rfl

/-- Toward zero, a negative number is cut off as its magnitude is. -/
theorem towardZero_neg {q : ℚ} (hq : 0 ≤ q) : towardZero (-q) = -⌊q⌋ := by
  unfold towardZero
  split
  · next h =>
    have hzero : q = 0 := by linarith
    rw [hzero, neg_zero, Int.floor_zero, neg_zero]
  · exact Int.ceil_neg

/-- **What is computed from the bits is the integer part, toward zero.** -/
theorem integerPart_eq (x : Float) : integerPart x = towardZero (signedValue x.toBits) := by
  have hnonneg := (Binary.ofBits x.toBits).value_nonneg
  have hwhole := (Binary.ofBits x.toBits).whole_eq
  unfold integerPart signedValue
  dsimp only
  split
  · rw [towardZero_neg hnonneg, hwhole]
  · rw [towardZero, if_pos hnonneg, hwhole]

end SafariScript.Decimal

namespace SafariScript.Integer

/-- **A decimal becomes an integer** when it stands for a number whose integer part has 64 bits. -/
theorem ofDecimal?_eq_some {x : Float} {n : Int64} :
    ofDecimal? x = some n ↔ ∃ q, Decimal.value? x = some q ∧ n.toInt = Decimal.towardZero q := by
  rw [Decimal.value?_eq, ofDecimal?]
  split
  · rw [ofInt?_eq_some_iff, Decimal.integerPart_eq]
    simp
  · simp

end SafariScript.Integer
