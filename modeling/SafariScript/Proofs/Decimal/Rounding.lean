import Mathlib.Algebra.Order.Field.Power
import Mathlib.Algebra.Order.Field.Rat
import Mathlib.Order.Monotone.Basic
import Mathlib.Tactic.FieldSimp
import Mathlib.Tactic.Linarith
import Mathlib.Tactic.Positivity
import Mathlib.Tactic.Ring
import SafariScript.Decimal.Shortest

/-!
# What rounds to a binary number

The reals that round to a binary number form an interval, and for the magnitudes of 64 bits these
intervals **tile the line**: in the order of the bit patterns, each begins where the one before it
ends (`highEnd_eq_lowEnd`). A border between two of them belongs to the neighbour with the even
significand, and neighbours differ in parity. So a decimal reads back as one magnitude only
(`magnitude_eq_of_readsBack`). Since the shortest decimal of a number reads back as it
(`readsBack_shortest`), it determines the number.

All ends are whole multiples of `2 ^ (-1076)`, a quarter of the smallest magnitude.
-/

namespace SafariScript.Decimal

/-- The number that the digits and the exponent stand for. -/
def Digits.value (d : Digits) : ℚ := d.digits * 10 ^ d.exponent

/-! ### Exact comparisons -/

section Compare

variable {a b : Nat} {i j : Int}

/-- An integer exponent as a quotient of powers with natural exponents. -/
theorem zpow_mul_pow_toNat {r : ℚ} (hr : r ≠ 0) (i : Int) :
    r ^ i * r ^ (-i).toNat = r ^ i.toNat := by
  rw [← zpow_natCast, ← zpow_natCast, ← zpow_add₀ hr]
  congr 1
  omega

/-- Both sides of the comparison, over their common denominator. -/
theorem scaled_eq (a b : Nat) (i j : Int) :
    ((a * 10 ^ i.toNat * 2 ^ (-j).toNat : Nat) : ℚ) =
        a * 10 ^ i * (10 ^ (-i).toNat * 2 ^ (-j).toNat) ∧
      ((b * 2 ^ j.toNat * 10 ^ (-i).toNat : Nat) : ℚ) =
        b * 2 ^ j * (10 ^ (-i).toNat * 2 ^ (-j).toNat) := by
  have hten := zpow_mul_pow_toNat (r := 10) (by norm_num) i
  have htwo := zpow_mul_pow_toNat (r := 2) (by norm_num) j
  push_cast
  rw [← hten, ← htwo]
  constructor <;> ring

/-- The comparison is that of the rational numbers. -/
theorem compareScaled_eq_lt : compareScaled a i b j = .lt ↔ (a * 10 ^ i : ℚ) < b * 2 ^ j := by
  have hpos : (0 : ℚ) < 10 ^ (-i).toNat * 2 ^ (-j).toNat := by positivity
  obtain ⟨ha, hb⟩ := scaled_eq a b i j
  rw [compareScaled, Nat.compare_eq_lt, ← Nat.cast_lt (α := ℚ), ha, hb, mul_lt_mul_iff_left₀ hpos]

theorem compareScaled_eq_gt : compareScaled a i b j = .gt ↔ (b * 2 ^ j : ℚ) < a * 10 ^ i := by
  have hpos : (0 : ℚ) < 10 ^ (-i).toNat * 2 ^ (-j).toNat := by positivity
  obtain ⟨ha, hb⟩ := scaled_eq a b i j
  rw [compareScaled, Nat.compare_eq_gt, ← Nat.cast_lt (α := ℚ), ha, hb, mul_lt_mul_iff_left₀ hpos]

theorem compareScaled_eq_eq : compareScaled a i b j = .eq ↔ (a * 10 ^ i : ℚ) = b * 2 ^ j := by
  have hpos : (10 ^ (-i).toNat * 2 ^ (-j).toNat : ℚ) ≠ 0 := by positivity
  obtain ⟨ha, hb⟩ := scaled_eq a b i j
  rw [compareScaled, Nat.compare_eq_eq, ← Nat.cast_inj (R := ℚ), ha, hb, mul_left_inj' hpos]

end Compare

namespace Binary

/-! ### Intervals -/

/-- The lower end of the reals that round to the number, in quarters of its last place. -/
def low (x : Binary) : Nat := if x.narrowBelow then 4 * x.significand - 1 else 4 * x.significand - 2

/-- The upper end, in quarters of the last place. -/
def high (x : Binary) : Nat := 4 * x.significand + 2

/-- What reads back lies between the ends; and not on them, if the significand is odd. -/
theorem between_of_readsBack {x : Binary} {d : Digits} (h : x.readsBack d = true) :
    (x.low * 2 ^ (x.exponent - 2) ≤ d.value ∧ d.value ≤ x.high * 2 ^ (x.exponent - 2)) ∧
      (x.significand % 2 = 1 →
        x.low * 2 ^ (x.exponent - 2) < d.value ∧ d.value < x.high * 2 ^ (x.exponent - 2)) := by
  simp only [readsBack, Bool.and_eq_true, Bool.or_eq_true, beq_iff_eq] at h
  obtain ⟨hlow, hhigh⟩ := h
  have hlow' : (x.low * 2 ^ (x.exponent - 2) : ℚ) < d.value ∨
      x.significand % 2 = 0 ∧ d.value = x.low * 2 ^ (x.exponent - 2) :=
    hlow.imp compareScaled_eq_gt.1 fun h ↦ ⟨h.1, compareScaled_eq_eq.1 h.2⟩
  have hhigh' : d.value < x.high * 2 ^ (x.exponent - 2) ∨
      x.significand % 2 = 0 ∧ d.value = x.high * 2 ^ (x.exponent - 2) :=
    hhigh.imp compareScaled_eq_lt.1 fun h ↦ ⟨h.1, compareScaled_eq_eq.1 h.2⟩
  refine ⟨⟨?_, ?_⟩, fun hodd ↦ ⟨?_, ?_⟩⟩
  · exact hlow'.elim le_of_lt fun h ↦ h.2.ge
  · exact hhigh'.elim le_of_lt fun h ↦ h.2.le
  · exact hlow'.resolve_right fun h ↦ by omega
  · exact hhigh'.resolve_right fun h ↦ by omega

/-! ### The shortest decimal reads back -/

/-- A decimal on the grid is taken only if it reads back. -/
theorem readsBack_of_onGrid? {x : Binary} {k : Int} {d : Digits} (h : x.onGrid? k = some d) :
    x.readsBack d = true := by
  cases hbelow : x.readsBack ⟨x.stepsOf k, k⟩ <;>
    cases habove : x.readsBack ⟨x.stepsOf k + 1, k⟩ <;>
    simp only [onGrid?, hbelow, habove] at h
  · cases h
  · exact Option.some.inj h ▸ habove
  · exact Option.some.inj h ▸ hbelow
  · split at h
    · exact Option.some.inj h ▸ hbelow
    · exact Option.some.inj h ▸ habove

/-- Written out in full, the number has its own value. -/
theorem value_exactly (x : Binary) : x.exactly.value = x.significand * 2 ^ x.exponent := by
  unfold exactly
  split
  · next hexp =>
    obtain ⟨n, hn⟩ := Int.eq_ofNat_of_zero_le hexp
    rw [Digits.value, hn]
    push_cast
    simp
  · next hexp =>
    obtain ⟨n, hn⟩ : ∃ n : Nat, x.exponent = -n := ⟨(-x.exponent).toNat, by omega⟩
    rw [Digits.value, hn]
    have hfive : (5 : ℚ) ^ n * 10 ^ (-(n : Int)) = 2 ^ (-(n : Int)) := by
      rw [zpow_neg, zpow_neg, zpow_natCast, zpow_natCast, show (10 : ℚ) = 2 * 5 by norm_num,
        mul_pow]
      field_simp
    dsimp only
    rw [neg_neg, Int.toNat_natCast, Nat.cast_mul, Nat.cast_pow, mul_assoc]
    exact congrArg _ hfive

/-- The exact decimal reads back. -/
theorem readsBack_exactly {x : Binary} (hx : x.significand ≠ 0) : x.readsBack x.exactly = true := by
  have hpos : (0 : ℚ) < 2 ^ (x.exponent - 2) := by positivity
  have hvalue : x.exactly.value = (4 * x.significand : Nat) * 2 ^ (x.exponent - 2) := by
    rw [value_exactly, zpow_sub₀ (by norm_num)]
    push_cast
    ring
  have hlow : (x.low * 2 ^ (x.exponent - 2) : ℚ) < x.exactly.value := by
    rw [hvalue, mul_lt_mul_iff_left₀ hpos, Nat.cast_lt, low]
    split <;> omega
  have hhigh : x.exactly.value < x.high * 2 ^ (x.exponent - 2) := by
    rw [hvalue, mul_lt_mul_iff_left₀ hpos, Nat.cast_lt, high]
    omega
  simp only [readsBack, Bool.and_eq_true, Bool.or_eq_true, beq_iff_eq]
  exact ⟨.inl (compareScaled_eq_gt.2 hlow), .inl (compareScaled_eq_lt.2 hhigh)⟩

/-- So the search ends with a decimal that reads back. -/
theorem readsBack_search {x : Binary} (hx : x.significand ≠ 0) (steps : Nat) (k : Int) :
    x.readsBack (x.search steps k) = true := by
  induction steps generalizing k with
  | zero => exact readsBack_exactly hx
  | succ steps ih =>
    rw [search]
    cases hgrid : x.onGrid? k with
    | none => exact ih (k - 1)
    | some d => exact readsBack_of_onGrid? hgrid

/-- **The shortest decimal of a number reads back as it.** -/
theorem readsBack_shortest (x : Binary) : x.readsBack x.shortest = true := by
  unfold shortest
  split
  · next hzero =>
    -- the interval of zero begins at zero, which belongs to it
    have hlow : x.low = 0 := by
      rw [low, hzero]
      split <;> rfl
    have hfromLow : compareScaled 0 0 x.low (x.exponent - 2) = .eq := by
      rw [compareScaled_eq_eq, hlow]
      simp
    have hfromHigh : compareScaled 0 0 x.high (x.exponent - 2) = .lt := by
      rw [compareScaled_eq_lt, high, hzero]
      have : (0 : ℚ) < 2 ^ (x.exponent - 2) := by positivity
      push_cast
      linarith
    simp only [readsBack, Bool.and_eq_true, Bool.or_eq_true, beq_iff_eq]
    exact ⟨.inr ⟨by rw [hzero], hfromLow⟩, .inl hfromHigh⟩
  · next hx => exact readsBack_search hx _ _

/-! ### The intervals tile the line -/

/-- The number with the given magnitude: a bit pattern without its sign. -/
def ofMagnitude (n : Nat) : Binary :=
  if n / 2 ^ 52 = 0 then ⟨n % 2 ^ 52, -1074, false⟩
  else ⟨2 ^ 52 + n % 2 ^ 52, (n / 2 ^ 52 : Nat) - 1075, n % 2 ^ 52 == 0 && n / 2 ^ 52 > 1⟩

/-- The sign has no part in the magnitude. -/
theorem ofBits_eq (bits : UInt64) : ofBits bits = ofMagnitude (bits.toNat % 2 ^ 63) := by
  have hbiased : bits.toNat / 2 ^ 52 % 2 ^ 11 = bits.toNat % 2 ^ 63 / 2 ^ 52 := by omega
  have hfraction : bits.toNat % 2 ^ 52 = bits.toNat % 2 ^ 63 % 2 ^ 52 := by omega
  rw [ofBits, ofMagnitude, hbiased, hfraction]

/-- The lower end of what rounds to the magnitude, in multiples of `2 ^ (-1076)`. -/
def lowEnd (n : Nat) : Nat := (ofMagnitude n).low * 2 ^ ((ofMagnitude n).exponent + 1074).toNat

/-- The upper end of what rounds to the magnitude, in multiples of `2 ^ (-1076)`. -/
def highEnd (n : Nat) : Nat := (ofMagnitude n).high * 2 ^ ((ofMagnitude n).exponent + 1074).toNat

theorem exponent_ofMagnitude (n : Nat) : -1074 ≤ (ofMagnitude n).exponent := by
  unfold ofMagnitude
  split
  · exact Int.le_refl _
  · next hbiased =>
    dsimp only
    omega

/-- Every second magnitude is even, which decides the ends of the intervals. -/
theorem significand_mod_two (n : Nat) : (ofMagnitude n).significand % 2 = n % 2 := by
  unfold ofMagnitude
  split
  · dsimp only
    omega
  · dsimp only
    omega

/-- An end in quarters of the last place, as a multiple of `2 ^ (-1076)`. -/
theorem quarters_eq (n k : Nat) :
    (k * 2 ^ ((ofMagnitude n).exponent - 2) : ℚ) =
      (k * 2 ^ ((ofMagnitude n).exponent + 1074).toNat : Nat) * 2 ^ (-1076 : Int) := by
  have hexp := exponent_ofMagnitude n
  rw [Nat.cast_mul, mul_assoc, Nat.cast_pow, Nat.cast_two, ← zpow_natCast,
    ← zpow_add₀ (by norm_num), Int.toNat_of_nonneg (by omega)]
  congr 2
  omega

section Ends

variable {fraction : Nat} (hfraction : fraction < 2 ^ 52)

include hfraction

/-- The magnitudes with the smallest exponent. -/
theorem ofMagnitude_subnormal : ofMagnitude fraction = ⟨fraction, -1074, false⟩ := by
  have hdiv : fraction / 2 ^ 52 = 0 := by omega
  have hmod : fraction % 2 ^ 52 = fraction := by omega
  rw [ofMagnitude, if_pos hdiv, hmod]

/-- The other magnitudes, whose significands have a leading bit that is not written. -/
theorem ofMagnitude_normal (k : Nat) : ofMagnitude (2 ^ 52 * (k + 1) + fraction) =
    ⟨2 ^ 52 + fraction, k - 1074, fraction == 0 && k > 0⟩ := by
  have hdiv : (2 ^ 52 * (k + 1) + fraction) / 2 ^ 52 = k + 1 := by omega
  have hmod : (2 ^ 52 * (k + 1) + fraction) % 2 ^ 52 = fraction := by omega
  have hexp : ((k + 1 : Nat) : Int) - 1075 = k - 1074 := by omega
  have hbelow : (k + 1 > 1) = (k > 0) := by simp
  rw [ofMagnitude, hdiv, hmod, if_neg (Nat.succ_ne_zero k), hexp]
  simp only [hbelow]

theorem highEnd_subnormal : highEnd fraction = 4 * fraction + 2 := by
  rw [highEnd, high, ofMagnitude_subnormal hfraction]
  exact Nat.mul_one _

/-- The upper end is half a step above the magnitude. -/
theorem highEnd_normal (k : Nat) :
    highEnd (2 ^ 52 * (k + 1) + fraction) = (4 * (2 ^ 52 + fraction) + 2) * 2 ^ k := by
  rw [highEnd, high, ofMagnitude_normal hfraction]
  dsimp only
  rw [Int.sub_add_cancel, Int.toNat_natCast]

theorem lowEnd_subnormal : lowEnd fraction = 4 * fraction - 2 := by
  rw [lowEnd, low, ofMagnitude_subnormal hfraction]
  exact Nat.mul_one _

/-- The lower end is half a step below the magnitude, and steps are half as wide below a power of
two. -/
theorem lowEnd_normal (k : Nat) : lowEnd (2 ^ 52 * (k + 1) + fraction) =
    (4 * (2 ^ 52 + fraction) - if fraction = 0 ∧ k > 0 then 1 else 2) * 2 ^ k := by
  rw [lowEnd, low, ofMagnitude_normal hfraction]
  dsimp only
  rw [Int.sub_add_cancel, Int.toNat_natCast]
  simp only [Bool.and_eq_true, beq_iff_eq, decide_eq_true_eq]
  split <;> rfl

end Ends

/-- **Each interval begins where the one before it ends.** -/
theorem highEnd_eq_lowEnd (n : Nat) : highEnd n = lowEnd (n + 1) := by
  have hfraction : n % 2 ^ 52 < 2 ^ 52 := Nat.mod_lt _ (by norm_num)
  have hn : n = 2 ^ 52 * (n / 2 ^ 52) + n % 2 ^ 52 := (Nat.div_add_mod n _).symm
  generalize n % 2 ^ 52 = fraction at hn hfraction
  generalize n / 2 ^ 52 = biased at hn
  subst hn
  obtain hnext | hlast : fraction + 1 < 2 ^ 52 ∨ fraction + 1 = 2 ^ 52 := by omega
  · -- the next magnitude has the same exponent
    cases biased with
    | zero =>
      rw [Nat.mul_zero, Nat.zero_add, highEnd_subnormal hfraction, lowEnd_subnormal hnext]
      omega
    | succ k =>
      rw [Nat.add_assoc, highEnd_normal hfraction, lowEnd_normal hnext,
        if_neg fun h ↦ Nat.succ_ne_zero _ h.1]
      congr 1
  · -- the next magnitude is the first one with the next exponent
    have hzero : 0 < 2 ^ 52 := by norm_num
    have hsucc : 2 ^ 52 * biased + fraction + 1 = 2 ^ 52 * (biased + 1) + 0 := by omega
    rw [hsucc, lowEnd_normal hzero]
    cases biased with
    | zero =>
      rw [Nat.mul_zero, Nat.zero_add, highEnd_subnormal hfraction, if_neg fun h ↦ h.2.false]
      omega
    | succ k =>
      have hdouble : 4 * (2 ^ 52 + fraction) + 2 = (4 * (2 ^ 52 + 0) - 1) * 2 := by omega
      rw [highEnd_normal hfraction, if_pos ⟨rfl, Nat.succ_pos k⟩, hdouble, Nat.mul_assoc,
        Nat.pow_succ 2 k, Nat.mul_comm 2]

/-- No interval is empty. -/
theorem lowEnd_lt_highEnd (n : Nat) : lowEnd n < highEnd n := by
  refine Nat.mul_lt_mul_of_pos_right ?_ (Nat.two_pow_pos _)
  unfold low high
  split <;> omega

/-- Larger magnitudes have higher intervals. -/
theorem strictMono_lowEnd : StrictMono lowEnd :=
  strictMono_nat_of_lt_succ fun n ↦ highEnd_eq_lowEnd n ▸ lowEnd_lt_highEnd n

/-- Of two magnitudes, the same number does not read back as the smaller and as the larger one. -/
theorem not_readsBack_of_lt {a b : Nat} {d d' : Digits} (hab : a < b) (hvalue : d.value = d'.value)
    (ha : (ofMagnitude a).readsBack d = true) : (ofMagnitude b).readsBack d' = false := by
  rw [← Bool.not_eq_true]
  intro hb
  have hunit : (0 : ℚ) < 2 ^ (-1076 : Int) := by positivity
  obtain ⟨⟨-, hupper⟩, hodd⟩ := between_of_readsBack ha
  obtain ⟨⟨hlower, -⟩, hodd'⟩ := between_of_readsBack hb
  rw [quarters_eq] at hupper hlower
  rw [quarters_eq, quarters_eq] at hodd hodd'
  have hle : lowEnd b ≤ highEnd a := by
    have := hlower.trans (hvalue ▸ hupper)
    exact Nat.cast_le.1 (le_of_mul_le_mul_right this hunit)
  have hsucc : b = a + 1 := by
    rw [highEnd_eq_lowEnd] at hle
    have := strictMono_lowEnd.le_iff_le.1 hle
    omega
  -- the border belongs to one of the two neighbours only
  have heq : (highEnd a : ℚ) = lowEnd b := by rw [hsucc, highEnd_eq_lowEnd]
  rw [significand_mod_two] at hodd hodd'
  obtain hparity | hparity : a % 2 = 1 ∨ b % 2 = 1 := by omega
  · have hstrict := (hodd hparity).2
    have hborder : (highEnd a : ℚ) * 2 ^ (-1076 : Int) ≤ d.value := by
      rw [heq, hvalue]
      exact hlower
    exact absurd hstrict (not_lt.2 hborder)
  · have hstrict := (hodd' hparity).1
    have hborder : d'.value ≤ (lowEnd b : ℚ) * 2 ^ (-1076 : Int) := by
      rw [← heq, ← hvalue]
      exact hupper
    exact absurd hstrict (not_lt.2 hborder)

/-- **A number reads back as one magnitude only.** -/
theorem magnitude_eq_of_readsBack {a b : Nat} {d d' : Digits} (hvalue : d.value = d'.value)
    (ha : (ofMagnitude a).readsBack d = true) (hb : (ofMagnitude b).readsBack d' = true) :
    a = b := by
  rcases Nat.lt_trichotomy a b with hab | rfl | hab
  · rw [not_readsBack_of_lt hab hvalue ha] at hb
    cases hb
  · rfl
  · rw [not_readsBack_of_lt hab hvalue.symm hb] at ha
    cases ha

end Binary

end SafariScript.Decimal
