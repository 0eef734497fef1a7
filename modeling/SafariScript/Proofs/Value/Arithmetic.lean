import SafariScript.Operator

/-!
# Arithmetic of integers

Integers have 64 bits, but what their operators mean is said of **all** integers: `+`, `-` and `*`
are those of `Int`, and `/` and `%` are the quotient rounded toward zero and its remainder
(`BinaryOp.onIntegers?`). An operator gives the integer that this comes to, or it is refused
(`BinaryOp.ExactOrRefused`); nothing is ever wrapped around or rounded.

An operator is refused where its result has more than 64 bits, and a division where the divisor is
zero. Of all quotients by another divisor only that of the least integer by `-1` is too large
(`Integer.fits_tdiv_iff`). The remainder of the two is zero; it is refused along with the quotient.

A quotient and its remainder give back the dividend, and both steps on the way have 64 bits: the
multiple of the divisor lies between zero and the dividend (`Integer.fits_tdiv_mul`).
-/

namespace SafariScript

namespace Integer

/-- The integer has 64 bits. -/
def Fits (n : Int) : Prop := Int64.minValue.toInt ≤ n ∧ n ≤ Int64.maxValue.toInt

variable {a b k : Int64} {n : Int}

theorem fits_toInt (k : Int64) : Fits k.toInt :=
  ⟨Int64.le_iff_toInt_le.1 k.minValue_le, Int64.le_iff_toInt_le.1 k.le_maxValue⟩

theorem fits_iff : Fits n ↔ -9223372036854775808 ≤ n ∧ n < 9223372036854775808 := by
  have hmin : Int64.minValue.toInt = -9223372036854775808 := by decide
  have hmax : Int64.maxValue.toInt = 9223372036854775807 := by decide
  rw [Fits, hmin, hmax]
  exact and_congr_right fun _ ↦ Int.le_iff_lt_add_one

/-- What is given has the value that was asked for. -/
theorem ofInt?_eq_some_iff : ofInt? n = some k ↔ k.toInt = n := by
  constructor
  · intro h
    unfold ofInt? at h
    split at h
    · next hbounds =>
      cases h
      exact Int64.toInt_ofInt_of_le hbounds.1 hbounds.2
    · cases h
  · rintro rfl
    rw [ofInt?, if_pos ⟨k.le_toInt, k.toInt_lt⟩, Int64.ofInt_toInt]

/-- Nothing is given only where there is nothing to give. -/
theorem ofInt?_eq_none_iff : ofInt? n = none ↔ ¬ Fits n := by
  rw [fits_iff, ofInt?]
  split
  · next hbounds => exact iff_of_false (Option.some_ne_none _) (not_not_intro hbounds)
  · next hbounds => exact iff_of_true rfl hbounds

/-- An integer that fits is one of 64 bits. -/
theorem exists_toInt_eq (h : Fits n) : ∃ k : Int64, k.toInt = n := by
  cases hk : ofInt? n with
  | none => exact absurd h (ofInt?_eq_none_iff.1 hk)
  | some k => exact ⟨k, ofInt?_eq_some_iff.1 hk⟩

/-! ### Quotients and remainders -/

theorem toInt_ne_zero (h : b ≠ 0) : b.toInt ≠ 0 := fun hb ↦
  h (Int64.toInt_inj.1 (hb.trans Int64.toInt_zero.symm))

theorem div?_of_ne (h : b ≠ 0) : div? a b = ofInt? (a.toInt.tdiv b.toInt) := if_neg h

/-- A remainder is smaller than the divisor. -/
theorem natAbs_tmod_lt (h : b ≠ 0) :
    (a.toInt.tmod b.toInt).natAbs < b.toInt.natAbs := by
  rw [Int.natAbs_tmod]
  exact Nat.mod_lt _ (Int.natAbs_pos.2 (toInt_ne_zero h))

/-- A quotient by `1` is the dividend, one by `-1` its negation, and any other is at most half as
far from zero as the dividend. -/
theorem fits_tdiv_iff (h : b ≠ 0) :
    Fits (a.toInt.tdiv b.toInt) ↔ ¬ (a = Int64.minValue ∧ b = -1) := by
  have ha := fits_iff.1 (fits_toInt a)
  have hb := toInt_ne_zero h
  have hleast : a = Int64.minValue ↔ a.toInt = -9223372036854775808 := Int64.toInt_inj.symm
  have hminus : b = -1 ↔ b.toInt = -1 := Int64.toInt_inj.symm
  rw [fits_iff, hleast, hminus]
  by_cases hone : b.toInt = 1
  · rw [hone, Int.tdiv_one]
    omega
  by_cases hneg : b.toInt = -1
  · rw [hneg, Int.tdiv_neg, Int.tdiv_one]
    omega
  · have hhalf : (a.toInt.tdiv b.toInt).natAbs ≤ a.toInt.natAbs / 2 := by
      rw [Int.natAbs_tdiv]
      exact Nat.div_le_div_left (by omega) (by decide)
    omega

/-- A remainder is no further from zero than the dividend, on the same side of it. -/
theorem tmod_bounds (m n : Int) :
    (0 ≤ m → 0 ≤ m.tmod n ∧ m.tmod n ≤ m) ∧ (m ≤ 0 → m ≤ m.tmod n ∧ m.tmod n ≤ 0) := by
  have hle : (m.tmod n).natAbs ≤ m.natAbs := by
    rw [Int.natAbs_tmod]
    exact Nat.mod_le _ _
  constructor
  · intro hm
    have := Int.tmod_nonneg n hm
    omega
  · intro hm
    have := Int.tmod_nonneg n (Int.neg_nonneg_of_nonpos hm)
    rw [Int.neg_tmod] at this
    omega

/-- The multiple of the divisor that a quotient stands for lies between zero and the dividend. -/
theorem fits_tdiv_mul (a b : Int64) : Fits (a.toInt.tdiv b.toInt * b.toInt) := by
  have ha := fits_iff.1 (fits_toInt a)
  have hbounds := tmod_bounds a.toInt b.toInt
  have hsum := Int.tdiv_mul_add_tmod a.toInt b.toInt
  rw [fits_iff]
  omega

end Integer

/-! ### Operators -/

namespace BinaryOp

/-- The operation on all integers that the operator stands for, if it stands for one. -/
def onIntegers? : BinaryOp → Option (Int → Int → Int)
  | add => some (· + ·)
  | sub => some (· - ·)
  | mul => some (· * ·)
  | div => some Int.tdiv
  | mod => some Int.tmod
  | eq | notEq | lt | ltEq | gt | gtEq => none

/-- What an operator that stands for `f` may come to between two integers: the exact result; no
result, since the divisor is zero; none, since the exact one has more than 64 bits; and none for the
remainder of the least integer by `-1`. -/
inductive ExactOrRefused (op : BinaryOp) (f : Int → Int → Int) (a b : Int64) :
    Except Fault Value → Prop
  | exact {n : Int64} (hzero : op = div ∨ op = mod → b ≠ 0)
    (hleast : ¬ (op = mod ∧ a = Int64.minValue ∧ b = -1)) (hn : n.toInt = f a.toInt b.toInt) :
    ExactOrRefused op f a b (.ok (.int n))
  | byZero (hop : op = div ∨ op = mod) (hzero : b = 0) :
    ExactOrRefused op f a b (.error (.divisionByZero op))
  | tooLarge (hzero : op = div ∨ op = mod → b ≠ 0) (hn : ¬ Integer.Fits (f a.toInt b.toInt)) :
    ExactOrRefused op f a b (.error (.overflow op.text))
  | leastByMinusOne (hop : op = mod) (ha : a = Int64.minValue) (hb : b = -1) :
    ExactOrRefused op f a b (.error (.overflow op.text))

namespace ExactOrRefused

variable {op : BinaryOp} {f : Int → Int → Int} {a b : Int64}

/-- The operands say which of the cases it is. -/
theorem unique {x y : Except Fault Value} (hx : op.ExactOrRefused f a b x)
    (hy : op.ExactOrRefused f a b y) : x = y := by
  have hminus : (-1 : Int64) ≠ 0 := by decide
  cases hx with
  | exact hzero hleast hn =>
    cases hy with
    | exact _ _ hn' => rw [Int64.toInt_inj.1 (hn.trans hn'.symm)]
    | byZero hop hb => exact absurd hb (hzero hop)
    | tooLarge _ hn' => exact absurd (hn ▸ Integer.fits_toInt _) hn'
    | leastByMinusOne hop ha hb => exact absurd ⟨hop, ha, hb⟩ hleast
  | byZero hop hb =>
    cases hy with
    | exact hzero _ _ | tooLarge hzero _ => exact absurd hb (hzero hop)
    | byZero => rfl
    | leastByMinusOne _ _ hb' => exact absurd (hb'.symm.trans hb) hminus
  | tooLarge hzero hn =>
    cases hy with
    | exact _ _ hn' => exact absurd (hn' ▸ Integer.fits_toInt _) hn
    | byZero hop hb => exact absurd hb (hzero hop)
    | tooLarge | leastByMinusOne => rfl
  | leastByMinusOne hop ha hb =>
    cases hy with
    | exact _ hleast _ => exact absurd ⟨hop, ha, hb⟩ hleast
    | byZero _ hb' => exact absurd (hb.symm.trans hb') hminus
    | tooLarge | leastByMinusOne => rfl

/-- Where the operands are in order, the result is given if it has 64 bits. -/
theorem checked (hzero : op = div ∨ op = mod → b ≠ 0)
    (hleast : ¬ (op = mod ∧ a = Int64.minValue ∧ b = -1)) :
    op.ExactOrRefused f a b (checked op (Integer.ofInt? (f a.toInt b.toInt))) := by
  cases hk : Integer.ofInt? (f a.toInt b.toInt) with
  | some k => exact .exact hzero hleast (Integer.ofInt?_eq_some_iff.1 hk)
  | none => exact .tooLarge hzero (Integer.ofInt?_eq_none_iff.1 hk)

/-- An operator on integers gives the exact result or is refused. -/
theorem onInts (h : op.onIntegers? = some f) (a b : Int64) :
    op.ExactOrRefused f a b (op.onInts a b) := by
  cases op with
  | add | sub | mul =>
    cases h
    exact checked (fun hop ↦ absurd hop (by decide)) fun hc ↦ absurd hc.1 (by decide)
  | div =>
    cases h
    rw [BinaryOp.onInts]
    split
    · next hb => exact .byZero (.inl rfl) hb
    · next hb =>
      rw [Integer.div?_of_ne hb]
      exact checked (fun _ ↦ hb) fun hc ↦ absurd hc.1 (by decide)
  | mod =>
    cases h
    rw [BinaryOp.onInts]
    split
    · next hb => exact .byZero (.inr rfl) hb
    · next hb =>
      rw [Integer.rem?, Integer.div?_of_ne hb]
      -- The remainder is refused where the quotient does not fit, though it is zero there.
      cases hq : Integer.ofInt? (a.toInt.tdiv b.toInt) with
      | none =>
        have hleast := mt (Integer.fits_tdiv_iff hb).2 (Integer.ofInt?_eq_none_iff.1 hq)
        obtain ⟨ha, hb⟩ := Decidable.not_not.1 hleast
        exact .leastByMinusOne rfl ha hb
      | some q =>
        have hfits := Integer.ofInt?_eq_some_iff.1 hq ▸ Integer.fits_toInt q
        exact checked (fun _ ↦ hb) fun hc ↦ (Integer.fits_tdiv_iff hb).1 hfits hc.2
  | eq | notEq | lt | ltEq | gt | gtEq => cases h

end ExactOrRefused

/-- Between integers the operators of arithmetic do not look at texts. -/
theorem apply_int {op : BinaryOp} {f : Int → Int → Int} (h : op.onIntegers? = some f)
    (text : Value → String) (a b : Int64) :
    op.apply text (.int a) (.int b) = op.onInts a b := by
  cases op with
  | add | sub | mul | div | mod => rfl
  | eq | notEq | lt | ltEq | gt | gtEq => cases h

/-- The operands determine what an operator comes to, and it is one of the four cases. -/
theorem apply_int_eq_iff {op : BinaryOp} {f : Int → Int → Int} (h : op.onIntegers? = some f)
    (text : Value → String) (a b : Int64) (outcome : Except Fault Value) :
    op.apply text (.int a) (.int b) = outcome ↔ op.ExactOrRefused f a b outcome := by
  have hmade := ExactOrRefused.onInts h a b
  rw [apply_int h]
  exact ⟨fun heq ↦ heq ▸ hmade, hmade.unique⟩

/-- What an operator gives is the exact result. -/
theorem apply_int_eq_ok {op : BinaryOp} {f : Int → Int → Int} (h : op.onIntegers? = some f)
    {text : Value → String} {a b n : Int64}
    (hn : op.apply text (.int a) (.int b) = .ok (.int n)) : n.toInt = f a.toInt b.toInt := by
  cases (apply_int_eq_iff h text a b _).1 hn with
  | exact _ _ hn => exact hn

end BinaryOp

/-- Every integer but the least can be negated. -/
theorem UnaryOp.apply_neg_int (a : Int64) :
    (a ≠ Int64.minValue ∧ ∃ n : Int64, n.toInt = -a.toInt ∧
        UnaryOp.neg.apply (.int a) = .ok (.int n)) ∨
      a = Int64.minValue ∧ UnaryOp.neg.apply (.int a) = .error (.overflow "-") := by
  by_cases ha : a = Int64.minValue
  · refine .inr ⟨ha, ?_⟩
    subst ha
    rfl
  · refine .inl ⟨ha, ?_⟩
    have hfits : Integer.Fits (-a.toInt) := by
      have hbounds := Integer.fits_iff.1 (Integer.fits_toInt a)
      have hleast : a.toInt ≠ -9223372036854775808 := fun h ↦ ha (Int64.toInt_inj.1 h)
      rw [Integer.fits_iff]
      omega
    obtain ⟨n, hn⟩ := Integer.exists_toInt_eq hfits
    refine ⟨n, hn, ?_⟩
    show checked .sub (Integer.ofInt? (-a.toInt)) = _
    rw [Integer.ofInt?_eq_some_iff.2 hn]
    rfl

/-- **Arithmetic of integers is exact or refused.** Each operator of arithmetic comes to its exact
result, or to one of the refusals, as its operands say. A negation is refused at the least integer
only. Where both a quotient and its remainder are given, the remainder has the sign of the dividend
and is nearer to zero than the divisor, and the two give back the dividend: neither the
multiplication nor the addition is refused. -/
theorem integer_arithmetic_exact (text : Value → String) (a b : Int64) :
    (∀ (op : BinaryOp) (f : Int → Int → Int), op.onIntegers? = some f → ∀ outcome,
      op.apply text (.int a) (.int b) = outcome ↔ op.ExactOrRefused f a b outcome) ∧
    ((a ≠ Int64.minValue ∧ ∃ n : Int64, n.toInt = -a.toInt ∧
        UnaryOp.neg.apply (.int a) = .ok (.int n)) ∨
      a = Int64.minValue ∧ UnaryOp.neg.apply (.int a) = .error (.overflow "-")) ∧
    ∀ q r : Int64, BinaryOp.div.apply text (.int a) (.int b) = .ok (.int q) →
      BinaryOp.mod.apply text (.int a) (.int b) = .ok (.int r) →
      (∃ m : Int64, BinaryOp.mul.apply text (.int q) (.int b) = .ok (.int m) ∧
        BinaryOp.add.apply text (.int m) (.int r) = .ok (.int a)) ∧
      r.toInt.natAbs < b.toInt.natAbs ∧
      (0 ≤ a.toInt → 0 ≤ r.toInt) ∧ (a.toInt ≤ 0 → r.toInt ≤ 0) := by
  refine ⟨fun op f h ↦ BinaryOp.apply_int_eq_iff h text a b, UnaryOp.apply_neg_int a,
    fun q r hq hr ↦ ?_⟩
  have hzero : b ≠ 0 := by
    cases (BinaryOp.apply_int_eq_iff rfl text a b _).1 hq with
    | exact hzero _ _ => exact hzero (.inl rfl)
  have hquot : q.toInt = a.toInt.tdiv b.toInt := BinaryOp.apply_int_eq_ok rfl hq
  have hrem : r.toInt = a.toInt.tmod b.toInt := BinaryOp.apply_int_eq_ok rfl hr
  -- The product lies between zero and the dividend, so the way back cannot overflow.
  obtain ⟨m, hm⟩ := Integer.exists_toInt_eq (Integer.fits_tdiv_mul a b)
  have hback : a.toInt = m.toInt + r.toInt := by rw [hm, hrem, Int.tdiv_mul_add_tmod]
  have hbounds := Integer.tmod_bounds a.toInt b.toInt
  refine ⟨⟨m, ?_, ?_⟩, ?_, ?_, ?_⟩
  · refine (BinaryOp.apply_int_eq_iff rfl text q b _).2 (.exact (fun hop ↦ absurd hop (by decide))
      (fun hc ↦ absurd hc.1 (by decide)) ?_)
    rw [hm, hquot]
  · exact (BinaryOp.apply_int_eq_iff rfl text m r _).2 (.exact (fun hop ↦ absurd hop (by decide))
      (fun hc ↦ absurd hc.1 (by decide)) hback)
  · rw [hrem]
    exact Integer.natAbs_tmod_lt hzero
  · intro ha
    rw [hrem]
    exact (hbounds.1 ha).1
  · intro ha
    rw [hrem]
    exact (hbounds.2 ha).2

/-- The least integer: divided by `10` it can be put together again, and its remainder by `-1` is
refused. -/
theorem integer_arithmetic_exact_least :
    let text : Value → String := fun v ↦ v.ty.name
    let least : Value := .int Int64.minValue
    BinaryOp.mod.onIntegers? = some Int.tmod ∧
    BinaryOp.mod.ExactOrRefused Int.tmod Int64.minValue (-1) (.error (.overflow "%")) ∧
    BinaryOp.div.apply text least (.int 10) = .ok (.int (-922337203685477580)) ∧
    BinaryOp.mod.apply text least (.int 10) = .ok (.int (-8)) ∧
    (∃ m : Int64, BinaryOp.mul.apply text (.int (-922337203685477580)) (.int 10) = .ok (.int m) ∧
      BinaryOp.add.apply text (.int m) (.int (-8)) = .ok least) ∧
    (-8 : Int64).toInt.natAbs < (10 : Int64).toInt.natAbs := by
  intro text least
  have hrefused := ((integer_arithmetic_exact text Int64.minValue (-1)).1 .mod Int.tmod rfl
    (.error (.overflow "%"))).1 rfl
  have hback := (integer_arithmetic_exact text Int64.minValue 10).2.2
    (-922337203685477580) (-8) rfl rfl
  exact ⟨rfl, hrefused, rfl, rfl, hback.1, hback.2.1⟩

end SafariScript
