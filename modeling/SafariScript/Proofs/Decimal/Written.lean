import SafariScript.Decimal.Text
import SafariScript.Proofs.Decimal.Rounding
import SafariScript.Proofs.Text.Codes

/-!
# The text of a decimal determines it

Finite decimals with the same literal text are the same (`literalText_injective`). A text of digits
with a point, and perhaps an exponent, stands for a number (`pointed`), and what is written for a
decimal stands for the number that was meant (`pointed_marked`, `pointed_mantissa`). So equal texts
are texts of equal numbers, which read back as the same magnitude (`magnitude_eq_of_readsBack`);
the sign is written in front.
-/

namespace SafariScript.Decimal

/-! ### The number that a text stands for -/

/-- The number that digits with a point among them, or without one, stand for. -/
def pointed (cs : List Char) : ℚ :=
  Text.digitsValue (cs.filter (· != '.')) / 10 ^ (cs.dropWhile (· != '.')).tail.length

section Pointed

variable {as bs : List Char} (has : ∀ c ∈ as, (c != '.') = true)

include has

/-- Without a point the text stands for a whole number. -/
theorem pointed_whole : pointed as = Text.digitsValue as := by
  have hdrop : as.dropWhile (· != '.') = [] := by
    rw [← List.append_nil as, List.dropWhile_append_of_pos has, List.dropWhile_nil]
  rw [pointed, List.filter_eq_self.2 has, hdrop]
  simp

/-- The digits behind a point are divided by their power of ten. -/
theorem pointed_append (hbs : ∀ c ∈ bs, (c != '.') = true) :
    pointed (as ++ '.' :: bs) = Text.digitsValue (as ++ bs) / 10 ^ bs.length := by
  rw [pointed, List.filter_append, List.filter_cons_of_neg (by decide), List.filter_eq_self.2 has,
    List.filter_eq_self.2 hbs, List.dropWhile_append_of_pos has,
    List.dropWhile_cons_of_neg (by decide), List.tail_cons]

end Pointed

namespace Digits

variable {d d' : Digits}

/-! ### Digits -/

/-- The digits are written as digits. -/
theorem isDigit_of_mem_chars {c : Char} (h : c ∈ d.chars) : c.isDigit = true :=
  Nat.isDigit_of_mem_toDigits (by decide) (by decide) h

theorem ne_of_isDigit {c x : Char} (hc : c.isDigit = true) (hx : x.isDigit = false) :
    (c != x) = true := by
  rw [bne_iff_ne]
  rintro rfl
  rw [hc] at hx
  cases hx

/-- The digits stand for their number. -/
theorem digitsValue_chars : Text.digitsValue d.chars = d.digits := Nat.ofDigitChars_ten_toDigits

/-- Each zero behind the digits is a factor of ten. -/
theorem digitsValue_chars_append (n : Nat) :
    Text.digitsValue (d.chars ++ List.replicate n '0') = 10 ^ n * d.digits := by
  have h := Nat.ofDigitChars_append (b := 10) (l := d.chars) (m := List.replicate n '0') 0
  rw [Nat.ofDigitChars_replicate_zero] at h
  exact h.trans (congrArg _ digitsValue_chars)

/-- Zeros before the digits make no difference. -/
theorem digitsValue_append_chars (n : Nat) :
    Text.digitsValue (List.replicate n '0' ++ d.chars) = d.digits := by
  have h := Nat.ofDigitChars_append (b := 10) (l := List.replicate n '0') (m := d.chars) 0
  rw [Nat.ofDigitChars_replicate_zero, Nat.mul_zero] at h
  exact h.trans digitsValue_chars

theorem length_chars_pos (d : Digits) : 0 < d.chars.length := Nat.length_toDigits_pos

/-! ### Positional texts -/

/-- Without an exponent, what is written stands for the number. -/
theorem pointed_marked (h : d.needsExponent = false) : pointed d.marked = d.value := by
  have hdigits : ∀ c ∈ d.chars, (c != '.') = true :=
    fun c hc ↦ ne_of_isDigit (isDigit_of_mem_chars hc) (by decide)
  have hzeros : ∀ n, ∀ c ∈ List.replicate n '0', (c != '.') = true := by
    intro n c hc
    rw [List.eq_of_mem_replicate hc]
    decide
  have hlength := length_chars_pos d
  rw [marked, h, if_neg Bool.false_ne_true]
  unfold positional
  by_cases hexp : 0 ≤ d.exponent
  · -- a whole number, with a point and a zero behind it
    rw [if_pos hexp, if_pos hexp]
    obtain ⟨n, hn⟩ := Int.eq_ofNat_of_zero_le hexp
    have hzero : ['.', '0'] = '.' :: List.replicate 1 '0' := rfl
    rw [hzero, pointed_append (List.forall_mem_append.2 ⟨hdigits, hzeros _⟩) (hzeros 1),
      List.append_assoc, List.replicate_append_replicate, digitsValue_chars_append, value, hn]
    simp only [Int.toNat_natCast, List.length_replicate, zpow_natCast]
    push_cast
    ring
  · rw [if_neg hexp, if_neg hexp]
    obtain ⟨n, hn⟩ : ∃ n : Nat, d.exponent = -n := ⟨(-d.exponent).toNat, by omega⟩
    have hvalue : d.value = d.digits / 10 ^ n := by
      rw [value, hn, zpow_neg, zpow_natCast]
      rfl
    by_cases hmag : 0 ≤ d.magnitude
    · -- the point stands among the digits
      rw [if_pos hmag, pointed_append (fun c hc ↦ hdigits c (List.mem_of_mem_take hc))
        fun c hc ↦ hdigits c (List.mem_of_mem_drop hc), List.take_append_drop, digitsValue_chars,
        List.length_drop, hvalue]
      congr 2
      unfold magnitude at hmag ⊢
      omega
    · -- the point stands in front of the digits
      have hfront : ['0', '.'] ++ List.replicate (-d.magnitude - 1).toNat '0' ++ d.chars =
          List.replicate 1 '0' ++ '.' ::
            (List.replicate (-d.magnitude - 1).toNat '0' ++ d.chars) := rfl
      rw [if_neg hmag, hfront, pointed_append (hzeros 1)
        (List.forall_mem_append.2 ⟨hzeros _, hdigits⟩), ← List.append_assoc,
        List.replicate_append_replicate, digitsValue_append_chars, List.length_append,
        List.length_replicate, hvalue]
      congr 2
      unfold magnitude at hmag ⊢
      omega

/-! ### Texts with an exponent -/

/-- The digits in front of an exponent. -/
def mantissa (d : Digits) : List Char :=
  match d.chars with
  | [] => []
  | [c] => [c]
  | c :: cs => c :: '.' :: cs

theorem scientific_eq (d : Digits) :
    d.scientific = d.mantissa ++ 'e' :: (toString d.magnitude).toList := rfl

/-- The mantissa, moved by the exponent, is the value. -/
theorem pointed_mantissa (d : Digits) : pointed d.mantissa * 10 ^ d.magnitude = d.value := by
  have hdigits : ∀ c ∈ d.chars, (c != '.') = true :=
    fun c hc ↦ ne_of_isDigit (isDigit_of_mem_chars hc) (by decide)
  have hchars := digitsValue_chars (d := d)
  have hlength := length_chars_pos d
  have hmag : d.magnitude = (d.chars.length - 1 : Nat) + d.exponent := by
    unfold magnitude
    omega
  rw [hmag, zpow_add₀ (by norm_num), zpow_natCast, value]
  unfold mantissa
  cases hc : d.chars with
  | nil =>
    rw [hc] at hlength
    cases hlength
  | cons c cs =>
    rw [hc] at hdigits hchars
    -- A single digit has no point behind it.
    cases cs with
    | nil =>
      rw [pointed_whole hdigits, hchars]
      simp
    | cons c' cs =>
      obtain ⟨hfirst, hrest⟩ := List.forall_mem_cons.1 hdigits
      have hpointed : pointed ([c] ++ '.' :: (c' :: cs)) = d.digits / 10 ^ (c' :: cs).length := by
        rw [pointed_append (List.forall_mem_singleton.2 hfirst) hrest, List.singleton_append,
          hchars]
      show pointed ([c] ++ '.' :: (c' :: cs)) * (10 ^ (c' :: cs).length * 10 ^ d.exponent) = _
      rw [hpointed]
      field_simp

/-! ### Characters -/

/-- A digit or a point. -/
def IsPlace (c : Char) : Prop := c.isDigit = true ∨ c = '.'

theorem IsPlace.ne_e {c : Char} (h : IsPlace c) : (c != 'e') = true := by
  rcases h with h | rfl
  · exact ne_of_isDigit h (by decide)
  · decide

theorem exists_chars_eq (d : Digits) : ∃ c cs, d.chars = c :: cs ∧ c.isDigit = true := by
  obtain ⟨c, cs, hc⟩ := List.exists_cons_of_length_pos (length_chars_pos d)
  exact ⟨c, cs, hc, isDigit_of_mem_chars (hc ▸ List.mem_cons_self)⟩

/-- A positional text has digits and points only. -/
theorem isPlace_of_mem_positional {c : Char} (h : c ∈ d.positional) : IsPlace c := by
  have hzeros : ∀ n, c ∈ List.replicate n '0' → IsPlace c := by
    intro n hc
    rw [List.eq_of_mem_replicate hc]
    exact .inl (by decide)
  unfold positional at h
  split at h
  · rcases List.mem_append.1 h with h | h
    · exact .inl (isDigit_of_mem_chars h)
    · exact hzeros _ h
  · split at h
    · rcases List.mem_append.1 h with h | h
      · exact .inl (isDigit_of_mem_chars (List.mem_of_mem_take h))
      · rcases List.mem_cons.1 h with rfl | h
        · exact .inr rfl
        · exact .inl (isDigit_of_mem_chars (List.mem_of_mem_drop h))
    · rcases List.mem_append.1 h with h | h
      · rcases List.mem_append.1 h with h | h
        · simp only [List.mem_cons, List.not_mem_nil, or_false] at h
          exact h.imp (fun hc ↦ by rw [hc]; decide) id
        · exact hzeros _ h
      · exact .inl (isDigit_of_mem_chars h)

/-- Without an exponent, digits and a point are written. -/
theorem isPlace_of_mem_marked (h : d.needsExponent = false) {c : Char} (hc : c ∈ d.marked) :
    IsPlace c := by
  rw [marked, h, if_neg Bool.false_ne_true] at hc
  split at hc
  · rcases List.mem_append.1 hc with hc | hc
    · exact isPlace_of_mem_positional hc
    · simp only [List.mem_cons, List.not_mem_nil, or_false] at hc
      exact hc.symm.imp (fun hc ↦ by rw [hc]; decide) id
  · exact isPlace_of_mem_positional hc

/-- A mantissa has digits and points only. -/
theorem isPlace_of_mem_mantissa {c : Char} (h : c ∈ d.mantissa) : IsPlace c := by
  obtain ⟨c', cs, hchars, hdigit⟩ := exists_chars_eq d
  have hrest : ∀ x ∈ cs, x.isDigit = true :=
    fun x hx ↦ isDigit_of_mem_chars (hchars ▸ List.mem_cons_of_mem _ hx)
  unfold mantissa at h
  rw [hchars] at h
  cases cs with
  | nil => exact .inl (List.mem_singleton.1 h ▸ hdigit)
  | cons c'' cs =>
    simp only [List.mem_cons] at h
    rcases h with rfl | rfl | h
    · exact .inl hdigit
    · exact .inr rfl
    · exact .inl (hrest c (List.mem_cons.2 h))

theorem marked_of_needsExponent (h : d.needsExponent = true) :
    d.marked = d.mantissa ++ 'e' :: (toString d.magnitude).toList := by
  rw [marked, if_pos h, scientific_eq]

theorem e_mem_marked (h : d.needsExponent = true) : 'e' ∈ d.marked := by
  rw [marked_of_needsExponent h]
  exact List.mem_append_right _ List.mem_cons_self

/-- The text of a number begins with a digit. -/
theorem exists_marked_eq (d : Digits) : ∃ c cs, d.marked = c :: cs ∧ c.isDigit = true := by
  obtain ⟨c, cs, hchars, hdigit⟩ := exists_chars_eq d
  have hpositional : ∃ c cs, d.positional = c :: cs ∧ c.isDigit = true := by
    unfold positional
    rw [hchars]
    split
    · exact ⟨c, _, rfl, hdigit⟩
    · split
      · exact ⟨c, _, rfl, hdigit⟩
      · exact ⟨'0', _, rfl, by decide⟩
  unfold marked
  split
  · rw [scientific_eq, mantissa, hchars]
    cases cs <;> exact ⟨c, _, rfl, hdigit⟩
  · split
    · obtain ⟨c, cs, hcs, hdigit⟩ := hpositional
      exact ⟨c, _, by rw [hcs, List.cons_append], hdigit⟩
    · exact hpositional

/-- The text of a number is not that of an integer: it has a point or an exponent. -/
theorem exists_mem_marked (d : Digits) : '.' ∈ d.marked ∨ 'e' ∈ d.marked := by
  cases hd : d.needsExponent with
  | true => exact .inr (e_mem_marked hd)
  | false =>
    refine .inl ?_
    rw [marked, hd, if_neg Bool.false_ne_true]
    unfold positional
    by_cases hexp : 0 ≤ d.exponent
    · rw [if_pos hexp]
      exact List.mem_append_right _ List.mem_cons_self
    · rw [if_neg hexp, if_neg hexp]
      split
      · exact List.mem_append_right _ List.mem_cons_self
      · exact List.mem_append_left _ (List.mem_append_left _ (by decide))

/-- **Equal texts are texts of equal numbers.** -/
theorem value_eq_of_marked (h : d.marked = d'.marked) : d.value = d'.value := by
  cases hd : d.needsExponent <;> cases hd' : d'.needsExponent
  · rw [← pointed_marked hd, ← pointed_marked hd', h]
  · exact absurd (isPlace_of_mem_marked hd (h ▸ e_mem_marked hd')).ne_e (by decide)
  · exact absurd (isPlace_of_mem_marked hd' (h ▸ e_mem_marked hd)).ne_e (by decide)
  · rw [marked_of_needsExponent hd, marked_of_needsExponent hd'] at h
    obtain ⟨hmantissa, hrest⟩ := Text.append_cons_inj (p := (· != 'e'))
      (fun c hc ↦ (isPlace_of_mem_mantissa hc).ne_e) (fun c hc ↦ (isPlace_of_mem_mantissa hc).ne_e)
      rfl rfl h
    have hmag : d.magnitude = d'.magnitude :=
      Text.toString_int_injective (String.toList_inj.1 (List.cons.inj hrest).2)
    rw [← pointed_mantissa, ← pointed_mantissa, hmantissa, hmag]

end Digits

/-! ### Literal texts -/

/-- The number that is written for a decimal behind its sign. -/
def digitsOf (x : Float) : Digits := (Binary.ofBits x.toBits).shortest

/-- The sign that is written in front of a decimal. -/
def signOf (x : Float) : List Char := if x.toBits.toNat ≥ 2 ^ 63 then ['-'] else []

/-- The minus sign is written if the highest bit is set. -/
theorem signOf_cases (x : Float) :
    (signOf x = ['-'] ∧ 2 ^ 63 ≤ x.toBits.toNat) ∨ (signOf x = [] ∧ x.toBits.toNat < 2 ^ 63) := by
  unfold signOf
  split
  · next h => exact .inl ⟨rfl, h⟩
  · next h => exact .inr ⟨rfl, Nat.not_le.1 h⟩

/-- A literal text is a sign and digits that are marked as a decimal. -/
theorem toList_literalText {x : Float} (hx : x.isFinite = true) :
    (literalText x).toList = signOf x ++ (digitsOf x).marked := by
  have hnan : x.isNaN = false ∧ x.isInf = false := by
    unfold Float.isFinite Float.Model.isFinite at hx
    unfold Float.isNaN Float.isInf Float.Model.isNaN Float.Model.isInf
    cases hu : x.toModel.unpack <;> rw [hu] at hx <;> first | exact ⟨rfl, rfl⟩ | cases hx
  rw [literalText, write, hnan.1, hnan.2]
  exact String.toList_ofList

/-- A minus sign is never taken for the beginning of a number. -/
theorem signOf_append_inj {x y : Float} {d d' : Digits}
    (h : signOf x ++ d.marked = signOf y ++ d'.marked) :
    signOf x = signOf y ∧ d.marked = d'.marked := by
  have hminus : ∀ (cs : List Char) (d : Digits), '-' :: cs ≠ d.marked := by
    intro cs d heq
    obtain ⟨c, cs', hmarked, hdigit⟩ := d.exists_marked_eq
    rw [hmarked] at heq
    rw [← (List.cons.inj heq).1] at hdigit
    cases hdigit
  rcases signOf_cases x with ⟨hx, -⟩ | ⟨hx, -⟩ <;> rcases signOf_cases y with ⟨hy, -⟩ | ⟨hy, -⟩ <;>
    rw [hx, hy] at h ⊢
  · exact ⟨rfl, (List.cons.inj h).2⟩
  · exact absurd h (hminus _ _)
  · exact absurd h.symm (hminus _ _)
  · exact ⟨rfl, h⟩

/-- A decimal is its bit pattern. -/
theorem toBits_injective {x y : Float} (h : x.toBits = y.toBits) : x = y := by
  obtain ⟨⟨bits, _⟩⟩ := x
  obtain ⟨⟨bits', _⟩⟩ := y
  cases h
  rfl

/-- **Finite decimals with the same literal text are the same.** -/
theorem literalText_injective {x y : Float} (hx : x.isFinite = true) (hy : y.isFinite = true)
    (h : literalText x = literalText y) : x = y := by
  have hchars := congrArg String.toList h
  rw [toList_literalText hx, toList_literalText hy] at hchars
  obtain ⟨hsign, hmarked⟩ := signOf_append_inj hchars
  have hreadsX := Binary.readsBack_shortest (.ofBits x.toBits)
  have hreadsY := Binary.readsBack_shortest (.ofBits y.toBits)
  rw [Binary.ofBits_eq] at hreadsX hreadsY
  unfold digitsOf at hmarked
  rw [Binary.ofBits_eq, Binary.ofBits_eq] at hmarked
  have hmagnitude : x.toBits.toNat % 2 ^ 63 = y.toBits.toNat % 2 ^ 63 :=
    Binary.magnitude_eq_of_readsBack (Digits.value_eq_of_marked hmarked) hreadsX hreadsY
  have hxlt := x.toBits.toNat_lt
  have hylt := y.toBits.toNat_lt
  refine toBits_injective (UInt64.toNat_inj.1 ?_)
  rcases signOf_cases x with ⟨hsx, hxs⟩ | ⟨hsx, hxs⟩ <;>
    rcases signOf_cases y with ⟨hsy, hys⟩ | ⟨hsy, hys⟩ <;> rw [hsx, hsy] at hsign
  · omega
  · cases hsign
  · cases hsign
  · omega

end SafariScript.Decimal
