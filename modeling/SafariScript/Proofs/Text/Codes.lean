import SafariScript.Text.Digits
import SafariScript.Text.Quoted

/-!
# Texts that determine what they stand for

What is written for a number determines it: in any base up to sixteen (`toDigits_injective`), and
with a sign in base ten (`toString_int_injective`). What is written for a character between quotes
also says where it ends, so that what is written for a string determines the string
(`flatMap_escape_injective`).
-/

namespace SafariScript.Text

/-- Two texts that are the same fall apart at the same character, the first that is not of a
class. -/
theorem append_cons_inj {α : Type} {p : α → Bool} {as bs xs ys : List α} {c d : α}
    (has : ∀ a ∈ as, p a = true) (hbs : ∀ b ∈ bs, p b = true) (hc : p c = false) (hd : p d = false)
    (h : as ++ c :: xs = bs ++ d :: ys) : as = bs ∧ c :: xs = d :: ys := by
  have htake := congrArg (List.takeWhile p) h
  rw [List.takeWhile_append_of_pos has, List.takeWhile_append_of_pos hbs,
    List.takeWhile_cons_of_neg (by simp [hc]), List.takeWhile_cons_of_neg (by simp [hd]),
    List.append_nil, List.append_nil] at htake
  rw [htake] at h
  exact ⟨htake, List.append_cancel_left h⟩

/-! ### Digits in a base -/

/-- There are as many digits as a base up to sixteen needs. -/
theorem digitChar_injective {m n : Nat} (hm : m < 16) (hn : n < 16)
    (h : m.digitChar = n.digitChar) : m = n := by
  have hall : ∀ i j : Fin 16, i.val.digitChar = j.val.digitChar → i = j := by decide
  exact congrArg Fin.val (hall ⟨m, hm⟩ ⟨n, hn⟩ h)

/-- A numeral of more than one digit ends like a numeral of one digit, but something stands in
front. -/
theorem singleton_ne_append_toDigits (base n : Nat) (c d : Char) :
    [c] ≠ base.toDigits n ++ [d] := by
  intro h
  have hlength := congrArg List.length h
  rw [List.length_append] at hlength
  have hpos : 0 < (base.toDigits n).length := Nat.length_toDigits_pos
  simp only [List.length_singleton] at hlength
  omega

/-- The last digit is the remainder, and what stands in front of it is the numeral of the
quotient. -/
theorem toDigits_injective {base m n : Nat} (hbase : 1 < base) (hsmall : base ≤ 16)
    (h : base.toDigits m = base.toDigits n) : m = n := by
  have hdigit : ∀ {k : Nat}, k < base → k < 16 := fun hk ↦ Nat.lt_of_lt_of_le hk hsmall
  induction m using Nat.strongRecOn generalizing n with
  | ind m ih =>
    rw [Nat.toDigits_eq_if (n := m) hbase, Nat.toDigits_eq_if (n := n) hbase] at h
    by_cases hm : m < base <;> by_cases hn : n < base
    · rw [if_pos hm, if_pos hn] at h
      exact digitChar_injective (hdigit hm) (hdigit hn) (List.singleton_inj.1 h)
    · rw [if_pos hm, if_neg hn] at h
      exact absurd h (singleton_ne_append_toDigits _ _ _ _)
    · rw [if_neg hm, if_pos hn] at h
      exact absurd h.symm (singleton_ne_append_toDigits _ _ _ _)
    · rw [if_neg hm, if_neg hn] at h
      obtain ⟨hfront, hlast⟩ := List.append_inj' h rfl
      have hquotient : m / base = n / base :=
        ih (m / base) (Nat.div_lt_self (by omega) hbase) hfront
      have hremainder : m % base = n % base :=
        digitChar_injective (hdigit (Nat.mod_lt m (by omega))) (hdigit (Nat.mod_lt n (by omega)))
          (List.singleton_inj.1 hlast)
      rw [← Nat.div_add_mod m base, ← Nat.div_add_mod n base, hquotient, hremainder]

/-- The characters of a numeral are digits of the base. -/
theorem exists_digit_of_mem_toDigits {base n : Nat} (hbase : 1 < base) {c : Char}
    (h : c ∈ base.toDigits n) : ∃ k < base, c = k.digitChar := by
  induction n using Nat.strongRecOn with
  | ind n ih =>
    rw [Nat.toDigits_eq_if hbase] at h
    split at h
    · next hn => exact ⟨n, hn, List.mem_singleton.1 h⟩
    · next hn =>
      rcases List.mem_append.1 h with h | h
      · exact ih (n / base) (Nat.div_lt_self (by omega) hbase) h
      · exact ⟨n % base, Nat.mod_lt n (by omega), List.mem_singleton.1 h⟩

/-! ### Integers -/

/-- The characters of an integer: digits, after a minus sign if it is negative. -/
theorem toList_toString_int (a : Int) : (toString a).toList =
    if 0 ≤ a then Nat.toDigits 10 a.toNat else '-' :: Nat.toDigits 10 (-a).toNat := by
  rw [Int.toString_eq_repr, Int.repr_eq_if]
  split
  · rw [Nat.repr_eq_ofList_toDigits, String.toList_ofList]
  · rw [Nat.repr_eq_ofList_toDigits, String.toList_append, String.toList_ofList,
      String.toList_ofList]
    rfl

theorem isDigit_of_mem_toDigits_ten {n : Nat} {c : Char} (h : c ∈ Nat.toDigits 10 n) :
    c.isDigit = true :=
  Nat.isDigit_of_mem_toDigits (by decide) (by decide) h

/-- A numeral without a sign does not begin with one. -/
theorem cons_minus_ne_toDigits (cs : List Char) (n : Nat) : '-' :: cs ≠ Nat.toDigits 10 n := by
  intro h
  have hdigit := isDigit_of_mem_toDigits_ten (h ▸ List.mem_cons_self)
  cases hdigit

theorem toString_int_injective {a b : Int} (h : toString a = toString b) : a = b := by
  have hchars := congrArg String.toList h
  rw [toList_toString_int, toList_toString_int] at hchars
  by_cases ha : 0 ≤ a <;> by_cases hb : 0 ≤ b
  · rw [if_pos ha, if_pos hb] at hchars
    have := toDigits_injective (by decide) (by decide) hchars
    omega
  · rw [if_pos ha, if_neg hb] at hchars
    exact absurd hchars.symm (cons_minus_ne_toDigits _ _)
  · rw [if_neg ha, if_pos hb] at hchars
    exact absurd hchars (cons_minus_ne_toDigits _ _)
  · rw [if_neg ha, if_neg hb] at hchars
    have := toDigits_injective (by decide) (by decide) (List.cons.inj hchars).2
    omega

/-! ### Escapes -/

/-- The character that a letter behind a backslash stands for. -/
def named : Char → Char
  | 'n' => '\n'
  | 't' => '\t'
  | 'r' => '\r'
  | '0' => '\x00'
  | c => c

/-- The three ways in which a character is written between quotes. -/
inductive Escaped (c : Char) : List Char → Prop
  | itself : c ≠ '"' → c ≠ '\\' → Escaped c [c]
  | letter {x : Char} : x ≠ 'u' → c = named x → Escaped c ['\\', x]
  | code : Escaped c ('\\' :: 'u' :: '{' :: (Nat.toDigits 16 c.toNat ++ ['}']))

theorem escaped_escape (c : Char) : Escaped c (escape c) := by
  unfold escape
  split
  · next h => exact .letter (by decide) h
  split
  · next h => exact .letter (by decide) h
  split
  · next h => exact .letter (by decide) h
  split
  · next h => exact .letter (by decide) h
  split
  · next h => exact .letter (by decide) h
  split
  · next h => exact .letter (by decide) h
  split
  · next hquote hbackslash _ _ _ _ _ => exact .itself hquote hbackslash
  · exact .code

/-- A digit in base sixteen is not the brace that closes a code. -/
theorem ne_brace_of_mem_toDigits {n : Nat} : ∀ c ∈ Nat.toDigits 16 n, (c != '}') = true := by
  intro c hc
  obtain ⟨k, hk, rfl⟩ := exists_digit_of_mem_toDigits (by decide) hc
  have hall : ∀ i : Fin 16, (i.val.digitChar != '}') = true := by decide
  exact hall ⟨k, hk⟩

/-- What is written for a character says which one it is and where it ends. -/
theorem escape_append_inj {c d : Char} {r r' : List Char} (h : escape c ++ r = escape d ++ r') :
    c = d ∧ r = r' := by
  have hc := escaped_escape c
  have hd := escaped_escape d
  generalize escape c = cs at h hc
  generalize escape d = ds at h hd
  cases hc with
  | itself _ hbackslash =>
    cases hd with
    | itself _ _ => exact List.cons.inj h
    | letter _ _ | code => exact absurd (List.cons.inj h).1 hbackslash
  | letter hx hcx =>
    cases hd with
    | itself _ hbackslash => exact absurd (List.cons.inj h).1.symm hbackslash
    | letter _ hdx =>
      obtain ⟨hxy, hr⟩ := List.cons.inj (List.cons.inj h).2
      exact ⟨by rw [hcx, hdx, hxy], hr⟩
    | code => exact absurd (List.cons.inj (List.cons.inj h).2).1 hx
  | code =>
    cases hd with
    | itself _ hbackslash => exact absurd (List.cons.inj h).1.symm hbackslash
    | letter hx _ => exact absurd (List.cons.inj (List.cons.inj h).2).1.symm hx
    | code =>
      simp only [List.cons_append, List.append_assoc, List.nil_append, List.cons.injEq,
        true_and] at h
      obtain ⟨hcode, hr⟩ := append_cons_inj ne_brace_of_mem_toDigits ne_brace_of_mem_toDigits
        rfl rfl h
      exact ⟨Char.toNat_inj.1 (toDigits_injective (by decide) (by decide) hcode),
        (List.cons.inj hr).2⟩

theorem escape_ne_nil (c : Char) : escape c ≠ [] := by
  intro h
  have hc := escaped_escape c
  rw [h] at hc
  cases hc

/-- **What is written for a string between quotes determines it.** -/
theorem flatMap_escape_injective {cs ds : List Char} (h : cs.flatMap escape = ds.flatMap escape) :
    cs = ds := by
  induction cs generalizing ds with
  | nil =>
    cases ds with
    | nil => rfl
    | cons d ds => exact absurd (List.append_eq_nil_iff.1 h.symm).1 (escape_ne_nil d)
  | cons c cs ih =>
    cases ds with
    | nil => exact absurd (List.append_eq_nil_iff.1 h).1 (escape_ne_nil c)
    | cons d ds =>
      obtain ⟨rfl, hrest⟩ := escape_append_inj h
      rw [ih hrest]

end SafariScript.Text
