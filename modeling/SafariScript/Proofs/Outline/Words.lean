import SafariScript.Proofs.Scanning.Pieces
import SafariScript.Proofs.Text.Codes

/-!
# The words of an outline

An outline is read back in two steps, and this is the first: its characters are cut into words,
which are parentheses and leaves (`words`). Blanks and line breaks only part the words, so the
layout is gone afterwards. A leaf is a run of characters up to a blank or a closing parenthesis, the
key of a named argument, or a text between quotes.

For each kind of word there is one equation that says how it is read: `words_left`, `words_right`,
`words_plain`, `words_key` and `words_quoted`. A plain word needs something behind it that ends it
(`Ends`).
-/

namespace SafariScript.Outline

open Token (isWordStart isWordPart)

/-- What stands at a leaf of an outline. -/
inductive Leaf where
  | plain (text : List Char)
  /-- The key of a named argument, without the `=` behind it. -/
  | key (name : List Char)
  /-- A text between quotes, as it is written there. -/
  | quoted (text : List Char)

/-- A word of an outline. -/
inductive Word where
  | left
  | right
  | leaf (leaf : Leaf)

/-! ### Reading words -/

/-- Only parts words. -/
def isGap (c : Char) : Bool := c == ' ' || c == '\n'

/-- Stands inside of a plain word. -/
def isInner (c : Char) : Bool := !isGap c && c != ')'

/-- The characters up to the quote that closes the text, and those behind it. What stands behind a
backslash closes nothing. -/
def splitQuoted : List Char → List Char × List Char
  | [] => ([], [])
  | '"' :: cs => ([], cs)
  | '\\' :: c :: cs => ('\\' :: c :: (splitQuoted cs).1, (splitQuoted cs).2)
  | c :: cs => (c :: (splitQuoted cs).1, (splitQuoted cs).2)

/-- The next word and what stands behind it, if there is a word. -/
def nextWord? : List Char → Option (Word × List Char)
  | [] => none
  | c :: cs =>
    if isGap c then nextWord? cs
    else if c = '(' then some (.left, cs)
    else if c = ')' then some (.right, cs)
    else if c = '"' then some (.leaf (.quoted (splitQuoted cs).1), (splitQuoted cs).2)
    else if isWordStart c && (cs.dropWhile isWordPart).head? == some '=' then
      some (.leaf (.key (c :: cs.takeWhile isWordPart)), (cs.dropWhile isWordPart).tail)
    else some (.leaf (.plain (c :: cs.takeWhile isInner)), cs.dropWhile isInner)

/-- What stands behind the quote is no longer than the text. -/
theorem length_splitQuoted_le (cs : List Char) : (splitQuoted cs).2.length ≤ cs.length := by
  fun_induction splitQuoted cs with
  | case1 => exact Nat.le_refl _
  | case2 cs => exact Nat.le_succ _
  | case3 c cs ih => exact Nat.le_succ_of_le (Nat.le_succ_of_le ih)
  | case4 c cs _ _ ih => exact Nat.le_succ_of_le ih

/-- A word takes at least one character. -/
theorem length_lt_of_nextWord? {cs rest : List Char} {w : Word}
    (h : nextWord? cs = some (w, rest)) : rest.length < cs.length := by
  induction cs with
  | nil => cases h
  | cons c cs ih =>
    have hdrop (p : Char → Bool) : (cs.dropWhile p).length ≤ cs.length :=
      (List.dropWhile_sublist p).length_le
    rw [nextWord?] at h
    split at h
    · exact Nat.lt_succ_of_lt (ih h)
    split at h
    · obtain ⟨-, rfl⟩ := Prod.mk.inj (Option.some.inj h)
      exact Nat.lt_succ_self _
    split at h
    · obtain ⟨-, rfl⟩ := Prod.mk.inj (Option.some.inj h)
      exact Nat.lt_succ_self _
    split at h
    · obtain ⟨-, rfl⟩ := Prod.mk.inj (Option.some.inj h)
      exact Nat.lt_succ_of_le (length_splitQuoted_le cs)
    split at h
    · obtain ⟨-, rfl⟩ := Prod.mk.inj (Option.some.inj h)
      rw [List.length_tail, List.length_cons]
      have := hdrop isWordPart
      omega
    · obtain ⟨-, rfl⟩ := Prod.mk.inj (Option.some.inj h)
      exact Nat.lt_succ_of_le (hdrop isInner)

/-- The words of a text. -/
def words (cs : List Char) : List Word :=
  match _h : nextWord? cs with
  | none => []
  | some (w, rest) => w :: words rest
termination_by cs.length
decreasing_by exact length_lt_of_nextWord? _h

theorem words_of_none {cs : List Char} (h : nextWord? cs = none) : words cs = [] := by
  rw [words]
  split
  · rfl
  · next h' => rw [h] at h'; cases h'

theorem words_of_some {cs rest : List Char} {w : Word} (h : nextWord? cs = some (w, rest)) :
    words cs = w :: words rest := by
  rw [words]
  split
  · next h' => rw [h] at h'; cases h'
  · next h' =>
    rw [h] at h'
    obtain ⟨rfl, rfl⟩ := Prod.mk.inj (Option.some.inj h')
    rfl

/-! ### Gaps and parentheses -/

variable {r : List Char}

theorem words_nil : words [] = [] := words_of_none rfl

/-- A blank is no word. -/
theorem words_gap {c : Char} (hc : isGap c = true) : words (c :: r) = words r := by
  have hnext : nextWord? (c :: r) = nextWord? r := by rw [nextWord?, if_pos hc]
  rcases h : nextWord? r with _ | ⟨w, rest⟩
  · rw [words_of_none h, words_of_none (hnext.trans h)]
  · rw [words_of_some h, words_of_some (hnext.trans h)]

/-- Blanks in a row are no words. -/
theorem words_gaps {cs : List Char} (hcs : ∀ c ∈ cs, isGap c = true) :
    words (cs ++ r) = words r := by
  induction cs with
  | nil => rfl
  | cons c cs ih =>
    obtain ⟨hc, hcs⟩ := List.forall_mem_cons.1 hcs
    exact (words_gap hc).trans (ih hcs)

theorem words_left : words ('(' :: r) = .left :: words r := words_of_some rfl

theorem words_right : words (')' :: r) = .right :: words r := words_of_some rfl

/-! ### Plain words and keys -/

/-- A plain word does not go on behind it. -/
def Ends (r : List Char) : Prop := ∀ c ∈ r.head?, isInner c = false

theorem Ends.nil : Ends [] := nofun

/-- A blank and a closing parenthesis end a plain word. -/
theorem Ends.cons {c : Char} (hc : isInner c = false) : Ends (c :: r) := by
  intro d hd
  rwa [← Option.some.inj hd]

/-- The text is read as one plain word. A word that begins like a name is a name. -/
def isPlain : List Char → Bool
  | [] => false
  | c :: cs =>
    isInner c && c != '(' && c != '"' && cs.all isInner && (!isWordStart c || cs.all isWordPart)

/-- Nothing else ends a plain word. -/
theorem isInner_eq_false {c : Char} (h : isInner c = false) : c = ' ' ∨ c = '\n' ∨ c = ')' := by
  simp only [isInner, isGap, Bool.and_eq_false_iff, Bool.not_eq_false', Bool.or_eq_true,
    beq_iff_eq, bne_eq_false_iff_eq, or_assoc] at h
  exact h

/-- What ends a plain word ends a name and is not the `=` behind a key. -/
theorem Ends.isWordPart (hr : Ends r) : ∀ c ∈ r.head?, isWordPart c = false := by
  intro c hc
  rcases isInner_eq_false (hr c hc) with rfl | rfl | rfl <;> decide

theorem Ends.head?_ne (hr : Ends r) : r.head? ≠ some '=' := by
  intro h
  rcases isInner_eq_false (hr '=' h) with h | h | h <;> cases h

/-- A plain word, with something behind it that ends it. -/
theorem words_plain {cs : List Char} (hcs : isPlain cs = true) (hr : Ends r) :
    words (cs ++ r) = .leaf (.plain cs) :: words r := by
  cases cs with
  | nil => cases hcs
  | cons c cs =>
    simp only [isPlain, isInner, Bool.and_eq_true, Bool.not_eq_true', bne_iff_ne, Bool.or_eq_true,
      and_assoc] at hcs
    obtain ⟨hgap, hright, hleft, hquote, hinner, hname⟩ := hcs
    have hkey : (isWordStart c && ((cs ++ r).dropWhile isWordPart).head? == some '=') = false := by
      rcases hname with hname | hname
      · rw [hname, Bool.false_and]
      · rw [(span_append hname hr.isWordPart).2, beq_eq_false_iff_ne.2 hr.head?_ne, Bool.and_false]
    refine words_of_some ?_
    rw [List.cons_append, nextWord?, if_neg (Bool.eq_false_iff.1 hgap), if_neg hleft,
      if_neg hright, if_neg hquote, if_neg (Bool.eq_false_iff.1 hkey),
      (span_append hinner hr).1, (span_append hinner hr).2]

/-- The text is a name. -/
def isName : List Char → Bool
  | [] => false
  | c :: cs => isWordStart c && cs.all isWordPart

theorem isWordPart_of_isWordStart {c : Char} (h : isWordStart c = true) : isWordPart c = true := by
  rw [isWordPart, h, Bool.true_or]

/-- The characters of a name stand inside of a plain word. -/
theorem isInner_of_isWordPart {c : Char} (h : isWordPart c = true) : isInner c = true := by
  rcases hc : isInner c
  · rcases isInner_eq_false hc with rfl | rfl | rfl <;> exact absurd h (by decide)
  · rfl

/-- A name is a plain word. -/
theorem isPlain_of_isName {cs : List Char} (h : isName cs = true) : isPlain cs = true := by
  cases cs with
  | nil => cases h
  | cons c cs =>
    simp only [isName, Bool.and_eq_true] at h
    obtain ⟨hc, hcs⟩ := h
    have hinner : cs.all isInner = true :=
      List.all_eq_true.2 fun d hd ↦ isInner_of_isWordPart (List.all_eq_true.1 hcs d hd)
    simp only [isPlain, Bool.and_eq_true, bne_iff_ne, Bool.or_eq_true, and_assoc]
    exact ⟨isInner_of_isWordPart (isWordPart_of_isWordStart hc), ne_of_class hc (by decide),
      ne_of_class hc (by decide), hinner, .inr hcs⟩

/-- A name with `=` behind it is a key. -/
theorem words_key {cs : List Char} (h : isName cs = true) :
    words (cs ++ '=' :: r) = .leaf (.key cs) :: words r := by
  cases cs with
  | nil => cases h
  | cons c cs =>
    simp only [isName, Bool.and_eq_true] at h
    obtain ⟨hc, hcs⟩ := h
    have hspan := span_append (r := '=' :: r) hcs (by rintro _ ⟨⟩; decide)
    have hgap : isGap c = false := by
      simp only [isGap, Bool.or_eq_false_iff, beq_eq_false_iff_ne]
      exact ⟨ne_of_class hc (by decide), ne_of_class hc (by decide)⟩
    refine words_of_some ?_
    rw [List.cons_append, nextWord?, if_neg (Bool.eq_false_iff.1 hgap),
      if_neg (ne_of_class hc (by decide)), if_neg (ne_of_class hc (by decide)),
      if_neg (ne_of_class hc (by decide)), hspan.1, hspan.2, hc]
    rfl

/-! ### Quoted words -/

/-- A character that is neither a quote nor a backslash closes nothing. -/
theorem splitQuoted_cons {c : Char} (hquote : c ≠ '"') (hbackslash : c ≠ '\\') :
    splitQuoted (c :: r) = (c :: (splitQuoted r).1, (splitQuoted r).2) := by
  rw [splitQuoted]
  · exact hquote
  · rintro d cs rfl
    exact absurd rfl hbackslash

/-- Up to a quote or a backslash the text goes on. -/
theorem splitQuoted_append {cs : List Char} (hcs : ∀ c ∈ cs, c ≠ '"' ∧ c ≠ '\\') :
    splitQuoted (cs ++ r) = (cs ++ (splitQuoted r).1, (splitQuoted r).2) := by
  induction cs with
  | nil => rfl
  | cons c cs ih =>
    obtain ⟨hc, hcs⟩ := List.forall_mem_cons.1 hcs
    rw [List.cons_append, splitQuoted_cons hc.1 hc.2, ih hcs]
    rfl

/-- What is written for a character closes nothing. -/
theorem splitQuoted_escape (c : Char) :
    splitQuoted (Text.escape c ++ r) =
      (Text.escape c ++ (splitQuoted r).1, (splitQuoted r).2) := by
  have hc := Text.escaped_escape c
  generalize Text.escape c = cs at hc
  cases hc with
  | itself hquote hbackslash => exact splitQuoted_cons hquote hbackslash
  | letter _ _ => rfl
  | code =>
    have hcode : ∀ d ∈ '{' :: (Nat.toDigits 16 c.toNat ++ ['}']), d ≠ '"' ∧ d ≠ '\\' := by
      simp only [List.forall_mem_cons, List.forall_mem_append]
      refine ⟨by decide, fun d hd ↦ ?_, by decide, nofun⟩
      obtain ⟨k, hk, rfl⟩ := Text.exists_digit_of_mem_toDigits (by decide) hd
      have hall : ∀ i : Fin 16, i.val.digitChar ≠ '"' ∧ i.val.digitChar ≠ '\\' := by decide
      exact hall ⟨k, hk⟩
    show splitQuoted ('\\' :: 'u' :: ('{' :: (Nat.toDigits 16 c.toNat ++ ['}']) ++ r)) = _
    rw [splitQuoted, splitQuoted_append hcode]
    rfl

/-- An escaped text goes on up to the quote behind it. -/
theorem splitQuoted_flatMap (cs : List Char) :
    splitQuoted (cs.flatMap Text.escape ++ '"' :: r) = (cs.flatMap Text.escape, r) := by
  induction cs with
  | nil => rfl
  | cons c cs ih => rw [List.flatMap_cons, List.append_assoc, splitQuoted_escape, ih]

/-- A text in quotes, as it is written there. -/
theorem words_quoted (cs : List Char) :
    words (Text.quoteChars cs ++ r) = .leaf (.quoted (cs.flatMap Text.escape)) :: words r := by
  refine words_of_some ?_
  have hsplit := splitQuoted_flatMap (r := r) cs
  rw [Text.quoteChars, List.cons_append, List.append_assoc, List.singleton_append, nextWord?,
    if_neg (by decide), if_neg (by decide), if_neg (by decide), if_pos rfl, hsplit]

end SafariScript.Outline
