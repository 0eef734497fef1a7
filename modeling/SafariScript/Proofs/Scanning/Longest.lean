import SafariScript.Proofs.Scanning.Lexemes

/-!
# The longest match

A token is the longest lexeme at its place: no text that begins there and goes on further belongs to
any class (`longest_of_scan`). The reason is that **the scanner takes at least as much as any lexeme
at the front of the text** (`le_of_lexeme`). The lexeme in question decides by itself which way the
scanner goes, so it is enough to follow that way to its end.

Behind a number a text cannot go on with a letter: the scanner refuses a word that is glued to the
number, and it refuses every character beyond ASCII outside of strings and comments.
-/

namespace SafariScript

open Token

/-! ### The scanner takes as much as any lexeme -/

/-- Characters of a class at the front of a text belong to the longest such beginning. -/
theorem le_length_takeWhile {p : Char → Bool} {cs : List Char} {n : Nat} (hn : n ≤ cs.length)
    (h : ∀ c ∈ cs.take n, p c = true) : n ≤ (cs.takeWhile p).length := by
  have happend : (cs.take n ++ cs.drop n).takeWhile p =
      cs.take n ++ (cs.drop n).takeWhile p := List.takeWhile_append_of_pos h
  rw [List.take_append_drop] at happend
  rw [happend, List.length_append, List.length_take_of_le hn]
  exact Nat.le_add_right ..

theorem length_takeWhile_le_numberLength (cs : List Char) :
    (cs.takeWhile Text.isDigit).length ≤ numberLength cs := by
  unfold numberLength
  split <;> omega

/-- The length of a number whose digits are followed by a point and further digits. -/
theorem le_numberLength_of_decimal {ds es : List Char}
    (hds : ∀ d ∈ ds, Text.isDigit d = true) (hes : IsDigits es) (rest : List Char) :
    ds.length + 1 + es.length ≤ numberLength (ds ++ '.' :: (es ++ rest)) := by
  obtain ⟨hwhole, hfraction⟩ := digits_point hds (es ++ rest)
  rw [List.takeWhile_append_of_pos hes.2] at hfraction
  have hsome : ¬ (es ++ rest.takeWhile Text.isDigit).isEmpty = true := by simp [hes.1]
  rw [numberLength, hfraction, if_neg hsome, hwhole, List.length_append]
  omega

theorem length_of_number {c : Char} {cs : List Char} {front : Piece} {more : Nat}
    (hc : Text.isDigit c = true) (h : piece c cs = .ok (front, more)) :
    more = numberLength cs := by
  rw [pieceAt_iff.1 (.number hc)] at h
  obtain ⟨value, hnumber⟩ | ⟨text, len, hnumber⟩ := number_cases c cs
  · rw [hnumber] at h
    exact (Prod.mk.inj (Except.ok.inj h)).2.symm
  · rw [hnumber] at h
    cases h

/-- **The scanner takes at least as much as any lexeme at the front of the text.** -/
theorem le_of_lexeme {k : Lexical} {c : Char} {cs : List Char} {n : Nat} {front : Piece}
    {more : Nat} (hn : n ≤ cs.length) (hk : Lexeme k (c :: cs.take n))
    (h : piece c cs = .ok (front, more)) : n ≤ more := by
  have hlength : (cs.take n).length = n := List.length_take_of_le hn
  have hcs : cs = cs.take n ++ cs.drop n := (List.take_append_drop n cs).symm
  generalize hl : c :: cs.take n = l at hk
  cases hk with
  | word hc hds =>
    obtain ⟨rfl, rfl⟩ := List.cons.inj hl
    rw [pieceAt_iff.1 (.word hc)] at h
    cases h
    exact le_length_takeWhile hn hds
  | integer hds =>
    subst hl
    obtain ⟨hc, hrest⟩ := List.forall_mem_cons.1 hds.2
    rw [length_of_number hc h]
    exact Nat.le_trans (le_length_takeWhile hn hrest) (length_takeWhile_le_numberLength cs)
  | @decimal ds es hds hes =>
    obtain ⟨d, ds, rfl⟩ := List.exists_cons_of_ne_nil hds.1
    obtain ⟨hd, hrest⟩ := List.forall_mem_cons.1 hds.2
    rw [List.cons_append] at hl
    obtain ⟨rfl, htake⟩ := List.cons.inj hl
    rw [htake, List.append_assoc, List.cons_append] at hcs
    rw [htake, List.length_append, List.length_cons] at hlength
    -- The scanner reads a fraction wherever a digit stands behind the point.
    have hle := le_numberLength_of_decimal hrest hes (cs.drop n)
    rw [← hcs] at hle
    rw [length_of_number hd h]
    omega
  | @string text value htext =>
    obtain ⟨rfl, htake⟩ := List.cons.inj hl
    rw [htake, List.append_assoc, List.singleton_append] at hcs
    rw [htake, List.length_append, List.length_singleton] at hlength
    have hbody := htext.stringBody [] 0 (cs.drop n)
    rw [← hcs] at hbody
    rw [pieceAt_iff.1 (.string hbody)] at h
    cases h
    omega
  | symbol s =>
    obtain ⟨d, hs, -⟩ | ⟨d, e, hs, hpair⟩ := s.text_cases
    · rw [hs] at hl
      rw [(List.cons.inj hl).2, List.length_nil] at hlength
      omega
    · rw [hs] at hl
      obtain ⟨rfl, htake⟩ := List.cons.inj hl
      rw [htake, List.singleton_append] at hcs
      rw [htake, List.length_singleton] at hlength
      rw [hcs, piece_of_pair hpair] at h
      cases h
      exact Nat.le_of_eq hlength.symm

/-! ### Behind a number -/

/-- The kind is that of an integer or a decimal. -/
def Token.Kind.isNumber : Kind → Bool
  | .literal (.int _) => true
  | .literal (.decimal _) => true
  | _ => false

theorem WordKind.not_isNumber {word : String} {kind : Kind} (h : WordKind word kind) :
    kind.isNumber = false := by
  cases h <;> rfl

/-- What stands for a number begins with a digit. -/
theorem Stands.isDigit {k : Lexical} {c : Char} {cs : List Char} {kind : Kind}
    (h : Stands k (c :: cs) kind) (hkind : kind.isNumber = true) : Text.isDigit c = true := by
  generalize hl : c :: cs = l at h
  cases h with
  | word _ hword =>
    rw [hword.not_isNumber] at hkind
    cases hkind
  | integer hds _ =>
    subst hl
    exact hds.2 c List.mem_cons_self
  | @decimal ds es hds _ =>
    obtain ⟨d, ds, rfl⟩ := List.exists_cons_of_ne_nil hds.1
    rw [List.cons_append] at hl
    rw [(List.cons.inj hl).1]
    exact hds.2 d List.mem_cons_self
  | string _ | symbol _ => cases hkind

/-- An integer is the number that its digits write. -/
theorem Stands.toInt {k : Lexical} {cs : List Char} {n : Int64}
    (h : Stands k cs (.literal (.int n))) : n.toInt = Nat.ofDigitChars 10 cs 0 := by
  cases h with
  | word _ hword => cases hword.not_isNumber
  | integer _ hn => exact hn

/-- No word is glued to a number. -/
theorem isWordPart_of_number {c : Char} {cs : List Char} {kind : Kind} {more : Nat}
    (hc : Text.isDigit c = true) (h : piece c cs = .ok (.token kind, more)) :
    ∀ d ∈ (cs.drop more).head?, isWordPart d = false := by
  have hmore := length_of_number hc h
  have hglued : gluedWord cs = [] := by
    rw [pieceAt_iff.1 (.number hc), number_eq] at h
    split at h
    · cases h
    · next hnone => simpa using hnone
  intro d hd
  obtain ⟨ds, hds⟩ := List.head?_eq_some_iff.1 hd
  rw [gluedWord, ← hmore, hds] at hglued
  by_cases hpart : isWordPart d = true
  · rw [List.takeWhile_cons_of_pos hpart] at hglued
    cases hglued
  · exact Bool.not_eq_true _ ▸ hpart

/-! ### Characters of code -/

theorem toNat_lt_of_isDigit {c : Char} (h : Text.isDigit c = true) : c.toNat < 128 := by
  simp only [Text.isDigit, Bool.and_eq_true, decide_eq_true_eq, Char.le_def,
    UInt32.le_iff_toNat_le] at h
  have hnine : '9'.val.toNat < 128 := by decide
  exact Nat.lt_of_le_of_lt h.2 hnine

theorem toNat_lt_of_isWordStart {c : Char} (h : isWordStart c = true) : c.toNat < 128 := by
  simp only [isWordStart, Bool.or_eq_true, Bool.and_eq_true, decide_eq_true_eq, beq_iff_eq,
    Char.le_def, UInt32.le_iff_toNat_le] at h
  obtain (hsmall | hcapital) | rfl := h
  · exact Nat.lt_of_le_of_lt hsmall.2 (by decide)
  · exact Nat.lt_of_le_of_lt hcapital.2 (by decide)
  · decide

/-- Letters and the underscore begin words. -/
theorem isWordStart_of_isAlpha {c : Char} (h : c.isAlpha = true ∨ c = '_') :
    isWordStart c = true := by
  simp only [isWordStart, Bool.or_eq_true, Bool.and_eq_true, decide_eq_true_eq, beq_iff_eq,
    Char.le_def]
  obtain hletter | hunder := h
  · obtain hupper | hlower : c.isUpper = true ∨ c.isLower = true := Bool.or_eq_true_iff.1 hletter
    · exact .inl (.inr (of_decide_eq_true hupper))
    · obtain ⟨hfrom, hto⟩ := Bool.and_eq_true_iff.1 hlower
      exact .inl (.inl ⟨of_decide_eq_true hfrom, of_decide_eq_true hto⟩)
  · exact .inr hunder

/-- Symbols are written in ASCII. -/
theorem Symbol.toNat_lt {s : Symbol} {c : Char} (h : c ∈ s.text.toList) : c.toNat < 128 := by
  have hall : s.text.toList.all (fun c ↦ c.toNat < 128) = true := by cases s <;> decide
  exact of_decide_eq_true (List.all_eq_true.1 hall c h)

/-- Every piece begins with an ASCII character. -/
theorem toNat_lt_of_piece {c : Char} {cs : List Char} {r : Piece × Nat}
    (h : piece c cs = .ok r) : c.toNat < 128 := by
  have hpiece := pieceAt_iff.2 h
  generalize hr : (.ok r : Except Flaw (Piece × Nat)) = r' at hpiece
  cases hpiece with
  | space hspace =>
    obtain rfl | rfl | rfl | rfl : c = ' ' ∨ c = '\t' ∨ c = '\r' ∨ c = '\n' := by
      simpa using isSpace_iff.1 hspace
    all_goals decide
  | lineComment | blockComment | string => decide
  | openComment | badString => cases hr
  | number hdigit => exact toNat_lt_of_isDigit hdigit
  | word hword => exact toNat_lt_of_isWordStart hword
  | symbol =>
    unfold symbol at hr
    split at hr
    · next s hs =>
      obtain ⟨d, -, hpair⟩ := Option.bind_eq_some_iff.1 hs
      exact Symbol.toNat_lt (text_of_pair hpair ▸ List.mem_cons_self)
    split at hr
    · next s hs => exact Symbol.toNat_lt (text_of_single hs ▸ List.mem_cons_self)
    · split at hr <;> cases hr

/-- A text that can be scanned begins with an ASCII character. -/
theorem toNat_lt_of_scanFrom {found : List Token} {p : Position} {cs : List Char} {ts : List Token}
    (h : scanFrom found p cs = .ok ts) : ∀ c ∈ cs.head?, c.toNat < 128 := by
  intro c hc
  obtain ⟨ds, rfl⟩ := List.head?_eq_some_iff.1 hc
  rw [scanFrom] at h
  rcases hpiece : piece c ds with flaw | r
  · rw [hpiece] at h
    cases h
  · exact toNat_lt_of_piece hpiece

/-! ### Tokens in the source -/

/-- A longer stretch of the text begins with the shorter one. -/
theorem textBetween_of_lt {source : String} {before middle after : List Char}
    (h : source.toList = before ++ middle ++ after) {j : Nat}
    (hj : String.Pos.Raw.IsValid source ⟨j⟩)
    (hlt : String.utf8Len before + String.utf8Len middle < j) :
    ∃ more rest, more ≠ [] ∧ after = more ++ rest ∧
      textBetween source (String.utf8Len before) j = String.ofList (middle ++ more) := by
  obtain ⟨s₁, s₂, hsource, hend⟩ := String.Pos.Raw.isValid_iff_exists_append.1 hj
  have hlist : source.toList = s₁.toList ++ s₂.toList := by rw [hsource, String.toList_append]
  have hbytes : j = String.utf8Len s₁.toList :=
    (congrArg String.Pos.Raw.byteIdx hend).trans (String.utf8Len_toList s₁).symm
  rw [← String.utf8Len_append] at hlt
  obtain ⟨more, hmore⟩ | ⟨more, hmore⟩ := List.prefix_or_prefix_of_prefix
    (⟨after, h.symm⟩ : before ++ middle <+: source.toList) ⟨s₂.toList, hlist.symm⟩
  · have hafter : after = more ++ s₂.toList := by
      rw [h, ← hmore, List.append_assoc (before ++ middle)] at hlist
      exact List.append_cancel_left hlist
    refine ⟨more, s₂.toList, ?_, hafter, ?_⟩
    · rintro rfl
      rw [List.append_nil] at hmore
      rw [hbytes, hmore] at hlt
      exact Nat.lt_irrefl _ hlt
    · have hstretch : source.toList = before ++ (middle ++ more) ++ s₂.toList := by
        rw [h, hafter]
        simp only [List.append_assoc]
      rw [← textBetween_of_append hstretch, hbytes, ← hmore, List.append_assoc,
        String.utf8Len_append]
  · rw [hbytes, ← hmore, String.utf8Len_append] at hlt
    omega

section ReadOff

variable {source : String} {t : Token} {before : List Char} {c : Char} {cs : List Char} {more : Nat}

theorem Token.ReadOff.len_eq (h : t.ReadOff source before c cs more) :
    t.len = String.utf8Len (c :: cs.take more) := by
  rw [Token.len_eq, h.lexeme_eq]

theorem Token.ReadOff.source_tiles (h : t.ReadOff source before c cs more) :
    source.toList = before ++ (c :: cs.take more) ++ cs.drop more := by
  rw [h.source_eq, List.append_assoc, List.cons_append, List.take_append_drop]

/-- No longer text at the place of the token is a lexeme. -/
theorem Token.ReadOff.not_lexeme (h : t.ReadOff source before c cs more) {j : Nat}
    (hj : t.position.offset + t.len < j) (hvalid : String.Pos.Raw.IsValid source ⟨j⟩)
    (k : Lexical) : ¬ Lexeme k (textBetween source t.position.offset j).toList := by
  intro hk
  rw [h.offset_eq, h.len_eq] at hj
  obtain ⟨extra, rest, hne, hextra, hbetween⟩ := textBetween_of_lt h.source_tiles hvalid hj
  have htake : cs.take (more + extra.length) = cs.take more ++ extra := by
    rw [List.take_add, hextra, List.take_left]
  have hle : more + extra.length ≤ cs.length := by
    have hbound : more ≤ cs.length := (piece_append_of_token h.piece_eq (d := ' ') rfl []).2
    have hsum := congrArg List.length hextra
    rw [List.length_drop, List.length_append] at hsum
    omega
  rw [h.offset_eq, hbetween, String.toList_ofList, List.cons_append, ← htake] at hk
  have hmore := le_of_lexeme hle hk h.piece_eq
  have hpos := List.length_pos_of_ne_nil hne
  omega

/-- The text behind the token. -/
theorem Token.ReadOff.textBehind (h : t.ReadOff source before c cs more) :
    textBetween source (t.position.offset + t.len) source.utf8ByteSize =
      String.ofList (cs.drop more) := by
  have hall : source.toList = (before ++ (c :: cs.take more)) ++ cs.drop more ++ [] := by
    rw [List.append_nil, h.source_tiles]
  rw [← textBetween_of_append hall, h.offset_eq, h.len_eq, ← String.utf8Len_append,
    ← String.utf8Len_append, ← h.source_tiles, String.utf8Len_toList]

/-- Behind a number there is no letter, be it one of ASCII or beyond, and no underscore. -/
theorem Token.ReadOff.no_letter (h : t.ReadOff source before c cs more)
    (hnumber : t.kind.isNumber = true) :
    ∀ d ∈ (cs.drop more).head?, d.toNat < 128 ∧ d.isAlpha = false ∧ d ≠ '_' := by
  intro d hd
  obtain ⟨k, hstands⟩ := stands_of_piece h.piece_eq
  have hpart := isWordPart_of_number (hstands.isDigit hnumber) h.piece_eq d hd
  have hletter : ¬ (d.isAlpha = true ∨ d = '_') := fun hletter ↦ by
    rw [isWordPart, isWordStart_of_isAlpha hletter, Bool.true_or] at hpart
    cases hpart
  obtain ⟨halpha, hunder⟩ := not_or.1 hletter
  obtain ⟨_, _, _, hrest⟩ := h.goes_on
  exact ⟨toNat_lt_of_scanFrom hrest d hd, Bool.eq_false_iff.2 halpha, hunder⟩

end ReadOff

/-- The token is the longest lexeme at its place, and it stands for what it says. -/
structure Token.Longest (source : String) (t : Token) : Prop where
  /-- The text belongs to just one class, and what it stands for there is the kind of the token. -/
  stands : ∃ k, (∀ k', Lexeme k' t.lexeme.toList ↔ k' = k) ∧ Stands k t.lexeme.toList t.kind
  /-- An integer is the number that its digits write, which is not too large. -/
  value : ∀ n, t.kind = .literal (.int n) →
    n.toInt = Nat.ofDigitChars 10 t.lexeme.toList 0 ∧
      Nat.ofDigitChars 10 t.lexeme.toList 0 ≤ maxInt
  /-- No longer text at the place of the token is a lexeme. -/
  longest : ∀ j, t.position.offset + t.len < j → String.Pos.Raw.IsValid source ⟨j⟩ →
    ∀ k, ¬ Lexeme k (textBetween source t.position.offset j).toList
  /-- A number is not followed by a letter, be it one of ASCII or beyond, nor by an underscore. -/
  apart : t.kind.isNumber = true →
    ∀ d ∈ (textBetween source (t.position.offset + t.len) source.utf8ByteSize).toList.head?,
      d.toNat < 128 ∧ d.isAlpha = false ∧ d ≠ '_'

/-- **Tokens are longest matches.** Every token of a scanned source but the mark of the end belongs
to one class of lexemes and stands for its kind there, no longer text at its place is a lexeme, and
no letter or underscore follows a number. -/
theorem longest_of_scan {source : String} {ts : List Token} (h : scan source = .ok ts) :
    ∀ t ∈ ts, t.kind ≠ .endOfInput → t.Longest source := by
  intro t ht hend
  obtain ⟨before, c, cs, more, hread⟩ := readOff_of_mem_scan h ht hend
  obtain ⟨k, hstands⟩ := stands_of_piece hread.piece_eq
  rw [← hread.lexeme_eq] at hstands
  refine ⟨⟨k, fun k' ↦ ?_, hstands⟩, fun n hn ↦ ?_, fun j hj hvalid ↦ hread.not_lexeme hj hvalid,
    fun hnumber ↦ ?_⟩
  · exact ⟨fun hk' ↦ hk'.unique hstands.lexeme, fun hk' ↦ hk' ▸ hstands.lexeme⟩
  · rw [hn] at hstands
    exact ⟨hstands.toInt, le_maxInt_of_toInt hstands.toInt⟩
  · rw [hread.textBehind, String.toList_ofList]
    exact hread.no_letter hnumber

/-- Tokens that stand close together: a word that begins with a keyword, symbols of two characters
and of one, and an integer before a point. -/
def closeTogether : String := "runner<=-12.x"

/-- A word is not cut behind its keyword, and the point is not part of the number. -/
theorem longest_of_scan_closeTogether : ∃ ts, scan closeTogether = .ok ts ∧
    ts.map Token.lexeme = ["runner", "<=", "-", "12", ".", "x", ""] ∧
    ∀ t ∈ ts, t.kind ≠ .endOfInput → t.Longest closeTogether := by
  have hscan : ∃ ts, scan closeTogether = .ok ts ∧
      ts.map Token.lexeme = ["runner", "<=", "-", "12", ".", "x", ""] :=
    ⟨_, by with_unfolding_all rfl, by with_unfolding_all rfl⟩
  obtain ⟨ts, hts, hlexemes⟩ := hscan
  exact ⟨ts, hts, hlexemes, longest_of_scan hts⟩

end SafariScript
