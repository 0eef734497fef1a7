import SafariScript.Proofs.Scanning.Seam

/-!
# Lexemes

The texts of tokens fall into five classes (`Lexical`): words, integers, decimals, strings and
symbols. `Lexeme` says which texts belong to a class, and `Stands` what a text of a class stands
for: neither looks at how the scanner goes about it. A text belongs to one class at most
(`Lexeme.unique`).

The scanner and the classes agree in both directions. What it finds is a lexeme and stands for the
kind that it gives (`stands_of_piece`); and a lexeme is found again, whole and as the same kind, in
front of a blank character (`piece_of_stands`).
-/

namespace SafariScript

open Token

/-! ### Classes -/

/-- The classes of lexemes. -/
inductive Lexical where
  | word
  | integer
  | decimal
  | string
  | symbol
deriving DecidableEq

/-- One or more digits. -/
def IsDigits (ds : List Char) : Prop := ds ≠ [] ∧ ∀ d ∈ ds, Text.isDigit d = true

/-- A text between quotes, and the characters that it stands for. -/
inductive StringText : (text value : List Char) → Prop
  | nil : StringText [] []
  | plain {c : Char} {text value : List Char} : c ≠ '"' → c ≠ '\\' → StringText text value →
    StringText (c :: text) (c :: value)
  | escape {c v : Char} {text value : List Char} :
    (c, v) ∈ [('n', '\n'), ('t', '\t'), ('\\', '\\'), ('"', '"')] → StringText text value →
    StringText ('\\' :: c :: text) (v :: value)

/-- The texts of a class. -/
inductive Lexeme : Lexical → List Char → Prop
  | word {c : Char} {cs : List Char} : isWordStart c = true → (∀ d ∈ cs, isWordPart d = true) →
    Lexeme .word (c :: cs)
  | integer {ds : List Char} : IsDigits ds → Lexeme .integer ds
  | decimal {ds es : List Char} : IsDigits ds → IsDigits es → Lexeme .decimal (ds ++ '.' :: es)
  | string {text value : List Char} : StringText text value →
    Lexeme .string ('"' :: (text ++ ['"']))
  | symbol (s : Symbol) : Lexeme .symbol s.text.toList

/-- The table of words: keywords, truth values and `null`; all other words are identifiers. -/
inductive WordKind : String → Kind → Prop
  | keyword (k : Keyword) : WordKind k.text (.keyword k)
  | bool (b : Bool) : WordKind (boolText b) (.literal (.bool b))
  | null : WordKind "null" (.literal .null)
  | ident {name : String} : (∀ k : Keyword, k.text ≠ name) → (∀ b, boolText b ≠ name) →
    "null" ≠ name → WordKind name (.ident name)

/-- What a text of a class stands for. An integer is the number that its digits write, so that
number is one of 64 bits. -/
inductive Stands : Lexical → List Char → Kind → Prop
  | word {cs : List Char} {kind : Kind} : Lexeme .word cs → WordKind (String.ofList cs) kind →
    Stands .word cs kind
  | integer {ds : List Char} {n : Int64} : IsDigits ds → n.toInt = Nat.ofDigitChars 10 ds 0 →
    Stands .integer ds (.literal (.int n))
  | decimal {ds es : List Char} : IsDigits ds → IsDigits es →
    Stands .decimal (ds ++ '.' :: es) (.literal (.decimal (Decimal.ofDigits ds es)))
  | string {text value : List Char} : StringText text value →
    Stands .string ('"' :: (text ++ ['"'])) (.literal (.str (String.ofList value)))
  | symbol (s : Symbol) : Stands .symbol s.text.toList (.symbol s)

theorem Stands.lexeme {k : Lexical} {cs : List Char} {kind : Kind} (h : Stands k cs kind) :
    Lexeme k cs := by
  cases h with
  | word hcs _ => exact hcs
  | integer hds _ => exact .integer hds
  | decimal hds hes => exact .decimal hds hes
  | string htext => exact .string htext
  | symbol s => exact .symbol s

/-! ### Characters of symbols -/

/-- A symbol is one character or two. -/
theorem Symbol.text_cases (s : Symbol) :
    (∃ c, s.text.toList = [c] ∧ single? c = some s) ∨
      ∃ c d, s.text.toList = [c, d] ∧ pair? c d = some s := by
  cases s with
  | equalEqual | bangEqual | lessEqual | greaterEqual | arrow => exact .inr ⟨_, _, rfl, rfl⟩
  | _ => exact .inl ⟨_, rfl, rfl⟩

theorem text_of_single {c : Char} {s : Symbol} (h : single? c = some s) : s.text.toList = [c] := by
  unfold single? at h
  split at h <;> cases h <;> rfl

theorem text_of_pair {c d : Char} {s : Symbol} (h : pair? c d = some s) :
    s.text.toList = [c, d] := by
  unfold pair? at h
  split at h <;> cases h <;> rfl

/-- A character that begins neither a word nor a number nor a string, and is not blank. -/
def isMark (c : Char) : Bool := !isSpace c && c != '"' && !Text.isDigit c && !isWordStart c

theorem isMark_iff {c : Char} : isMark c = true ↔
    isSpace c = false ∧ c ≠ '"' ∧ Text.isDigit c = false ∧ isWordStart c = false := by
  simp [isMark, and_assoc]

theorem isMark_of_single {c : Char} {s : Symbol} (h : single? c = some s) : isMark c = true := by
  unfold single? at h
  split at h <;> cases h <;> decide

theorem isMark_of_pair {c d : Char} {s : Symbol} (h : pair? c d = some s) :
    isMark c = true ∧ c ≠ '/' := by
  unfold pair? at h
  split at h <;> cases h <;> decide

/-! ### A text belongs to one class -/

/-- The class that the characters of a text tell. -/
def Lexical.ofText : List Char → Lexical
  | [] => .symbol
  | c :: cs =>
    if isWordStart c then .word
    else if Text.isDigit c then (if '.' ∈ cs then .decimal else .integer)
    else if c = '"' then .string
    else .symbol

theorem Lexeme.eq_ofText {k : Lexical} {cs : List Char} (h : Lexeme k cs) :
    k = Lexical.ofText cs := by
  have hword : ∀ {c : Char}, Text.isDigit c = true → ¬ isWordStart c = true := fun hc hstart ↦ by
    rw [isDigit_of_isWordStart hstart] at hc
    cases hc
  have hpoint : Text.isDigit '.' = false := by decide
  cases h with
  | word hc _ => rw [Lexical.ofText, if_pos hc]
  | integer hds =>
    obtain ⟨hne, hdigits⟩ := hds
    cases cs with
    | nil => exact absurd rfl hne
    | cons d ds =>
      obtain ⟨hd, hrest⟩ := List.forall_mem_cons.1 hdigits
      have hnone : '.' ∉ ds := fun hmem ↦ ne_of_class (hrest _ hmem) hpoint rfl
      rw [Lexical.ofText, if_neg (hword hd), if_pos hd, if_neg hnone]
  | @decimal ds es hds hes =>
    obtain ⟨hne, hdigits⟩ := hds
    cases ds with
    | nil => exact absurd rfl hne
    | cons d ds =>
      have hd := hdigits d List.mem_cons_self
      have hmem : '.' ∈ ds ++ '.' :: es := List.mem_append_right _ List.mem_cons_self
      rw [List.cons_append, Lexical.ofText, if_neg (hword hd), if_pos hd, if_pos hmem]
  | string _ => rfl
  | symbol s =>
    have hmark : ∀ c cs, isMark c = true → Lexical.symbol = Lexical.ofText (c :: cs) := by
      intro c cs hc
      obtain ⟨-, hquote, hdigit, hstart⟩ := isMark_iff.1 hc
      rw [Lexical.ofText, if_neg (by simp [hstart]), if_neg (by simp [hdigit]), if_neg hquote]
    obtain ⟨c, hs, hsingle⟩ | ⟨c, d, hs, hpair⟩ := s.text_cases
    · rw [hs]
      exact hmark c [] (isMark_of_single hsingle)
    · rw [hs]
      exact hmark c [d] (isMark_of_pair hpair).1

/-- **A text belongs to one class at most.** -/
theorem Lexeme.unique {k k' : Lexical} {cs : List Char} (h : Lexeme k cs) (h' : Lexeme k' cs) :
    k = k' :=
  h.eq_ofText.trans h'.eq_ofText.symm

/-! ### Words -/

theorem Keyword.mem_all (k : Keyword) : k ∈ Keyword.all := by cases k <;> decide

theorem wordKind_ofWord (word : String) : WordKind word (.ofWord word) := by
  unfold Kind.ofWord
  split
  · next k hk =>
    have htext : k.text = word := by simpa using List.find?_some hk
    exact htext ▸ .keyword k
  next hnone =>
  have hkeyword : ∀ k : Keyword, k.text ≠ word := fun k ↦ by
    simpa using List.find?_eq_none.1 hnone k k.mem_all
  split
  · next h => exact h ▸ .bool true
  next htrue =>
  split
  · next h => exact h ▸ .bool false
  next hfalse =>
  split
  · next h => exact h ▸ .null
  next hnull =>
  refine .ident hkeyword (fun b ↦ ?_) (Ne.symm hnull)
  cases b with
  | true => exact Ne.symm htrue
  | false => exact Ne.symm hfalse

/-- The table has one line for each word. -/
theorem WordKind.eq_ofWord {word : String} {kind : Kind} (h : WordKind word kind) :
    Kind.ofWord word = kind := by
  cases h with
  | keyword k => cases k <;> rfl
  | bool b => cases b <;> rfl
  | null => rfl
  | ident hkeyword hbool hnull =>
    have hnone : Keyword.all.find? (fun k ↦ k.text == word) = none :=
      List.find?_eq_none.2 fun k _ ↦ by simpa using hkeyword k
    rw [Kind.ofWord, hnone]
    have htrue : word ≠ "true" := Ne.symm (hbool true)
    have hfalse : word ≠ "false" := Ne.symm (hbool false)
    show (if word = "true" then _ else _) = _
    rw [if_neg htrue, if_neg hfalse, if_neg (Ne.symm hnull)]

/-! ### Strings -/

theorem unescape?_iff {c v : Char} :
    unescape? c = some v ↔ (c, v) ∈ [('n', '\n'), ('t', '\t'), ('\\', '\\'), ('"', '"')] := by
  constructor
  · intro h
    unfold unescape? at h
    split at h <;> cases h <;> decide
  · intro h
    simp only [List.mem_cons, Prod.mk.injEq, List.not_mem_nil, or_false] at h
    obtain ⟨rfl, rfl⟩ | ⟨rfl, rfl⟩ | ⟨rfl, rfl⟩ | ⟨rfl, rfl⟩ := h <;> rfl

/-- A text between quotes is read up to the closing quote. Of the string, `n` characters were read
before, which stand for `front` in reverse order. -/
theorem StringText.stringBody {text value : List Char} (h : StringText text value)
    (front : List Char) (n : Nat) (rest : List Char) :
    Token.stringBody front n (text ++ '"' :: rest) =
      .ok (String.ofList (front.reverse ++ value), n + text.length + 1) := by
  induction h generalizing front n with
  | nil => rw [List.nil_append, List.append_nil, Token.stringBody, List.length_nil, Nat.add_zero]
  | @plain c text value hquote hescape _ ih =>
    rw [List.cons_append, stringBody_cons hquote hescape, ih, List.reverse_cons, List.append_assoc,
      List.singleton_append, List.length_cons, Nat.add_right_comm n, Nat.add_assoc n]
  | @escape c v text value hc _ ih =>
    rw [List.cons_append, List.cons_append, Token.stringBody, unescape?_iff.2 hc]
    show Token.stringBody (v :: front) (n + 2) (text ++ '"' :: rest) = _
    rw [ih, List.reverse_cons, List.append_assoc, List.singleton_append, List.length_cons,
      List.length_cons]
    congr 2
    omega

/-- What is read as a string is a text between quotes. -/
theorem stringText_of_stringBody {front : List Char} {n k : Nat} {cs : List Char} {s : String}
    (h : Token.stringBody front n cs = .ok (s, k)) : ∃ text value rest,
      cs = text ++ '"' :: rest ∧ StringText text value ∧
      s = String.ofList (front.reverse ++ value) ∧ k = n + text.length + 1 := by
  induction front, n, cs using Token.stringBody.induct with
  | case1 front n cs =>
    cases h
    exact ⟨[], [], cs, rfl, .nil, by rw [List.append_nil], rfl⟩
  | case2 front n c cs v hv ih =>
    rw [Token.stringBody, hv] at h
    obtain ⟨text, value, rest, rfl, htext, rfl, rfl⟩ := ih h
    refine ⟨'\\' :: c :: text, v :: value, rest, rfl, .escape (unescape?_iff.1 hv) htext, ?_, ?_⟩
    · rw [List.reverse_cons, List.append_assoc, List.singleton_append]
    · rw [List.length_cons, List.length_cons]
      omega
  | case3 front n c cs hv =>
    rw [Token.stringBody, hv] at h
    cases h
  | case4 front n => cases h
  | case5 front n c cs hquote hescape hlast ih =>
    have hplain := ne_backslash hescape hlast
    rw [stringBody_cons hquote hplain] at h
    obtain ⟨text, value, rest, rfl, htext, rfl, rfl⟩ := ih h
    refine ⟨c :: text, c :: value, rest, rfl, .plain hquote hplain htext, ?_, ?_⟩
    · rw [List.reverse_cons, List.append_assoc, List.singleton_append]
    · rw [List.length_cons]
      omega
  | case6 front n => cases h

/-! ### Numbers -/

/-- What an integer of 64 bits stands for is not too large to be written. -/
theorem le_maxInt_of_toInt {n : Int64} {k : Nat} (h : n.toInt = k) : k ≤ maxInt := by
  have hlt := n.toInt_lt
  have hpow : (2 : Int) ^ 63 = (maxInt : Int) + 1 := by decide
  omega

/-- Digits end at a point, and what follows it is the fraction. -/
theorem digits_point {ds : List Char} (hds : ∀ d ∈ ds, Text.isDigit d = true) (cs : List Char) :
    (ds ++ '.' :: cs).takeWhile Text.isDigit = ds ∧
      fractionDigits (ds ++ '.' :: cs) = cs.takeWhile Text.isDigit := by
  have hspan := span_append (r := '.' :: cs) (List.all_eq_true.2 hds) (by rintro _ ⟨⟩; decide)
  refine ⟨hspan.1, ?_⟩
  rw [fractionDigits, hspan.2]
  rfl

/-- Digits are read as an integer, if it is one of 64 bits. -/
theorem number_of_digits {c : Char} {cs : List Char} (hcs : ∀ d ∈ cs, Text.isDigit d = true)
    (hvalue : Text.digitsValue (c :: cs) ≤ maxInt) : number c cs =
      .ok (.token (.literal (.int (Int64.ofNat (Text.digitsValue (c :: cs))))), cs.length) := by
  have hspan := span_append (r := []) (List.all_eq_true.2 hcs) (by rintro _ ⟨⟩)
  rw [List.append_nil] at hspan
  have hfraction : fractionDigits cs = [] := by rw [fractionDigits, hspan.2]
  have hlength : numberLength cs = cs.length := by
    rw [numberLength, hfraction, hspan.1]
    rfl
  have hglued : gluedWord cs = [] := by rw [gluedWord, hlength, List.drop_length]; rfl
  rw [number_eq, hglued, hfraction, hspan.1, hlength]
  exact if_pos hvalue

/-- Digits, a point and digits are read as a decimal. -/
theorem number_of_decimal {c : Char} {ds es : List Char} (hds : ∀ d ∈ ds, Text.isDigit d = true)
    (hes : IsDigits es) :
    number c (ds ++ '.' :: es) = .ok (.token (.literal (.decimal (Decimal.ofDigits (c :: ds) es))),
      ds.length + 1 + es.length) := by
  obtain ⟨hwhole, hfraction⟩ := digits_point hds es
  have hdigits := (span_append (r := []) (List.all_eq_true.2 hes.2) (by rintro _ ⟨⟩)).1
  rw [List.append_nil] at hdigits
  rw [hdigits] at hfraction
  have hsome : es.isEmpty = false := by simpa using hes.1
  have hlength : numberLength (ds ++ '.' :: es) = ds.length + 1 + es.length := by
    rw [numberLength, hfraction, hsome, hwhole]
    rfl
  have hglued : gluedWord (ds ++ '.' :: es) = [] := by
    have hdrop : (ds ++ '.' :: es).drop (ds.length + 1 + es.length) = [] :=
      List.drop_eq_nil_of_le (by simp only [List.length_append, List.length_cons]; omega)
    rw [gluedWord, hlength, hdrop]
    rfl
  rw [number_eq, hglued, hfraction, hsome, hwhole, hlength]
  rfl

/-- Where a number has a fraction, a point with digits follows its first digits. -/
theorem exists_of_fractionDigits {cs : List Char} (h : fractionDigits cs ≠ []) :
    ∃ ds, cs = cs.takeWhile Text.isDigit ++ '.' :: ds ∧
      fractionDigits cs = ds.takeWhile Text.isDigit := by
  unfold fractionDigits at h ⊢
  split at h
  · next ds hds => exact ⟨ds, by rw [← hds, List.takeWhile_append_dropWhile], rfl⟩
  · exact absurd rfl h

/-- The text of a number with a fraction. -/
theorem take_numberLength {cs : List Char} (h : fractionDigits cs ≠ []) :
    cs.take (numberLength cs) = cs.takeWhile Text.isDigit ++ '.' :: fractionDigits cs := by
  obtain ⟨ds, hcs, hds⟩ := exists_of_fractionDigits h
  have hlength : numberLength cs =
      (cs.takeWhile Text.isDigit).length + 1 + (ds.takeWhile Text.isDigit).length := by
    rw [← hds]
    exact if_neg (by rwa [List.isEmpty_iff])
  have hcut := take_append_cons (cs.takeWhile Text.isDigit) '.' ds
    (ds.takeWhile Text.isDigit).length
  rwa [← hcs, take_takeWhile, ← hlength, ← hds] at hcut

/-- What is read as a number are digits, or digits with a point between. -/
theorem stands_of_number {c : Char} {cs : List Char} {kind : Kind} {more : Nat}
    (hc : Text.isDigit c = true) (h : number c cs = .ok (.token kind, more)) :
    ∃ k, Stands k (c :: cs.take more) kind := by
  have hwhole : IsDigits (c :: cs.takeWhile Text.isDigit) :=
    ⟨List.cons_ne_nil _ _,
      List.forall_mem_cons.2 ⟨hc, List.all_eq_true.1 List.all_takeWhile⟩⟩
  rw [number_eq] at h
  split at h
  · cases h
  split at h
  · next hfraction =>
    cases h
    have hne : fractionDigits cs ≠ [] := by simpa using hfraction
    have hdigits : IsDigits (fractionDigits cs) := by
      obtain ⟨ds, -, hds⟩ := exists_of_fractionDigits hne
      exact ⟨hne, hds ▸ List.all_eq_true.1 List.all_takeWhile⟩
    rw [take_numberLength hne]
    exact ⟨.decimal, .decimal hwhole hdigits⟩
  split at h
  · next hfraction hvalue =>
    cases h
    have hlength : numberLength cs = (cs.takeWhile Text.isDigit).length :=
      if_pos (by simpa using hfraction)
    have hbound : Text.digitsValue (c :: cs.takeWhile Text.isDigit) < 2 ^ 63 :=
      Nat.lt_of_le_of_lt hvalue (by decide)
    rw [hlength, take_takeWhile]
    exact ⟨.integer, .integer hwhole (Int64.toInt_ofNat_of_lt hbound)⟩
  · cases h

/-! ### What the scanner finds -/

/-- **What the scanner finds is a lexeme**, and it stands for the kind that the scanner gives. -/
theorem stands_of_piece {c : Char} {cs : List Char} {kind : Kind} {more : Nat}
    (h : piece c cs = .ok (.token kind, more)) : ∃ k, Stands k (c :: cs.take more) kind := by
  have hpiece := pieceAt_iff.2 h
  generalize hr : (.ok (.token kind, more) : Except Flaw (Piece × Nat)) = r at hpiece
  cases hpiece with
  | space | lineComment | blockComment | openComment | badString => cases hr
  | string hbody =>
    cases hr
    obtain ⟨text, value, rest, rfl, htext, rfl, rfl⟩ := stringText_of_stringBody hbody
    have htake : (text ++ '"' :: rest).take (0 + text.length + 1) = text ++ ['"'] := by
      rw [Nat.zero_add, List.take_length_add_append]
      rfl
    rw [htake]
    exact ⟨.string, .string htext⟩
  | number hdigit => exact stands_of_number hdigit hr.symm
  | word hword =>
    cases hr
    rw [take_takeWhile]
    exact ⟨.word, .word (.word hword (List.all_eq_true.1 List.all_takeWhile)) (wordKind_ofWord _)⟩
  | symbol =>
    unfold symbol at hr
    split at hr
    · next s hs =>
      cases hr
      obtain ⟨d, hd, hpair⟩ := Option.bind_eq_some_iff.1 hs
      obtain ⟨ds, rfl⟩ := List.head?_eq_some_iff.1 hd
      rw [List.take_succ_cons, List.take_zero, ← text_of_pair hpair]
      exact ⟨.symbol, .symbol s⟩
    split at hr
    · next s hs =>
      cases hr
      rw [List.take_zero, ← text_of_single hs]
      exact ⟨.symbol, .symbol s⟩
    · split at hr <;> cases hr

/-! ### What is found again -/

/-- A symbol of two characters is found wherever it stands. -/
theorem piece_of_pair {c d : Char} {s : Symbol} (h : pair? c d = some s) (cs : List Char) :
    piece c (d :: cs) = .ok (.token (.symbol s), 1) := by
  obtain ⟨hmark, hslash⟩ := isMark_of_pair h
  obtain ⟨hspace, hquote, hdigit, hword⟩ := isMark_iff.1 hmark
  have hsymbol : symbol c (d :: cs) = .ok (.token (.symbol s), 1) := by
    rw [symbol, List.head?_cons, Option.bind_some, h]
  rw [← pieceAt_iff, ← hsymbol]
  exact .symbol hspace hquote hdigit hword (absurd · hslash) (absurd · hslash)

/-- A symbol of one character is found before a blank character. -/
theorem piece_of_single {c d : Char} {s : Symbol} (h : single? c = some s)
    (hd : isSpace d = true) (cs : List Char) :
    piece c (d :: cs) = .ok (.token (.symbol s), 0) := by
  obtain ⟨hspace, hquote, hdigit, hword⟩ := isMark_iff.1 (isMark_of_single h)
  have hsymbol : symbol c (d :: cs) = .ok (.token (.symbol s), 0) := by
    rw [← List.nil_append (d :: cs), symbol_append hd [] cs c, symbol, List.head?_nil,
      Option.bind_none, h]
  have hhead : ∀ e, isSpace e = false → (d :: cs).head? ≠ some e := by
    rintro e he ⟨⟩
    cases he.symm.trans hd
  rw [← pieceAt_iff, ← hsymbol]
  exact .symbol hspace hquote hdigit hword (fun _ ↦ hhead '/' (by decide))
    fun _ ↦ hhead '*' (by decide)

/-- **A lexeme is found again** before a blank character, whole and as the same kind. -/
theorem piece_of_stands {k : Lexical} {c : Char} {cs : List Char} {kind : Kind}
    (h : Stands k (c :: cs) kind) {d : Char} (hd : isSpace d = true) (ds : List Char) :
    piece c (cs ++ d :: ds) = .ok (.token kind, cs.length) := by
  generalize hl : c :: cs = l at h
  cases h with
  | word hlexeme hkind =>
    subst hl
    cases hlexeme with
    | word hc hcs =>
      have hspan := span_append (r := d :: ds) (List.all_eq_true.2 hcs)
        (by rintro _ ⟨⟩; exact isWordPart_of_isSpace hd)
      have hword : word c (cs ++ d :: ds) = (.token kind, cs.length) := by
        rw [word, hspan.1, hkind.eq_ofWord]
      rw [← pieceAt_iff, ← hword]
      exact .word hc
  | @integer _ n hdigits hn =>
    subst hl
    obtain ⟨hc, hcs⟩ := List.forall_mem_cons.1 hdigits.2
    have hvalue : n.toInt = Text.digitsValue (c :: cs) := hn
    have hmax : Text.digitsValue (c :: cs) ≤ maxInt := le_maxInt_of_toInt hvalue
    have hofNat : Int64.ofNat (Text.digitsValue (c :: cs)) = n := by
      rw [← Int64.toInt_inj, Int64.toInt_ofNat_of_lt, hvalue]
      exact Nat.lt_of_le_of_lt hmax (by decide)
    rw [← pieceAt_iff, ← hofNat, ← number_of_digits hcs hmax, ← number_append hd cs ds c]
    exact .number hc
  | @decimal es fs hes hfs =>
    cases es with
    | nil => exact absurd rfl hes.1
    | cons e es =>
      rw [List.cons_append] at hl
      obtain ⟨rfl, rfl⟩ := List.cons.inj hl
      obtain ⟨hc, hes'⟩ := List.forall_mem_cons.1 hes.2
      have hlength : (es ++ '.' :: fs).length = es.length + 1 + fs.length := by
        rw [List.length_append, List.length_cons]
        omega
      rw [← pieceAt_iff, hlength, ← number_of_decimal hes' hfs, ← number_append hd _ ds c]
      exact .number hc
  | @string text value htext =>
    obtain ⟨rfl, rfl⟩ := List.cons.inj hl
    have hbody := htext.stringBody [] 0 (d :: ds)
    have happend : text ++ ['"'] ++ d :: ds = text ++ '"' :: d :: ds := by simp
    rw [← pieceAt_iff, happend, List.length_append]
    rw [Nat.zero_add] at hbody
    exact .string hbody
  | symbol s =>
    obtain ⟨e, hs, hsingle⟩ | ⟨e, e', hs, hpair⟩ := s.text_cases
    · rw [hs] at hl
      obtain ⟨rfl, rfl⟩ := List.cons.inj hl
      exact piece_of_single hsingle hd ds
    · rw [hs] at hl
      obtain ⟨rfl, rfl⟩ := List.cons.inj hl
      exact piece_of_pair hpair (d :: ds)

end SafariScript
