import SafariScript.Proofs.Scanning.Bytes.Reads

/-!
# Comments, strings and numbers in bytes

On the bytes of characters, the cursor on bytes passes a comment, and reads a string or a number, as
the scanner does that reads the characters (`skipComment_eq`, `string_eq`, `number_eq`): with the
same value, up to the same place, or with the report of the same flaw.
-/

namespace SafariScript

open Token

namespace ByteCursor

variable {α β : Type} {bytes bs rest : List UInt8} {p q : Position} {cs ds : List Char}

/-! ### Comments -/

section Comments

variable {start : Position}

/-- A byte that does not begin the closing mark is taken. -/
theorem commentRounds_cons {b : UInt8} (h : Left bytes p (b :: bs))
    (hopen : (Char.ofUInt8 b == '*' && front bs == '/') = false) :
    rounds (commentRound start) () bytes p =
      rounds (commentRound start) () bytes (p.afterBytes [b]) := by
  have hround : commentRound start () bytes p = some (.ok (.inl (), p.afterBytes [b])) := by
    rw [commentRound, bind_of_ok (atEnd_eq h)]
    show (peek >>= _) bytes p = _
    rw [bind_of_ok (peek_eq h), bind_of_ok (peekNext_eq h)]
    show (if (Char.ofUInt8 b == '*' && front bs == '/') = true then _ else _ : ByteCursor _)
      bytes p = _
    rw [hopen]
    show (advance >>= _) bytes p = _
    rw [bind_of_ok (advance_eq h)]
    rfl
  have hleft : Left bytes p ([b] ++ bs) := h
  exact rounds_inl hleft (List.cons_ne_nil _ _) hround

/-- Bytes other than that of the asterisk are taken. -/
theorem commentRounds_append (hbs : ∀ b ∈ bs, (Char.ofUInt8 b == '*') = false)
    (h : Left bytes p (bs ++ rest)) : rounds (commentRound start) () bytes p =
      rounds (commentRound start) () bytes (p.afterBytes bs) := by
  induction bs generalizing p with
  | nil => rfl
  | cons b bs ih =>
    obtain ⟨hb, hbs⟩ := List.forall_mem_cons.1 hbs
    have hleft : Left bytes p ([b] ++ (bs ++ rest)) := h
    have hopen : (Char.ofUInt8 b == '*' && front (bs ++ rest) == '/') = false := by
      rw [hb, Bool.false_and]
    rw [commentRounds_cons hleft hopen, ih hbs hleft.after]
    rfl

/-- A character that does not begin the closing mark is taken. -/
theorem commentRounds_char {c : Char} (h : Left bytes p (utf8 (c :: cs)))
    (hc : ∀ ds, c = '*' → cs = '/' :: ds → False) : rounds (commentRound start) () bytes p =
      rounds (commentRound start) () bytes (p.after c) := by
  rw [utf8_cons] at h
  rw [← Position.afterBytes_utf8EncodeChar]
  by_cases hstar : c = '*'
  · subst hstar
    have hslash : (front (utf8 cs) == '/') = false := by
      rw [(AsciiOnly.beq (d := '/') (by decide)).front cs]
      cases cs with
      | nil => rfl
      | cons d ds => exact beq_false_of_ne fun hd ↦ hc ds rfl (congrArg (· :: ds) hd)
    have hopen : (Char.ofUInt8 0x2a == '*' && front (utf8 cs) == '/') = false := by
      rw [hslash, Bool.and_false]
    exact commentRounds_cons h hopen
  · refine commentRounds_append (fun b hb ↦ ?_) h
    rw [(AsciiOnly.beq (d := '*') (by decide)).apply hb]
    exact beq_false_of_ne hstar

/-- **A block comment is taken up to its closing mark**, of which `n` characters were counted
before. -/
theorem commentRounds_eq (n : Nat) (h : Left bytes p (utf8 cs)) :
    rounds (commentRound start) () bytes p =
      match commentLength n cs with
      | some k => some (.ok ((), p.afterAll (cs.take (k - n))))
      | none => fail .unterminatedComment start 2 bytes p := by
  -- Each round passes one character, or the end of the comment.
  induction n, cs using commentLength.induct generalizing p with
  | case1 n ds =>
    have hround : commentRound start () bytes p = some (.ok (.inr (), p.afterAll ['*', '/'])) := by
      rw [commentRound, bind_of_ok (atEnd_eq h)]
      show (peek >>= _) bytes p = _
      rw [bind_of_ok (peek_eq h), bind_of_ok (peekNext_eq h)]
      show (advance >>= _) bytes p = _
      rw [bind_of_ok (advance_char (by decide) h), bind_of_ok (advance_char (by decide) h.tail)]
      rfl
    have htwo : n + 2 - n = 2 := by omega
    show _ = some (Except.ok ((), p.afterAll (('*' :: '/' :: ds).take (n + 2 - n))))
    rw [rounds_inr hround, htwo]
    rfl
  | case2 n c ds hc ih =>
    rw [commentRounds_char h hc, commentLength_cons hc, ih h.tail]
    cases hk : commentLength (n + 1) ds with
    | none => rfl
    | some k =>
      obtain ⟨body, _, _, _, hlength⟩ := commentLength_eq_some hk
      have hk' : k - n = k - (n + 1) + 1 := by omega
      show some (Except.ok ((), _)) = some (Except.ok ((), _))
      rw [hk', List.take_succ_cons, Position.afterAll_cons]
  | case3 n =>
    refine rounds_error ?_
    rw [commentRound, bind_of_ok (atEnd_eq h)]
    rfl

theorem skipComment_eq (h : Left bytes p (utf8 ('*' :: cs))) : skipComment start bytes p =
    match commentLength 1 cs with
    | some k => some (.ok ((), p.afterAll (('*' :: cs).take k)))
    | none => fail .unterminatedComment start 2 bytes p := by
  rw [skipComment, bind_of_ok (advance_char (by decide) h), commentRounds_eq 1 h.tail]
  cases hk : commentLength 1 cs with
  | none => rfl
  | some k =>
    obtain ⟨body, _, _, _, hlength⟩ := commentLength_eq_some hk
    obtain ⟨j, rfl⟩ : ∃ j, k = j + 1 := ⟨body.length + 2, by omega⟩
    rfl

end Comments

/-! ### Strings -/

section Strings

variable {start : Position} {found : List UInt8}

/-- The first byte of a character, read as a character. -/
theorem ofUInt8_eq_leadByte {c : Char} {b : UInt8} (h : String.utf8EncodeChar c = b :: bs) :
    Char.ofUInt8 b = ScanError.leadByte c := by
  have hvalid : c.toNat < 0x110000 := by
    rcases c.valid with h | h
    · exact Nat.lt_trans h (by decide)
    · exact h.2
  have hbyte : b.toNat = if c.toNat < 0x80 then c.toNat
      else if c.toNat < 0x800 then 0xc0 + c.toNat / 0x40
      else if c.toNat < 0x10000 then 0xe0 + c.toNat / 0x1000
      else 0xf0 + c.toNat / 0x40000 := by
    have hhead := congrArg (fun bs ↦ (bs.headD 0).toNat) h
    rw [List.headD_cons] at hhead
    rw [← hhead, String.utf8EncodeChar]
    show UInt8.toNat (List.headD (if c.toNat ≤ 127 then _ else if c.toNat ≤ 2047 then _
      else if c.toNat ≤ 65535 then _ else _) 0) = _
    have hval : c.val.toNat = c.toNat := rfl
    split_ifs <;> simp only [List.headD_cons, UInt8.toNat_ofNat', hval] <;> omega
  rw [ScanError.leadByte, ← hbyte, ← Char.ofNat_toNat (Char.ofUInt8 b)]
  rfl

/-- A string that goes on to the end is unterminated. -/
theorem stringRounds_end (h : Left bytes p []) : rounds (stringRound start) found bytes p =
    fail .unterminatedString start 1 bytes p := by
  refine rounds_error ?_
  rw [stringRound, bind_of_ok (atEnd_eq h)]
  rfl

/-- A quote ends the string. -/
theorem stringRounds_quote (h : Left bytes p (utf8 ('"' :: cs))) :
    rounds (stringRound start) found bytes p = some (.ok (found.reverse, p.after '"')) := by
  refine rounds_inr ?_
  rw [stringRound, bind_of_ok (atEnd_eq h)]
  show (here >>= _) bytes p = _
  rw [bind_of_ok here_eq, bind_of_ok (advance_char (by decide) h)]
  rfl

/-- Bytes other than those of the quote and the backslash are taken as they are. -/
theorem stringRounds_append (hbs : ∀ b ∈ bs, b ≠ 0x22 ∧ b ≠ 0x5c)
    (h : Left bytes p (bs ++ rest)) : rounds (stringRound start) found bytes p =
      rounds (stringRound start) (bs.reverse ++ found) bytes (p.afterBytes bs) := by
  induction bs generalizing p found with
  | nil => rfl
  | cons b bs ih =>
    obtain ⟨⟨hquote, hescape⟩, hbs⟩ := List.forall_mem_cons.1 hbs
    have hleft : Left bytes p ([b] ++ (bs ++ rest)) := h
    have hround : stringRound start found bytes p =
        some (.ok (.inl (b :: found), p.afterBytes [b])) := by
      rw [stringRound, bind_of_ok (atEnd_eq h)]
      show (here >>= _) bytes p = _
      rw [bind_of_ok here_eq, bind_of_ok (advance_eq h), if_neg hquote, if_neg hescape]
      rfl
    rw [rounds_inl hleft (List.cons_ne_nil _ _) hround, ih hbs hleft.after, List.reverse_cons,
      List.append_assoc]
    rfl

/-- A character that is no quote and no backslash stands for itself. -/
theorem stringRounds_plain {c : Char} (hquote : c ≠ '"') (hescape : c ≠ '\\')
    (h : Left bytes p (utf8 (c :: cs))) : rounds (stringRound start) found bytes p =
      rounds (stringRound start) ((String.utf8EncodeChar c).reverse ++ found) bytes
        (p.after c) := by
  rw [utf8_cons] at h
  rw [← Position.afterBytes_utf8EncodeChar]
  refine stringRounds_append (fun b hb ↦ ⟨?_, ?_⟩) h
  · rintro rfl
    exact hquote (eq_of_mem_utf8EncodeChar hb (by decide))
  · rintro rfl
    exact hescape (eq_of_mem_utf8EncodeChar hb (by decide))

theorem stringRound_escape (start : Position) (found : List UInt8) {e : UInt8}
    (h : Left bytes p (0x5c :: e :: bs)) :
    stringRound start found bytes p =
      match unescapeByte? e with
      | some v => some (.ok (.inl (v :: found), p.afterBytes [0x5c, e]))
      | none => some (.error
          ⟨"L005", "unknown escape sequence `\\" ++ (Char.ofUInt8 e).toString ++ "`", ⟨p, 2⟩⟩) := by
  have hleft : Left bytes p ([0x5c] ++ e :: bs) := h
  have hnext : Left bytes (p.afterByte 0x5c) (e :: bs) := hleft.after
  rw [stringRound, bind_of_ok (atEnd_eq h)]
  show (here >>= _) bytes p = _
  rw [bind_of_ok here_eq, bind_of_ok (advance_eq h), if_neg (by decide), if_pos rfl,
    bind_of_ok (atEnd_eq hnext)]
  show (advance >>= _) bytes _ = _
  rw [bind_of_ok (advance_eq hnext)]
  cases unescapeByte? e <;> rfl

/-- A character that is escaped, and what it stands for then, are one byte each. -/
theorem unescapeByte?_eq_some {c v : Char} (h : unescape? c = some v) :
    ∃ e w, String.utf8EncodeChar c = [e] ∧ String.utf8EncodeChar v = [w] ∧
      unescapeByte? e = some w := by
  unfold unescape? at h
  split at h <;> cases h <;> exact ⟨_, _, rfl, rfl, rfl⟩

/-- An escape stands for one character. -/
theorem stringRounds_escape {c v : Char} (hv : unescape? c = some v)
    (h : Left bytes p (utf8 ('\\' :: c :: cs))) : rounds (stringRound start) found bytes p =
      rounds (stringRound start) ((String.utf8EncodeChar v).reverse ++ found) bytes
        (p.afterAll ['\\', c]) := by
  obtain ⟨e, w, hc, hw, hbyte⟩ := unescapeByte?_eq_some hv
  have hleft : Left bytes p ([0x5c, e] ++ utf8 cs) := by
    rw [utf8_cons, utf8_cons, hc] at h
    exact h
  have hround := stringRound_escape start found hleft
  rw [hbyte] at hround
  have hplace : p.afterBytes [0x5c, e] = p.afterAll ['\\', c] := by
    rw [← Position.afterBytes_utf8, utf8_cons, utf8_cons, hc]
    rfl
  rw [rounds_inl hleft (List.cons_ne_nil _ _) hround, hplace, hw]
  rfl

/-- An unknown escape is an error at its backslash. -/
theorem stringRounds_badEscape {c : Char} (hc : unescape? c = none)
    (h : Left bytes p (utf8 ('\\' :: c :: cs))) : rounds (stringRound start) found bytes p =
      some (.error (ScanError.report ⟨.invalidEscape c, ⟨p, 2⟩⟩)) := by
  obtain ⟨e, bs, hbs, hmem⟩ := exists_cons_utf8EncodeChar c
  have hleft : Left bytes p (0x5c :: e :: (bs ++ utf8 cs)) := by
    rw [utf8_cons, utf8_cons, hbs] at h
    exact h
  have hround := stringRound_escape start found hleft
  rw [unescapeByte?_eq_none hc hmem, ofUInt8_eq_leadByte hbs] at hround
  exact rounds_error hround

theorem stringRounds_last (h : Left bytes p (utf8 ['\\'])) :
    rounds (stringRound start) found bytes p = fail .unterminatedString start 1 bytes p := by
  refine rounds_error ?_
  rw [stringRound, bind_of_ok (atEnd_eq h)]
  show (here >>= _) bytes p = _
  rw [bind_of_ok here_eq, bind_of_ok (advance_char (by decide) h), if_neg (by decide),
    if_pos (by decide), bind_of_ok (atEnd_eq h.tail)]
  rfl

/-- **A string is read up to its closing quote.** It begins at `start`, and `cs` are the characters
that are left of `all`, behind the first `n`. -/
theorem stringRounds_eq {all value : List Char} {n : Nat} (hdrop : all.drop n = cs)
    (h : Left bytes (start.after '"') (utf8 all)) :
    rounds (stringRound start) (utf8 value.reverse).reverse bytes
        ((start.after '"').afterAll (all.take n)) =
      match stringBody value n cs with
      | .ok (text, k) => some (.ok (utf8 text.toList, (start.after '"').afterAll (all.take k)))
      | .error flaw => some (.error (flaw.toError start ('"' :: all)).report) := by
  -- Both keep what they found in reverse, the cursor as bytes and the scanner as characters.
  induction value, n, cs using stringBody.induct with
  | case1 value n cs =>
    rw [stringRounds_quote (h.drop hdrop), stringBody, List.reverse_reverse]
    show some (Except.ok (_, _)) = some (Except.ok (utf8 (String.ofList value.reverse).toList, _))
    rw [String.toList_ofList, ← Position.afterAll_take_add _ hdrop 1]
    rfl
  | case2 value n c cs v hv ih =>
    have htail : all.drop (n + 2) = cs := by rw [← List.drop_drop, hdrop]; rfl
    rw [stringRounds_escape hv (h.drop hdrop), ← reverse_utf8_reverse_cons, stringBody, hv,
      ← ih htail, ← Position.afterAll_take_add _ hdrop 2]
    rfl
  | case3 value n c cs hv =>
    rw [stringRounds_badEscape hv (h.drop hdrop), stringBody, hv]
    rfl
  | case4 value n => exact stringRounds_last (h.drop hdrop)
  | case5 value n c cs hquote hescape hlast ih =>
    have hplain := ne_backslash hescape hlast
    have htail : all.drop (n + 1) = cs := by rw [← List.drop_drop, hdrop]; rfl
    rw [stringRounds_plain hquote hplain (h.drop hdrop), ← reverse_utf8_reverse_cons,
      stringBody_cons hquote hplain, ← ih htail, ← Position.afterAll_take_add _ hdrop 1]
    rfl
  | case6 value n => exact stringRounds_end (h.drop hdrop)

/-- **A string stands for the text that the scanner gives.** -/
theorem string_eq (h : Left bytes (start.after '"') (utf8 cs)) :
    string start bytes (start.after '"') =
      match stringBody [] 0 cs with
      | .ok (text, k) => some (.ok (.literal (.str text), start.afterAll ('"' :: cs.take k)))
      | .error flaw => some (.error (flaw.toError start ('"' :: cs)).report) := by
  have hrounds := @stringRounds_eq bytes cs start cs [] 0 List.drop_zero h
  cases hbody : stringBody [] 0 cs with
  | error flaw =>
    rw [hbody] at hrounds
    exact bind_of_error hrounds _
  | ok r =>
    rw [hbody] at hrounds
    refine (bind_of_ok hrounds _).trans ?_
    have htext : textOf (utf8 r.1.toList) bytes (start.afterAll ('"' :: cs.take r.2)) =
        some (.ok (r.1, start.afterAll ('"' :: cs.take r.2))) := by
      rw [textOf, fromUTF8?_utf8]
      rfl
    exact bind_of_ok htext _

end Strings

/-! ### Numbers -/

theorem isDigit_headD_dropWhile (cs : List Char) :
    Text.isDigit ((cs.dropWhile Text.isDigit).headD (Char.ofUInt8 0)) = false := by
  have hstop := (drop_takeWhile Text.isDigit cs).2
  cases hds : cs.dropWhile Text.isDigit with
  | nil => decide
  | cons d ds =>
    rw [hds] at hstop
    exact hstop d rfl

/-- The text of a number ends before another digit. -/
theorem isDigit_headD_drop (cs : List Char) :
    Text.isDigit ((cs.drop (numberLength cs)).headD (Char.ofUInt8 0)) = false := by
  obtain ⟨-, hlength⟩ | ⟨ds, hcs, hlength⟩ := numberLength_cases cs
  · rw [hlength, (drop_takeWhile Text.isDigit cs).1]
    exact isDigit_headD_dropWhile cs
  · have hpoint : cs.dropWhile Text.isDigit = '.' :: ds := by
      have hall := List.takeWhile_append_dropWhile (p := Text.isDigit) (l := cs)
      exact List.append_cancel_left (hall.trans hcs)
    have hdrop : cs.drop (numberLength cs) = ds.dropWhile Text.isDigit := by
      rw [hlength, Nat.add_assoc, ← List.drop_drop, (drop_takeWhile Text.isDigit cs).1, hpoint,
        Nat.add_comm, List.drop_succ_cons, (drop_takeWhile Text.isDigit ds).1]
    rw [hdrop]
    exact isDigit_headD_dropWhile ds

/-- A point belongs to a number if a digit follows. -/
theorem pointed_eq (cs : List Char) :
    (front (utf8 (cs.dropWhile Text.isDigit)) == '.' &&
      Text.isDigit (front (utf8 (cs.dropWhile Text.isDigit)).tail)) =
        !(fractionDigits cs).isEmpty := by
  rw [(AsciiOnly.beq (d := '.') (by decide)).front]
  unfold fractionDigits
  cases cs.dropWhile Text.isDigit with
  | nil => rfl
  | cons d ds =>
    by_cases hd : d = '.'
    · subst hd
      show Text.isDigit (front (utf8 ds)) = !(ds.takeWhile Text.isDigit).isEmpty
      rw [AsciiOnly.isDigit.front]
      cases ds with
      | nil => rfl
      | cons e es =>
        rw [List.headD_cons]
        cases he : Text.isDigit e with
        | true => rw [List.takeWhile_cons_of_pos he]; rfl
        | false => rw [List.takeWhile_cons_of_neg (by rw [he]; decide)]; rfl
    · rw [List.headD_cons, beq_false_of_ne hd, Bool.false_and]
      split
      · next h => exact absurd (List.cons.inj h).1 hd
      · rfl

/-- A word follows a number at once if something stands there that begins a word. -/
theorem isWordStart_headD_drop (cs : List Char) :
    isWordStart ((cs.drop (numberLength cs)).headD (Char.ofUInt8 0)) =
      !(gluedWord cs).isEmpty := by
  have hdigit := isDigit_headD_drop cs
  unfold gluedWord
  cases hds : cs.drop (numberLength cs) with
  | nil => rfl
  | cons d ds =>
    rw [hds] at hdigit
    have hpart : isWordPart d = isWordStart d := by
      rw [isWordPart, show Text.isDigit d = false from hdigit, Bool.or_false]
    rw [List.headD_cons, ← hpart]
    cases hd : isWordPart d with
    | true => rw [List.takeWhile_cons_of_pos hd]; rfl
    | false => rw [List.takeWhile_cons_of_neg (by rw [hd]; decide)]; rfl

/-- What the reading of a token comes to that begins at `start`, by what the scanner finds at the
front of `cs`. -/
def kindOutcome (start : Position) (cs : List Char) :
    Except Flaw (Piece × Nat) → Option (Except ScanReport (Kind × Position))
  | .ok (.token kind, more) => some (.ok (kind, start.afterAll (cs.take (more + 1))))
  | .ok (.gap, _) => none
  | .error flaw => some (.error (flaw.toError start cs).report)

/-- The point is part of the number if a digit follows it. -/
theorem skipFraction_eq (h : Left bytes p (utf8 cs)) :
    skipFraction (!(fractionDigits cs).isEmpty) bytes (p.afterAll (cs.takeWhile Text.isDigit)) =
      some (.ok ((), p.afterAll (cs.take (numberLength cs)))) := by
  by_cases hfraction : fractionDigits cs = []
  · have hlength : numberLength cs = (cs.takeWhile Text.isDigit).length :=
      if_pos (by rw [hfraction]; rfl)
    rw [hfraction, hlength, take_takeWhile]
    rfl
  · obtain ⟨ds, hcs, hds⟩ := exists_of_fractionDigits hfraction
    have hsome : (!(fractionDigits cs).isEmpty) = true := by
      rw [Bool.not_eq_true', ← Bool.not_eq_true, List.isEmpty_iff]
      exact hfraction
    have hleft : Left bytes (p.afterAll (cs.takeWhile Text.isDigit)) (utf8 ('.' :: ds)) := by
      rw [hcs] at h
      exact h.afterAll
    rw [hsome, take_numberLength hfraction, Position.afterAll_append, hds]
    show (advance >>= _) bytes _ = _
    rw [bind_of_ok (advance_char (by decide) hleft), skipDigits_eq hleft.tail]
    rfl

variable {c : Char} {start : Position}

theorem failNumber_eq {α : Type} (h : Left bytes start (utf8 (cs ++ ds)))
    (hsize : ∀ d ∈ cs, d.utf8Size = 1) :
    (failNumber start : ByteCursor α) bytes (start.afterAll cs) =
      some (.error (ScanError.report ⟨.invalidNumber (String.ofList cs), ⟨start, cs.length⟩⟩)) := by
  rw [failNumber, bind_of_ok (textFrom_eq h), String.utf8ByteSize_ofList, utf8Len_eq_length hsize]
  rfl

/-- The literal that is read off the text of a number. -/
theorem literalOf?_eq (hc : Text.isDigit c = true) (cs : List Char) :
    literalOf? (!(fractionDigits cs).isEmpty) (String.ofList (c :: cs.take (numberLength cs))) =
      if !(fractionDigits cs).isEmpty then
        some (.decimal (Decimal.ofDigits (c :: cs.takeWhile Text.isDigit) (fractionDigits cs)))
      else if Text.digitsValue (c :: cs.takeWhile Text.isDigit) ≤ maxInt then
        some (.int (Int64.ofNat (Text.digitsValue (c :: cs.takeWhile Text.isDigit))))
      else none := by
  rw [literalOf?, String.toList_ofList]
  by_cases hfraction : fractionDigits cs = []
  · have hlength : numberLength cs = (cs.takeWhile Text.isDigit).length :=
      if_pos (by rw [hfraction]; rfl)
    rw [hfraction, hlength, take_takeWhile]
    rfl
  · have hdigits : (c :: cs.takeWhile Text.isDigit).all Text.isDigit = true := by
      rw [List.all_cons, hc, List.all_takeWhile]
      rfl
    obtain ⟨hwhole, hrest⟩ := span_append (r := '.' :: fractionDigits cs) hdigits
      (by rintro _ ⟨⟩; decide)
    have hsome : (!(fractionDigits cs).isEmpty) = true := by
      rw [Bool.not_eq_true', ← Bool.not_eq_true, List.isEmpty_iff]
      exact hfraction
    rw [hsome, take_numberLength hfraction, ← List.cons_append]
    show (if true = true then _ else _) = _
    rw [if_pos rfl, if_pos rfl, hwhole, hrest]
    rfl

/-- **A number is read as the scanner reads it.** -/
theorem number_eq (hc : Text.isDigit c = true) (h : Left bytes start (utf8 (c :: cs))) :
    number start bytes (start.after c) = kindOutcome start (c :: cs) (Token.number c cs) := by
  have hdigits : Left bytes ((start.after c).afterAll (cs.takeWhile Text.isDigit))
      (utf8 (cs.dropWhile Text.isDigit)) := by
    have htail := h.tail
    rw [← List.takeWhile_append_dropWhile (p := Text.isDigit) (l := cs)] at htail
    exact htail.afterAll
  have hnumber := h.tail.drop (n := numberLength cs) rfl
  have htext : ∀ k, Left bytes start (utf8 (c :: cs.take k ++ cs.drop k)) := by
    intro k
    rw [List.cons_append, List.take_append_drop]
    exact h
  rw [number, bind_of_ok (skipDigits_eq h.tail), bind_of_ok (peek_eq hdigits),
    bind_of_ok (peekNext_eq hdigits), pointed_eq, bind_of_ok (skipFraction_eq h.tail),
    bind_of_ok (peek_eq hnumber), AsciiOnly.isWordStart.front, isWordStart_headD_drop,
    SafariScript.number_eq]
  -- The flaw of a number marks it together with the word that it runs into.
  have hflaw : (failNumber start : ByteCursor Kind) bytes
      (start.afterAll (c :: cs.take (numberLength cs + (gluedWord cs).length))) =
        kindOutcome start (c :: cs) (.error (numberFlaw c cs)) :=
    failNumber_eq (htext _) fun d hd ↦ utf8Size_of_mem_number hc hd
  by_cases hglued : (!(gluedWord cs).isEmpty) = true
  · rw [if_pos hglued, if_pos hglued, bind_of_ok (skipWord_eq hnumber), ← hflaw]
    have hplace : ((start.after c).afterAll (cs.take (numberLength cs))).afterAll (gluedWord cs) =
        start.afterAll (c :: cs.take (numberLength cs + (gluedWord cs).length)) := by
      rw [Position.afterAll_cons, ← Position.afterAll_take_add _ rfl, gluedWord, take_takeWhile]
    rw [← gluedWord, hplace]
  · have hnone : gluedWord cs = [] := by simpa using hglued
    rw [if_neg hglued, if_neg hglued, ← Position.afterAll_cons, bind_of_ok (textFrom_eq (htext _)),
      literalOf?_eq hc]
    rw [hnone, List.length_nil, Nat.add_zero] at hflaw
    split_ifs with hfraction hvalue
    · rfl
    · rfl
    · exact hflaw

end ByteCursor

end SafariScript
