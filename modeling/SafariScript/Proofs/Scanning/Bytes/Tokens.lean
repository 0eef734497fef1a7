import SafariScript.Proofs.Scanning.Bytes.Literals

/-!
# Tokens in bytes

The scanner with a cursor on bytes gives, on the bytes of **every** text, what `Token.scan` gives on
the text (`scanBytes_utf8`): it never reads outside of the bytes, never cuts a text inside a
character, and its loops always move on.
-/

namespace SafariScript

open Token

namespace ByteCursor

variable {α β : Type} {bytes bs rest : List UInt8} {p q : Position} {cs ds : List Char}
  {c : Char} {start : Position}

/-! ### Words and symbols -/

/-- **A word is read as the scanner reads it.** -/
theorem word_eq (h : Left bytes start (utf8 (c :: cs))) :
    word start bytes (start.after c) = kindOutcome start (c :: cs) (.ok (Token.word c cs)) := by
  have htext : Left bytes start
      (utf8 (c :: cs.takeWhile isWordPart ++ cs.dropWhile isWordPart)) := by
    rw [List.cons_append, List.takeWhile_append_dropWhile]
    exact h
  rw [word, bind_of_ok (skipWord_eq h.tail), ← Position.afterAll_cons,
    bind_of_ok (textFrom_eq htext)]
  show some (Except.ok (_, start.afterAll (c :: cs.takeWhile isWordPart))) =
    some (Except.ok (_, start.afterAll (c :: cs.take (cs.takeWhile isWordPart).length)))
  rw [take_takeWhile]

theorem advanceBy_eq (h : Left bytes p (bs ++ rest)) :
    advanceBy bs.length bytes p = some (.ok ((), p.afterBytes bs)) := by
  induction bs generalizing p with
  | nil => rfl
  | cons b bs ih =>
    have hleft : Left bytes p ([b] ++ (bs ++ rest)) := h
    show (advance >>= _) bytes p = _
    rw [bind_of_ok (advance_eq h)]
    exact ih hleft.after

/-- A character that begins no token is reported whole, although only its first byte was taken. -/
theorem failCharacter_eq {b : UInt8} (hbytes : String.utf8EncodeChar c = b :: bs) (d : Char)
    (h : Left bytes start (utf8 (c :: cs))) :
    (failCharacter start d : ByteCursor α) bytes (start.afterByte b) =
      some (.error (ScanError.report ⟨.unexpectedCharacter c, ⟨start, c.utf8Size⟩⟩)) := by
  have htext := fromUTF8?_utf8 (String.ofList (c :: cs))
  rw [String.toList_ofList] at htext
  have hchar : charAt start.offset d bytes (start.afterByte b) =
      some (.ok (c, start.afterByte b)) := by
    rw [charAt, h, htext]
    show some (Except.ok ((String.ofList (c :: cs)).toList.headD d, _)) = _
    rw [String.toList_ofList]
    rfl
  have hleft : Left bytes start ([b] ++ (bs ++ utf8 cs)) := by
    rw [utf8_cons, hbytes] at h
    exact h
  have hsize : c.utf8Size - 1 = bs.length := by
    rw [← String.length_utf8EncodeChar, hbytes]
    rfl
  have hrest : Left bytes (start.afterByte b) (bs ++ utf8 cs) := hleft.after
  rw [failCharacter, bind_of_ok hchar, hsize, bind_of_ok (advanceBy_eq hrest)]
  rfl

/-- A symbol of two characters ends in one of these. -/
theorem eq_of_pair? {d : Char} {s : Symbol} (h : pair? c d = some s) : d = '>' ∨ d = '=' := by
  unfold Token.pair? at h
  split at h
  case h_6 => cases h
  all_goals decide

theorem pair?_front (c : Char) (cs : List Char) :
    pair? c (front (utf8 cs)) = cs.head?.bind (pair? c) := by
  rw [(AsciiOnly.pair? c).front]
  cases cs with
  | cons d ds => rfl
  | nil =>
    rw [List.headD_nil, List.head?_nil, Option.bind_none, Option.eq_none_iff_forall_ne_some]
    exact fun s hs ↦ absurd (eq_of_pair? hs) (by decide)

/-- **A symbol is read as the scanner reads it**, and so is a character of ASCII that begins no
token. -/
theorem symbol_eq (hc : c.toNat < 0x80) (h : Left bytes start (utf8 (c :: cs))) :
    symbol start c bytes (start.after c) = kindOutcome start (c :: cs) (Token.symbol c cs) := by
  rw [symbol, bind_of_ok (peek_eq h.tail), pair?_front, Token.symbol]
  -- Symbols of two characters come first, and all of their characters are single bytes.
  cases hpair : cs.head?.bind (pair? c) with
  | some s =>
    obtain ⟨d, hd, hs⟩ := Option.bind_eq_some_iff.1 hpair
    obtain ⟨ds, rfl⟩ := List.head?_eq_some_iff.1 hd
    have hascii : d.toNat < 0x80 := by
      rcases eq_of_pair? hs with rfl | rfl <;> decide
    show (advance >>= _) bytes _ = _
    rw [bind_of_ok (advance_char hascii h.tail)]
    rfl
  | none =>
    cases hsingle : single? c with
    | some s => rfl
    | none =>
      obtain ⟨hbytes, -⟩ := utf8EncodeChar_ascii hc
      have hplace : start.after c = start.afterByte c.val.toUInt8 := by
        rw [← Position.afterBytes_utf8EncodeChar, hbytes]
        rfl
      by_cases hbang : c = '!'
      · subst hbang
        rfl
      · show (if c = '!' then _ else _ : ByteCursor Kind) bytes _ =
          kindOutcome _ _ (if c = '!' then _ else _)
        rw [if_neg hbang, if_neg hbang, hplace]
        exact failCharacter_eq hbytes c h

/-- No symbol begins with a character outside of ASCII. -/
theorem no_symbol (hc : 0x80 ≤ c.toNat) : (∀ d, pair? c d = none) ∧ single? c = none ∧ c ≠ '!' := by
  refine ⟨fun d ↦ ?_, ?_, ne_of_le_toNat hc (by decide)⟩
  · unfold Token.pair?
    split
    case h_6 => rfl
    all_goals exact absurd hc (by decide)
  · unfold Token.single?
    split
    case h_18 => rfl
    all_goals exact absurd hc (by decide)

theorem le_toNat_ofUInt8 (hc : 0x80 ≤ c.toNat) {b : UInt8} (hb : b ∈ String.utf8EncodeChar c) :
    0x80 ≤ (Char.ofUInt8 b).toNat := by
  have hsize : c.utf8Size ≠ 1 := fun hone ↦
    absurd (UInt32.le_iff_toNat_le.1 (Char.utf8Size_eq_one_iff.1 hone)) (by
      show ¬ c.toNat ≤ 127
      omega)
  show 0x80 ≤ b.toUInt32.toNat
  rw [UInt8.toNat_toUInt32]
  exact UInt8.le_iff_toNat_le.1 (le_of_mem_utf8EncodeChar hsize hb)

/-- **A character outside of ASCII begins no token.** -/
theorem symbol_eq_of_le (hc : 0x80 ≤ c.toNat) {b : UInt8}
    (hbytes : String.utf8EncodeChar c = b :: bs) (h : Left bytes start (utf8 (c :: cs))) :
    symbol start (Char.ofUInt8 b) bytes (start.afterByte b) =
      kindOutcome start (c :: cs) (Token.symbol c cs) := by
  have hleft : Left bytes start ([b] ++ (bs ++ utf8 cs)) := by
    have hall := h
    rw [utf8_cons, hbytes] at hall
    exact hall
  have hrest : Left bytes (start.afterByte b) (bs ++ utf8 cs) := hleft.after
  obtain ⟨hpair, hsingle, hbang⟩ := no_symbol hc
  obtain ⟨hpair', hsingle', hbang'⟩ := no_symbol
    (le_toNat_ofUInt8 hc (hbytes ▸ List.mem_cons_self : b ∈ String.utf8EncodeChar c))
  have hnone : cs.head?.bind (pair? c) = none := by cases cs <;> simp [hpair]
  rw [symbol, bind_of_ok (peek_eq hrest), hpair', hsingle', Token.symbol, hnone, hsingle]
  show (if _ then _ else _ : ByteCursor Kind) bytes _ = kindOutcome _ _ (if c = '!' then _ else _)
  rw [if_neg hbang', if_neg hbang]
  exact failCharacter_eq hbytes _ h

/-! ### Tokens -/

/-- Whether a comment begins, which a first character and the next one tell. -/
theorem slash_eq {b : UInt8} (hbytes : String.utf8EncodeChar c = b :: bs) {m : Char}
    (hm : m.toNat < 0x80) (hzero : Char.ofUInt8 0 ≠ m) :
    (Char.ofUInt8 b == '/' && front (bs ++ utf8 cs) == m) =
      (decide (c = '/') && cs.head? == some m) := by
  have hmem : b ∈ String.utf8EncodeChar c := hbytes ▸ List.mem_cons_self
  rw [(AsciiOnly.beq (d := '/') (by decide)).apply hmem]
  by_cases hc : c = '/'
  · subst hc
    cases hbytes
    rw [List.nil_append, (AsciiOnly.beq hm).front]
    cases cs with
    | nil => simp [hzero]
    | cons d ds => simp
  · rw [beq_false_of_ne hc, decide_eq_false hc, Bool.false_and, Bool.false_and]

/-- What begins with a character of ASCII, and is neither blank space nor a comment. -/
theorem kindFrom_eq (hc : c.toNat < 0x80) (h : Left bytes start (utf8 (c :: cs)))
    (hspace : ¬ isSpace c = true) (hline : ¬ (decide (c = '/') && cs.head? == some '/') = true)
    (hblock : ¬ (decide (c = '/') && cs.head? == some '*') = true) :
    kindFrom start c bytes (start.after c) = kindOutcome start (c :: cs) (piece c cs) := by
  rw [piece, if_neg hspace, if_neg hline, if_neg hblock, kindFrom]
  split
  · next hquote =>
    subst hquote
    rw [string_eq h.tail]
    cases stringBody [] 0 cs <;> rfl
  split
  · next hdigit => exact number_eq hdigit h
  split
  · next hword => exact word_eq h
  · exact symbol_eq hc h

/-- What the reading of a token or a comment comes to, by what the scanner finds at the front of
`cs`. -/
def tokenOutcome (start : Position) (cs : List Char) :
    Except Flaw (Piece × Nat) → Except ScanReport (Option Token × Position)
  | .ok (.token kind, more) =>
    .ok (some ⟨kind, String.ofList (cs.take (more + 1)), start⟩,
      start.afterAll (cs.take (more + 1)))
  | .ok (.gap, more) => .ok (none, start.afterAll (cs.take (more + 1)))
  | .error flaw => .error (flaw.toError start cs).report

/-- Behind a token, its text is cut out. -/
theorem token_of_kindOutcome {x : ByteCursor Kind} {r : Except Flaw (Piece × Nat)}
    (h : Left bytes start (utf8 cs)) (hx : x bytes p = kindOutcome start cs r)
    (hr : ∀ more, r ≠ .ok (.gap, more)) :
    (do
      let kind ← x
      return some ⟨kind, ← textFrom start.offset, start⟩ : ByteCursor (Option Token)) bytes p =
        some (tokenOutcome start cs r) := by
  cases r with
  | error flaw => exact bind_of_error hx _
  | ok found =>
    obtain ⟨front, more⟩ := found
    cases front with
    | gap => exact absurd rfl (hr more)
    | token kind =>
      rw [← List.take_append_drop (more + 1) cs] at h
      refine (bind_of_ok hx _).trans ?_
      rw [bind_of_ok (textFrom_eq h)]
      rfl

/-- A comment up to the end of the line. -/
theorem nextToken_lineComment (h : Left bytes p (utf8 ('/' :: '/' :: cs))) :
    (do
      skipLine
      return none : ByteCursor (Option Token)) bytes (p.after '/') =
        some (tokenOutcome p ('/' :: '/' :: cs) (piece '/' ('/' :: cs))) := by
  rw [bind_of_ok (skipLine_eq h.tail), pieceAt_iff.1 (.lineComment cs)]
  show some (Except.ok (none, p.afterAll ('/' :: '/' :: cs.takeWhile (· ≠ '\n')))) =
    some (Except.ok (none, p.afterAll ('/' :: '/' :: cs.take (cs.takeWhile (· ≠ '\n')).length)))
  rw [take_takeWhile]

/-- A comment in closing marks. -/
theorem nextToken_blockComment (h : Left bytes p (utf8 ('/' :: '*' :: cs))) :
    (do
      skipComment p
      return none : ByteCursor (Option Token)) bytes (p.after '/') =
        some (tokenOutcome p ('/' :: '*' :: cs) (piece '/' ('*' :: cs))) := by
  have hskip : skipComment p bytes (p.after '/') = _ := skipComment_eq h.tail
  cases hk : commentLength 1 cs with
  | none =>
    rw [hk] at hskip
    rw [pieceAt_iff.1 (.openComment hk)]
    exact bind_of_error hskip _
  | some k =>
    rw [hk] at hskip
    rw [pieceAt_iff.1 (.blockComment hk)]
    exact bind_of_ok hskip _

/-- What is neither blank space nor a comment, by its first byte. -/
theorem kindFrom_firstByte {b : UInt8} (hbytes : String.utf8EncodeChar c = b :: bs)
    (h : Left bytes start (utf8 (c :: cs))) (hspace : ¬ isSpace c = true)
    (hline : ¬ (decide (c = '/') && cs.head? == some '/') = true)
    (hblock : ¬ (decide (c = '/') && cs.head? == some '*') = true) :
    kindFrom start (Char.ofUInt8 b) bytes (start.afterByte b) =
      kindOutcome start (c :: cs) (piece c cs) := by
  -- The first byte of a longer character is taken for a character of its own, which begins nothing.
  obtain hlt | hle := Nat.lt_or_ge c.toNat 0x80
  · obtain ⟨hone, hchar⟩ := utf8EncodeChar_ascii hlt
    have hb : b = c.val.toUInt8 := (List.cons.inj (hbytes.symm.trans hone)).1
    have hplace : start.afterByte b = start.after c := by
      rw [← Position.afterBytes_utf8EncodeChar, hone, hb]
      rfl
    rw [hplace, hb, hchar]
    exact kindFrom_eq hlt h hspace hline hblock
  · have hbyte := le_toNat_ofUInt8 hle (hbytes ▸ List.mem_cons_self : b ∈ String.utf8EncodeChar c)
    have hquote : ∀ {d : Char}, 0x80 ≤ d.toNat → ¬ d = '"' := fun hd ↦ ne_of_le_toNat hd (by decide)
    have hdigit : ∀ {d : Char}, 0x80 ≤ d.toNat → ¬ Text.isDigit d = true := fun hd ↦ by
      rw [AsciiOnly.isDigit _ (Char.ofNat 0x80) hd (by decide)]
      decide
    have hword : ∀ {d : Char}, 0x80 ≤ d.toNat → ¬ isWordStart d = true := fun hd ↦ by
      rw [AsciiOnly.isWordStart _ (Char.ofNat 0x80) hd (by decide)]
      decide
    rw [kindFrom, if_neg (hquote hbyte), if_neg (hdigit hbyte), if_neg (hword hbyte), piece,
      if_neg hspace, if_neg hline, if_neg hblock, if_neg (hquote hle), if_neg (hdigit hle),
      if_neg (hword hle)]
    exact symbol_eq_of_le hle hbytes h

/-- **The next token or comment is the one that the scanner finds.** -/
theorem nextToken_eq (hspace : isSpace c = false) (h : Left bytes p (utf8 (c :: cs))) :
    nextToken bytes p = some (tokenOutcome p (c :: cs) (piece c cs)) := by
  obtain ⟨b, bs, hbytes, hmem⟩ := exists_cons_utf8EncodeChar c
  have hleft : Left bytes p ([b] ++ (bs ++ utf8 cs)) := by
    have hall := h
    rw [utf8_cons, hbytes] at hall
    exact hall
  have hrest : Left bytes (p.afterByte b) (bs ++ utf8 cs) := hleft.after
  rw [nextToken, bind_of_ok here_eq, bind_of_ok (advance_eq hleft), bind_of_ok (peek_eq hrest),
    slash_eq hbytes (by decide) (by decide)]
  -- Comments are looked for before anything else, by the byte behind a slash.
  by_cases hline : (decide (c = '/') && cs.head? == some '/') = true
  · obtain ⟨rfl, ds, rfl⟩ : c = '/' ∧ ∃ ds, cs = '/' :: ds := by
      simpa [List.head?_eq_some_iff] using hline
    cases hbytes
    rw [if_pos hline]
    exact nextToken_lineComment h
  rw [if_neg hline, bind_of_ok (peek_eq hrest), slash_eq hbytes (by decide) (by decide)]
  by_cases hblock : (decide (c = '/') && cs.head? == some '*') = true
  · obtain ⟨rfl, ds, rfl⟩ : c = '/' ∧ ∃ ds, cs = '*' :: ds := by
      simpa [List.head?_eq_some_iff] using hblock
    cases hbytes
    rw [if_pos hblock]
    exact nextToken_blockComment h
  have hspace' : ¬ isSpace c = true := Bool.eq_false_iff.1 hspace
  rw [if_neg hblock]
  refine token_of_kindOutcome h (kindFrom_firstByte hbytes h hspace' hline hblock) ?_
  intro more hgap
  obtain ⟨hblank, -⟩ | ⟨ds, rfl, rfl, -⟩ | ⟨ds, rfl, rfl, -⟩ := gap_of_piece hgap
  · exact hspace' hblank
  · exact hline rfl
  · exact hblock rfl

/-! ### All tokens -/

theorem Left.dropWhile_isSpace (h : Left bytes p (utf8 cs)) :
    Left bytes (p.afterAll (cs.takeWhile isSpace)) (utf8 (cs.dropWhile isSpace)) := by
  rw [← List.takeWhile_append_dropWhile (p := isSpace) (l := cs)] at h
  exact h.afterAll

/-- At the end, behind blank space. -/
theorem tokenRound_nil (found : List Token) (h : Left bytes p (utf8 cs))
    (hend : cs.dropWhile isSpace = []) : tokenRound found bytes p =
      some (.ok (.inr (⟨.endOfInput, "", p.afterAll (cs.takeWhile isSpace)⟩ :: found).reverse,
        p.afterAll (cs.takeWhile isSpace))) := by
  have hleft := Left.dropWhile_isSpace h
  rw [hend] at hleft
  rw [tokenRound, bind_of_ok (skipSpace_eq h), bind_of_ok (atEnd_eq hleft)]
  rfl

/-- A token or a comment, behind blank space. -/
theorem tokenRound_cons (found : List Token) (h : Left bytes p (utf8 cs))
    (hmore : cs.dropWhile isSpace = c :: ds) : tokenRound found bytes p =
      some ((tokenOutcome (p.afterAll (cs.takeWhile isSpace)) (c :: ds) (piece c ds)).map fun r ↦
        (.inl (r.1.toList ++ found), r.2)) := by
  have hleft := Left.dropWhile_isSpace h
  have hspace := (drop_takeWhile isSpace cs).2 c (by rw [hmore]; rfl)
  rw [hmore] at hleft
  have hsome := List.isEmpty_eq_false_iff.2 (utf8_cons_ne_nil c ds)
  have hnext := nextToken_eq hspace hleft
  rw [tokenRound, bind_of_ok (skipSpace_eq h), bind_of_ok (atEnd_eq hleft), hsome]
  show (nextToken >>= _) bytes _ = _
  cases hr : tokenOutcome (p.afterAll (cs.takeWhile isSpace)) (c :: ds) (piece c ds) with
  | error e =>
    rw [hr] at hnext
    exact bind_of_error hnext _
  | ok r =>
    rw [hr] at hnext
    obtain ⟨t | t, q⟩ := r
    · exact bind_of_ok hnext _
    · exact bind_of_ok hnext _

/-- **The rounds give what the scanner gives.** The induction is on the characters that are left; a
round takes blank space and the piece behind it. -/
theorem tokenRounds_eq (found : List Token) (h : Left bytes p (utf8 cs)) :
    ∃ q, rounds tokenRound found bytes p = some (match scanFrom found p cs with
      | .ok ts => .ok (ts, q)
      | .error e => .error e.report) := by
  induction hlength : cs.length using Nat.strong_induction_on generalizing found p cs with
  | _ n ih =>
    have hscan : scanFrom found p cs =
        scanFrom found (p.afterAll (cs.takeWhile isSpace)) (cs.dropWhile isSpace) := by
      have hspaces := scanFrom_spaces found p
        (fun c hc ↦ List.all_eq_true.1 List.all_takeWhile c hc : ∀ c ∈ cs.takeWhile isSpace, _)
        (cs.dropWhile isSpace)
      rwa [List.takeWhile_append_dropWhile] at hspaces
    rw [hscan]
    cases hmore : cs.dropWhile isSpace with
    | nil =>
      refine ⟨p.afterAll (cs.takeWhile isSpace), ?_⟩
      rw [rounds_inr (tokenRound_nil found h hmore), scanFrom]
    | cons c ds =>
      have hround := tokenRound_cons found h hmore
      rw [scanFrom]
      cases hpiece : piece c ds with
      | error flaw =>
        rw [hpiece] at hround
        exact ⟨p, rounds_error hround⟩
      | ok r =>
        obtain ⟨front, more⟩ := r
        have hcs : cs = (cs.takeWhile isSpace ++ c :: ds.take more) ++ ds.drop more := by
          rw [List.append_assoc, List.cons_append, List.take_append_drop, ← hmore,
            List.takeWhile_append_dropWhile]
        -- A round passes at least one character, so fewer of them are left.
        have hshort : (ds.drop more).length < cs.length := by
          have hlength := congrArg List.length hcs
          simp only [List.length_append, List.length_cons] at hlength
          omega
        rw [hcs] at h
        have hsome : cs.takeWhile isSpace ++ c :: ds.take more ≠ [] := by simp
        have hplace := Position.afterAll_append p (cs.takeWhile isSpace) (c :: ds.take more)
        have hafter := h.afterAll
        rw [hplace] at hafter
        rw [hpiece] at hround
        cases front with
        | gap =>
          obtain ⟨q, hq⟩ := ih _ (hlength ▸ hshort) found hafter rfl
          exact ⟨q, (rounds_utf8 h hsome hplace hround).trans hq⟩
        | token kind =>
          obtain ⟨q, hq⟩ := ih _ (hlength ▸ hshort) (⟨kind, String.ofList (c :: ds.take more),
            p.afterAll (cs.takeWhile isSpace)⟩ :: found) hafter rfl
          exact ⟨q, (rounds_utf8 h hsome hplace hround).trans hq⟩

end ByteCursor

/-- **A scanner with a cursor on bytes gives what `Token.scan` gives**, on the bytes of every text:
the same tokens with the same texts and places, or the report of the same error. -/
theorem scanBytes_utf8 (source : String) : Token.scanBytes (utf8 source.toList) =
    some ((Token.scan source).mapError ScanError.report) := by
  have hleft : Left (utf8 source.toList) .start (utf8 source.toList) := List.drop_zero
  obtain ⟨q, hq⟩ := ByteCursor.tokenRounds_eq [] hleft
  have hrounds :
      ByteCursor.roundsFrom ByteCursor.tokenRound (utf8 source.toList) .start [] = _ := hq
  rw [Token.scanBytes, hrounds, Token.scan]
  cases Token.scanFrom [] .start source.toList <;> rfl

end SafariScript
