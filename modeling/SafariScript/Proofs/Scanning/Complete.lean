import SafariScript.Proofs.Scanning.Pieces
import SafariScript.Session.Complete

/-!
# Complete inputs and the scanner

Whether a chunk of input is complete is decided by a reader of its own (`completeFrom`), which goes
through the characters and knows strings, comments and braces, but no tokens. It has to agree with
the scanner on where these begin and end. The two are compared **piece by piece**: what the scanner
takes as one piece, the reader passes over in the same place, and its count of open braces changes
just by the brace that the piece is, if it is one (`completeFrom_piece`). Where the scanner finds
no end of a string or a comment, the reader finds none either (`completeFrom_unterminated`).

Most pieces consist of characters that mean nothing to the reader (`Inert`). The exceptions are
quotes, slashes and braces, and for each of them there is one lemma.
-/

namespace SafariScript

open Token

/-! ### Characters without a meaning of their own -/

/-- A character that the reader passes over in code, whatever stands beside it. -/
def Inert (c : Char) : Prop := c ≠ '"' ∧ c ≠ '/' ∧ c ≠ '{' ∧ c ≠ '}'

instance (c : Char) : Decidable (Inert c) := inferInstanceAs (Decidable (_ ∧ _))

/-- The characters of a class are inert if the four that are not inert do not belong to it. -/
theorem inert_of_class {p : Char → Bool} {c : Char} (hc : p c = true) (hquote : p '"' = false)
    (hslash : p '/' = false) (hopen : p '{' = false) (hclose : p '}' = false) : Inert c :=
  ⟨ne_of_class hc hquote, ne_of_class hc hslash, ne_of_class hc hopen, ne_of_class hc hclose⟩

/-- A character without a meaning is passed over. -/
theorem completeFrom_inert {c : Char} (hc : Inert c) (depth : Int) (cs : List Char) :
    completeFrom .code depth (c :: cs) = completeFrom .code depth cs := by
  obtain ⟨hquote, hslash, hopen, hclose⟩ := hc
  rw [completeFrom] <;> simp_all

/-- Inert characters at the front of a text are passed over. -/
theorem completeFrom_drop {n : Nat} {cs : List Char} (hcs : ∀ c ∈ cs.take n, Inert c)
    (depth : Int) : completeFrom .code depth cs = completeFrom .code depth (cs.drop n) := by
  induction n generalizing cs with
  | zero => rfl
  | succ n ih =>
    cases cs with
    | nil => rfl
    | cons c cs =>
      rw [List.take_succ_cons] at hcs
      rw [completeFrom_inert (hcs c List.mem_cons_self), List.drop_succ_cons]
      exact ih fun d hd ↦ hcs d (List.mem_cons_of_mem c hd)

/-- Runs of such characters have no meaning. -/
theorem inert_takeWhile {p : Char → Bool} (hp : ∀ c, p c = true → Inert c) (cs : List Char) :
    ∀ c ∈ cs.takeWhile p, Inert c := fun c hc ↦
  hp c (List.all_eq_true.1 List.all_takeWhile c hc)

/-! ### Comments and strings -/

theorem completeFrom_quote (depth : Int) (cs : List Char) :
    completeFrom .code depth ('"' :: cs) = completeFrom .string depth cs := rfl

theorem completeFrom_slashes (depth : Int) (cs : List Char) :
    completeFrom .code depth ('/' :: '/' :: cs) = completeFrom .lineComment depth cs := rfl

theorem completeFrom_slash_star (depth : Int) (cs : List Char) :
    completeFrom .code depth ('/' :: '*' :: cs) = completeFrom .blockComment depth cs := rfl

/-- A line comment ends before the end of its line. -/
theorem completeFrom_lineComment (depth : Int) (cs : List Char) :
    completeFrom .lineComment depth cs =
      completeFrom .code depth (cs.drop (cs.takeWhile (· ≠ '\n')).length) := by
  induction cs with
  | nil => rfl
  | cons c cs ih =>
    by_cases hc : c = '\n'
    · subst hc
      rw [List.takeWhile_cons_of_neg (by decide)]
      exact (completeFrom_inert (by decide) depth cs).symm
    · have hnext : completeFrom .lineComment depth (c :: cs) =
          completeFrom .lineComment depth cs := by
        rw [completeFrom]
        exact hc
      rw [hnext, List.takeWhile_cons_of_pos (by simpa using hc)]
      exact ih

/-- A block comment ends where the scanner ends it, and it is open if the scanner finds no end. Of
its characters, the scanner has counted `n` before. -/
theorem completeFrom_blockComment (depth : Int) (n : Nat) (cs : List Char) :
    (∀ k, commentLength n cs = some k → ∃ j, k = n + j ∧
      completeFrom .blockComment depth cs = completeFrom .code depth (cs.drop j)) ∧
    (commentLength n cs = none → completeFrom .blockComment depth cs = false) := by
  induction n, cs using commentLength.induct with
  | case1 n cs => exact ⟨fun k hk ↦ ⟨2, (Option.some.inj hk).symm, rfl⟩, fun hnone ↦ by cases hnone⟩
  | case2 n c cs hc ih =>
    have hread : completeFrom .blockComment depth (c :: cs) =
        completeFrom .blockComment depth cs := by
      rw [completeFrom]
      exact hc
    rw [commentLength_cons hc, hread]
    refine ⟨fun k hk ↦ ?_, ih.2⟩
    obtain ⟨j, hj, hcode⟩ := ih.1 k hk
    exact ⟨j + 1, by omega, hcode⟩
  | case3 n => exact ⟨fun k hk ↦ (by cases hk), fun _ ↦ rfl⟩

/-- A string ends where the scanner ends it, and it is open if the scanner finds no end and no
escape that it does not know. Of its characters, the scanner has read `n` before, which stand for
`value`. -/
theorem completeFrom_string (depth : Int) (value : List Char) (n : Nat) (cs : List Char) :
    (∀ s k, stringBody value n cs = .ok (s, k) → ∃ j, k = n + j ∧
      completeFrom .string depth cs = completeFrom .code depth (cs.drop j)) ∧
    (∀ flaw, stringBody value n cs = .error flaw → (∀ c, flaw.cause ≠ .invalidEscape c) →
      completeFrom .string depth cs = false) := by
  -- The check reads a string by the same rules, but whatever is escaped is fine with it.
  induction value, n, cs using stringBody.induct with
  | case1 value n cs =>
    refine ⟨fun s k hk ↦ ⟨1, ?_, rfl⟩, fun flaw hflaw ↦ by cases hflaw⟩
    exact (Prod.mk.inj (Except.ok.inj hk)).2.symm
  | case2 value n c cs v hv ih =>
    have hbody : stringBody value n ('\\' :: c :: cs) = stringBody (v :: value) (n + 2) cs := by
      rw [stringBody, hv]
    rw [hbody]
    refine ⟨fun s k hk ↦ ?_, ih.2⟩
    obtain ⟨j, hj, hcode⟩ := ih.1 s k hk
    exact ⟨j + 2, by omega, hcode⟩
  | case3 value n c cs hv =>
    have hbody : stringBody value n ('\\' :: c :: cs) = .error ⟨.invalidEscape c, n + 1, 2⟩ := by
      rw [stringBody, hv]
    rw [hbody]
    refine ⟨fun s k hk ↦ (by cases hk), fun flaw hflaw hcause ↦ ?_⟩
    cases hflaw
    exact absurd rfl (hcause c)
  | case4 value n => exact ⟨fun s k hk ↦ (by cases hk), fun _ _ _ ↦ rfl⟩
  | case5 value n c cs hquote hescape hlast ih =>
    have hbody : stringBody value n (c :: cs) = stringBody (c :: value) (n + 1) cs := by
      rw [stringBody] <;> assumption
    have hread : completeFrom .string depth (c :: cs) = completeFrom .string depth cs := by
      rw [completeFrom]
      · exact hquote
      · exact hescape
    rw [hbody, hread]
    refine ⟨fun s k hk ↦ ?_, ih.2⟩
    obtain ⟨j, hj, hcode⟩ := ih.1 s k hk
    exact ⟨j + 1, by omega, hcode⟩
  | case6 value n => exact ⟨fun s k hk ↦ (by cases hk), fun _ _ _ ↦ rfl⟩

/-! ### Numbers -/

theorem inert_of_isDigit (c : Char) (hc : Text.isDigit c = true) : Inert c :=
  inert_of_class hc rfl rfl rfl rfl

/-- A number is made of digits and at most one point. -/
theorem inert_number (cs : List Char) : ∀ c ∈ cs.take (numberLength cs), Inert c := by
  obtain ⟨-, hlength⟩ | ⟨ds, hcs, hlength⟩ := numberLength_cases cs
  · rw [hlength, take_takeWhile]
    exact inert_takeWhile inert_of_isDigit cs
  · have htake : cs.take (numberLength cs) =
        cs.takeWhile Text.isDigit ++ '.' :: ds.takeWhile Text.isDigit := by
      have h := take_append_cons (cs.takeWhile Text.isDigit) '.' ds
        (ds.takeWhile Text.isDigit).length
      rwa [← hcs, take_takeWhile, ← hlength] at h
    intro c hc
    rw [htake, List.mem_append, List.mem_cons] at hc
    obtain hc | rfl | hc := hc
    · exact inert_takeWhile inert_of_isDigit cs c hc
    · decide
    · exact inert_takeWhile inert_of_isDigit ds c hc

/-! ### Pieces -/

/-- By how much a token changes the number of open braces. -/
def Token.Kind.opens : Kind → Int
  | .symbol .leftBrace => 1
  | .symbol .rightBrace => -1
  | _ => 0

/-- By how much a piece changes the number of open braces. -/
def Token.Piece.opens : Piece → Int
  | .gap => 0
  | .token kind => kind.opens

/-- A word is no brace. -/
theorem opens_ofWord (word : String) : (Kind.ofWord word).opens = 0 := by
  unfold Kind.ofWord
  repeat' split
  all_goals rfl

/-- A slash that opens no comment is passed over. -/
theorem completeFrom_slash {cs : List Char} (hline : cs.head? ≠ some '/')
    (hblock : cs.head? ≠ some '*') (depth : Int) :
    completeFrom .code depth ('/' :: cs) = completeFrom .code depth cs := by
  rw [completeFrom]
  · decide
  · rintro ds - rfl
    exact hline rfl
  · rintro ds - rfl
    exact hblock rfl
  · decide
  · decide

/-- A symbol of two characters has nothing to do with strings, comments and braces. -/
theorem inert_pair {c d : Char} {s : Symbol} (h : pair? c d = some s) :
    Inert c ∧ Inert d ∧ (Kind.symbol s).opens = 0 := by
  unfold pair? at h
  split at h <;> cases h <;> decide

/-- Of the symbols of one character only braces and the slash have a meaning. -/
theorem inert_single {c : Char} {s : Symbol} (h : single? c = some s) :
    Inert c ∧ (Kind.symbol s).opens = 0 ∨ c = '/' ∧ s = .slash ∨
      c = '{' ∧ s = .leftBrace ∨ c = '}' ∧ s = .rightBrace := by
  unfold single? at h
  split at h <;> cases h <;> decide

/-- A symbol that begins no comment counts as the brace that it is, or not. -/
theorem completeFrom_symbol {c : Char} {cs : List Char} {front : Piece} {more : Nat}
    (hline : c = '/' → cs.head? ≠ some '/') (hblock : c = '/' → cs.head? ≠ some '*')
    (h : symbol c cs = .ok (front, more)) (depth : Int) :
    completeFrom .code depth (c :: cs) =
      completeFrom .code (depth + front.opens) (cs.drop more) := by
  unfold symbol at h
  split at h
  · next s hs =>
    cases h
    obtain ⟨d, hd, hpair⟩ := Option.bind_eq_some_iff.1 hs
    obtain ⟨ds, rfl⟩ := List.head?_eq_some_iff.1 hd
    obtain ⟨hc, hd, hopens⟩ := inert_pair hpair
    rw [completeFrom_inert hc, completeFrom_inert hd, Piece.opens, hopens, Int.add_zero]
    rfl
  · split at h
    · next s hs =>
      cases h
      obtain ⟨hc, hopens⟩ | ⟨rfl, rfl⟩ | ⟨rfl, rfl⟩ | ⟨rfl, rfl⟩ := inert_single hs
      · rw [completeFrom_inert hc, Piece.opens, hopens, Int.add_zero]
        rfl
      · rw [completeFrom_slash (hline rfl) (hblock rfl), Piece.opens]
        exact congrArg (completeFrom .code · cs) (Int.add_zero depth).symm
      · rfl
      · rfl
    · split at h <;> cases h

/-- **One piece.** Where the scanner takes a piece, the reader passes over it, and counts it if it
is a brace. -/
theorem completeFrom_piece {c : Char} {cs : List Char} {front : Piece} {more : Nat}
    (h : piece c cs = .ok (front, more)) (depth : Int) :
    completeFrom .code depth (c :: cs) =
      completeFrom .code (depth + front.opens) (cs.drop more) := by
  have hpiece := pieceAt_piece c cs
  generalize piece c cs = r at hpiece h
  -- a piece without a brace, of inert characters
  have hrun : Inert c → (∀ d ∈ cs.take more, Inert d) → front.opens = 0 →
      completeFrom .code depth (c :: cs) =
        completeFrom .code (depth + front.opens) (cs.drop more) := by
    intro hc hcs hopens
    rw [completeFrom_inert hc, completeFrom_drop hcs, hopens, Int.add_zero]
  cases hpiece with
  | space hspace =>
    cases h
    have hinert : ∀ d, isSpace d = true → Inert d := fun d hd ↦
      inert_of_class hd rfl rfl rfl rfl
    refine hrun (hinert c hspace) ?_ rfl
    rw [take_takeWhile]
    exact inert_takeWhile hinert cs
  | lineComment ds =>
    cases h
    rw [completeFrom_slashes, completeFrom_lineComment, Piece.opens, Int.add_zero,
      List.drop_succ_cons]
  | blockComment hn =>
    cases h
    obtain ⟨j, rfl, hcode⟩ := (completeFrom_blockComment depth 1 _).1 _ hn
    rw [completeFrom_slash_star, hcode, Piece.opens, Int.add_zero, Nat.add_comm,
      List.drop_succ_cons]
  | openComment => cases h
  | string hbody =>
    cases h
    obtain ⟨j, rfl, hcode⟩ := (completeFrom_string depth [] 0 cs).1 _ _ hbody
    rw [completeFrom_quote, hcode, Nat.zero_add]
    exact congrArg (completeFrom .code · _) (Int.add_zero depth).symm
  | badString => cases h
  | number hdigit =>
    obtain ⟨value, hnumber⟩ | ⟨text, len, hnumber⟩ := number_cases c cs
    · rw [hnumber] at h
      cases h
      exact hrun (inert_of_isDigit c hdigit) (inert_number cs) rfl
    · rw [hnumber] at h
      cases h
  | word hword =>
    cases h
    refine hrun (inert_of_class hword rfl rfl rfl rfl) ?_ (opens_ofWord _)
    rw [take_takeWhile]
    exact inert_takeWhile (fun d hd ↦ inert_of_class hd rfl rfl rfl rfl) cs
  | symbol hspace hquote hdigit hword hline hblock => exact completeFrom_symbol hline hblock h depth

/-- Where the scanner misses the end of a string or of a comment, the reader does not come to an
end of it either. -/
theorem completeFrom_unterminated {c : Char} {cs : List Char} {flaw : Flaw}
    (h : piece c cs = .error flaw)
    (hflaw : flaw.cause = .unterminatedString ∨ flaw.cause = .unterminatedComment) (depth : Int) :
    completeFrom .code depth (c :: cs) = false := by
  have hpiece := pieceAt_piece c cs
  generalize piece c cs = r at hpiece h
  -- Only comments and strings can be unterminated.
  cases hpiece with
  | space | lineComment | blockComment | string | word => cases h
  | openComment hn =>
    rw [completeFrom_slash_star]
    exact (completeFrom_blockComment depth 1 _).2 hn
  | badString hbody =>
    cases h
    rw [completeFrom_quote]
    refine (completeFrom_string depth [] 0 cs).2 flaw hbody fun c hc ↦ ?_
    rw [hc] at hflaw
    obtain hflaw | hflaw := hflaw <;> cases hflaw
  | number hdigit =>
    obtain ⟨value, hnumber⟩ | ⟨text, len, hnumber⟩ := number_cases c cs
    · rw [hnumber] at h
      cases h
    · rw [hnumber] at h
      cases h
      obtain hflaw | hflaw := hflaw <;> cases hflaw
  | symbol =>
    unfold symbol at h
    repeat' split at h
    all_goals cases h
    all_goals obtain hflaw | hflaw := hflaw <;> cases hflaw

/-! ### Texts -/

/-- How many braces tokens leave open; it is negative if they close more than they open. -/
def openBraces (ts : List Token) : Int :=
  ts.countP (·.isSymbol .leftBrace) - ts.countP (·.isSymbol .rightBrace)

/-- A token adds what it opens. -/
theorem openBraces_cons (t : Token) (ts : List Token) :
    openBraces (t :: ts) = openBraces ts + t.kind.opens := by
  have hcount : ((if t.isSymbol .leftBrace then 1 else 0 : Nat) : Int) -
      (if t.isSymbol .rightBrace then 1 else 0 : Nat) = t.kind.opens := by
    unfold Token.isSymbol Kind.opens
    rcases t.kind with value | name | word | mark | _
    all_goals try rfl
    cases mark <;> rfl
  unfold openBraces
  rw [List.countP_cons, List.countP_cons]
  omega

theorem openBraces_reverse (ts : List Token) : openBraces ts.reverse = openBraces ts := by
  rw [openBraces, List.countP_reverse, List.countP_reverse, openBraces]

/-- **The whole text**, from a place where the tokens before it are found: the reader that has
counted the braces among these comes to the same end as the scanner. -/
theorem completeFrom_scanFrom (found : List Token) (p : Position) (cs : List Char) :
    (∀ ts, scanFrom found p cs = .ok ts →
      completeFrom .code (openBraces found) cs = decide (openBraces ts ≤ 0)) ∧
    (∀ e, scanFrom found p cs = .error e →
      e.cause = .unterminatedString ∨ e.cause = .unterminatedComment →
        completeFrom .code (openBraces found) cs = false) := by
  induction found, p, cs using scanFrom.induct with
  | case1 found p =>
    rw [scanFrom]
    refine ⟨fun ts hts ↦ ?_, nofun⟩
    cases hts
    rw [openBraces_reverse, openBraces_cons]
    exact congrArg (fun n : Int ↦ decide (n ≤ 0)) (Int.add_zero _).symm
  | case2 found p c cs flaw hpiece =>
    rw [scanFrom, hpiece]
    refine ⟨nofun, fun e he hcause ↦ ?_⟩
    cases he
    exact completeFrom_unterminated hpiece hcause _
  | case3 found p c cs front more hpiece taken found' ih =>
    -- the piece is on top of what was found before, so both counts move alike
    have hopens : openBraces found' = openBraces found + front.opens := by
      cases front with
      | gap => exact (Int.add_zero _).symm
      | token kind => exact openBraces_cons _ _
    rw [scanFrom, hpiece, completeFrom_piece hpiece, ← hopens]
    exact ih

/-- **The reader of chunks agrees with the scanner.** If a text can be scanned, it is complete
exactly if its tokens have no more opening than closing braces. If scanning fails because a string
or a comment is not terminated, it is not complete. -/
theorem isComplete_agrees_with_scan (source : String) :
    (∀ ts, scan source = .ok ts → (isComplete source = true ↔
      ts.countP (·.isSymbol .leftBrace) ≤ ts.countP (·.isSymbol .rightBrace))) ∧
    (∀ e, scan source = .error e →
      e.cause = .unterminatedString ∨ e.cause = .unterminatedComment →
        isComplete source = false) := by
  obtain ⟨hok, herror⟩ := completeFrom_scanFrom [] .start source.toList
  refine ⟨fun ts hts ↦ ?_, herror⟩
  have hread : isComplete source = decide (openBraces ts ≤ 0) := hok ts hts
  rw [hread, decide_eq_true_iff, openBraces]
  omega

/-- A block that is open although its last line has a closing brace in a comment, and a string that
is open although a closing brace follows. -/
theorem isComplete_agrees_with_scan_open :
    (∃ ts, scan r"{ // }" = .ok ts ∧ (isComplete r"{ // }" = true ↔
      ts.countP (·.isSymbol .leftBrace) ≤ ts.countP (·.isSymbol .rightBrace))) ∧
    ∃ e, scan r#"{ "}"# = .error e ∧ e.cause = .unterminatedString ∧
      isComplete r#"{ "}"# = false := by
  have hblock : ∃ ts, scan r"{ // }" = .ok ts := ⟨_, by with_unfolding_all rfl⟩
  have hstring : ∃ e, scan r#"{ "}"# = .error e ∧ e.cause = .unterminatedString :=
    ⟨_, by with_unfolding_all rfl, rfl⟩
  obtain ⟨ts, hts⟩ := hblock
  obtain ⟨e, he, hcause⟩ := hstring
  refine ⟨⟨ts, hts, ?_⟩, e, he, hcause, ?_⟩
  · exact (isComplete_agrees_with_scan r"{ // }").1 ts hts
  · exact (isComplete_agrees_with_scan r#"{ "}"#).2 e he (.inl hcause)

end SafariScript
