import SafariScript.Proofs.Scanning.Tiling

/-!
# Scanning joined texts

Two texts that can be scanned can be scanned when a line feed joins them, and nothing changes but
the places in the second (`scan_append_newline`). For the first text this says that **the scanner
does not look past a blank character**: a token that ends before the end of the text is found in
front of a blank character just as it is found in front of the end (`piece_append_of_token`), and so
is a comment in front of a line feed. Only a run of blank characters goes on past the seam, which
makes no difference because blank characters are passed over one by one as well as together
(`scanFrom_space`).

For the second text, the scanner does not look at places at all: from another place it finds the
same tokens, **moved** there (`scanFrom_moved`).
-/

namespace SafariScript

open Token

/-! ### Before a blank character -/

section Blank

variable {d : Char} (hd : isSpace d = true) (cs ds : List Char)

/-- A run of characters ends before one that stops it. -/
theorem takeWhile_append_of_stop {p : Char → Bool} (hstop : p d = false) :
    (cs ++ d :: ds).takeWhile p = cs.takeWhile p := by
  rw [List.takeWhile_append, List.takeWhile_cons_of_neg (by simp [hstop]), List.append_nil]
  split
  · next h => exact ((List.takeWhile_prefix p).eq_of_length h).symm
  · rfl

theorem length_takeWhile_le (p : Char → Bool) (cs : List Char) :
    (cs.takeWhile p).length ≤ cs.length :=
  (List.takeWhile_prefix p).length_le

include hd

/-- A blank character ends a run of digits. -/
theorem isDigit_of_isSpace : Text.isDigit d = false := eq_false_of_isSpace hd (by decide)

/-- A blank character ends a word. -/
theorem isWordPart_of_isSpace : isWordPart d = false := eq_false_of_isSpace hd (by decide)

/-! #### Numbers -/

/-- The digits behind a point end before a blank character. -/
theorem fractionDigits_append : fractionDigits (cs ++ d :: ds) = fractionDigits cs := by
  have hdigit := isDigit_of_isSpace hd
  unfold fractionDigits
  rw [List.dropWhile_append, List.dropWhile_cons_of_neg (by simp [hdigit])]
  cases cs.dropWhile Text.isDigit with
  | nil =>
    have hpoint : d ≠ '.' := by
      rintro rfl
      cases hd
    rw [List.isEmpty_nil, if_pos rfl]
    split
    · next h => exact absurd (List.cons.inj h).1 hpoint
    · rfl
  | cons e es =>
    rw [List.isEmpty_cons, if_neg Bool.false_ne_true, List.cons_append]
    by_cases he : e = '.'
    · subst he
      exact takeWhile_append_of_stop es ds hdigit
    · split
      · next h => exact absurd (List.cons.inj h).1 he
      · split
        · next h => exact absurd (List.cons.inj h).1 he
        · rfl

/-- A number ends before a blank character. -/
theorem numberLength_append : numberLength (cs ++ d :: ds) = numberLength cs := by
  unfold numberLength
  rw [fractionDigits_append hd, takeWhile_append_of_stop cs ds (isDigit_of_isSpace hd)]

omit hd in
theorem numberLength_le : numberLength cs ≤ cs.length := by
  obtain ⟨-, hlength⟩ | ⟨es, hcs, hlength⟩ := numberLength_cases cs
  · rw [hlength]
    exact length_takeWhile_le _ cs
  · have hes := length_takeWhile_le Text.isDigit es
    have hsum := congrArg List.length hcs
    rw [List.length_append, List.length_cons] at hsum
    omega

/-- What is glued to a number ends before a blank character. -/
theorem gluedWord_append : gluedWord (cs ++ d :: ds) = gluedWord cs := by
  unfold gluedWord
  rw [numberLength_append hd, List.drop_append_of_le_length (numberLength_le cs),
    takeWhile_append_of_stop _ ds (isWordPart_of_isSpace hd)]

theorem number_append (c : Char) : number c (cs ++ d :: ds) = number c cs := by
  have hmarked : numberLength cs + (gluedWord cs).length ≤ cs.length := by
    have hglued := length_takeWhile_le isWordPart (cs.drop (numberLength cs))
    have hlength := numberLength_le cs
    rw [List.length_drop] at hglued
    unfold gluedWord
    omega
  have hflaw : numberFlaw c (cs ++ d :: ds) = numberFlaw c cs := by
    unfold numberFlaw
    rw [numberLength_append hd, gluedWord_append hd, List.take_append_of_le_length hmarked]
  rw [number_eq, number_eq, hflaw, gluedWord_append hd, fractionDigits_append hd,
    numberLength_append hd, takeWhile_append_of_stop cs ds (isDigit_of_isSpace hd)]

/-! #### Symbols -/

/-- No symbol of two characters has a blank one in it. -/
theorem symbol_append (c : Char) : symbol c (cs ++ d :: ds) = symbol c cs := by
  cases cs with
  | cons e es => rfl
  | nil =>
    have hpair : pair? c d = none := by
      unfold pair?
      split
      all_goals first
        | rfl
        | cases hd
    unfold symbol
    rw [List.nil_append, List.head?_cons, Option.bind_some, hpair]
    rfl

end Blank

/-! #### Comments and strings -/

/-- The end of a comment is found whatever follows it. -/
theorem commentLength_append {n k : Nat} {cs : List Char} (h : commentLength n cs = some k)
    (ds : List Char) : commentLength n (cs ++ ds) = some k := by
  induction n, cs using commentLength.induct with
  | case1 n cs => exact h
  | case2 n c cs hc ih =>
    rw [commentLength_cons hc] at h
    rw [List.cons_append, commentLength_cons]
    · exact ih h
    · intro es hstar hslash
      cases cs with
      | nil => cases h
      | cons e cs => exact hc cs hstar (by rw [(List.cons.inj hslash).1])
  | case3 n => cases h

/-- The end of a string is found whatever follows it. -/
theorem stringBody_append {value : List Char} {n k : Nat} {cs : List Char} {s : String}
    (h : stringBody value n cs = .ok (s, k)) (ds : List Char) :
    stringBody value n (cs ++ ds) = .ok (s, k) ∧ k ≤ n + cs.length := by
  induction value, n, cs using stringBody.induct with
  | case1 value n cs =>
    cases h
    exact ⟨rfl, by simp only [List.length_cons]; omega⟩
  | case2 value n c cs v hv ih =>
    rw [stringBody, hv] at h
    obtain ⟨happend, hle⟩ := ih h
    refine ⟨?_, by simp only [List.length_cons]; omega⟩
    rw [List.cons_append, List.cons_append, stringBody, hv]
    exact happend
  | case3 value n c cs hv =>
    rw [stringBody, hv] at h
    cases h
  | case4 value n => cases h
  | case5 value n c cs hquote hescape hlast ih =>
    have hplain := ne_backslash hescape hlast
    rw [stringBody_cons hquote hplain] at h
    obtain ⟨happend, hle⟩ := ih h
    refine ⟨?_, by simp only [List.length_cons]; omega⟩
    rw [List.cons_append, stringBody_cons hquote hplain]
    exact happend
  | case6 value n => cases h

/-! #### Pieces -/

theorem symbol_length {c : Char} {cs : List Char} {front : Piece} {more : Nat}
    (h : symbol c cs = .ok (front, more)) : more ≤ cs.length := by
  unfold symbol at h
  split at h
  · next s hpair =>
    cases h
    cases cs with
    | nil => cases hpair
    | cons d ds => exact Nat.le_add_left ..
  · repeat' split at h
    all_goals cases h
    exact Nat.zero_le _

/-- A token is found before a blank character as it is found before the end. -/
theorem piece_append_of_token {c : Char} {cs : List Char} {kind : Kind} {more : Nat}
    (h : piece c cs = .ok (.token kind, more)) {d : Char} (hd : isSpace d = true)
    (ds : List Char) : piece c (cs ++ d :: ds) = .ok (.token kind, more) ∧ more ≤ cs.length := by
  have hpiece := pieceAt_iff.2 h
  rw [← pieceAt_iff]
  generalize hr : (.ok (.token kind, more) : Except Flaw (Piece × Nat)) = r at hpiece ⊢
  cases hpiece with
  | space | lineComment | blockComment | openComment | badString => cases hr
  | string hbody =>
    cases hr
    obtain ⟨happend, hle⟩ := stringBody_append hbody (d :: ds)
    exact ⟨.string happend, by omega⟩
  | number hdigit =>
    refine ⟨number_append hd cs ds c ▸ .number hdigit, ?_⟩
    obtain ⟨value, hnumber⟩ | ⟨text, len, hnumber⟩ := number_cases c cs
    · rw [hnumber] at hr
      cases hr
      exact numberLength_le cs
    · rw [hnumber] at hr
      cases hr
  | word hword =>
    cases hr
    have happend : word c (cs ++ d :: ds) = word c cs := by
      unfold word
      rw [takeWhile_append_of_stop cs ds (isWordPart_of_isSpace hd)]
    exact ⟨happend ▸ .word hword, length_takeWhile_le ..⟩
  | symbol hspace hquote hdigit hword hline hblock =>
    -- A blank behind the slash begins no comment.
    have hhead : ∀ e, isSpace e = false → cs.head? ≠ some e → (cs ++ d :: ds).head? ≠ some e := by
      intro e he hne
      cases cs with
      | nil =>
        rintro ⟨⟩
        cases he.symm.trans hd
      | cons e' es => exact hne
    refine ⟨symbol_append hd cs ds c ▸ .symbol hspace hquote hdigit hword
      (fun hc ↦ hhead '/' (by decide) (hline hc)) (fun hc ↦ hhead '*' (by decide) (hblock hc)), ?_⟩
    exact symbol_length hr.symm

/-- A comment is found before a line feed as it is found before the end. -/
theorem piece_append_of_comment {c : Char} {cs : List Char} {more : Nat}
    (h : piece c cs = .ok (.gap, more)) (hc : isSpace c = false) (ds : List Char) :
    piece c (cs ++ '\n' :: ds) = .ok (.gap, more) ∧ more ≤ cs.length := by
  rw [← pieceAt_iff]
  obtain ⟨hspace, -⟩ | ⟨es, rfl, rfl, rfl⟩ | ⟨es, rfl, rfl, hlength⟩ := gap_of_piece h
  · cases hc.symm.trans hspace
  · refine ⟨?_, Nat.succ_le_succ (length_takeWhile_le ..)⟩
    rw [← takeWhile_append_of_stop (p := (· ≠ '\n')) (d := '\n') es ds (by decide)]
    exact .lineComment (es ++ '\n' :: ds)
  · refine ⟨.blockComment (commentLength_append hlength ('\n' :: ds)), ?_⟩
    obtain ⟨body, rest, rfl, -, rfl⟩ := commentLength_eq_some hlength
    simp only [List.length_cons, List.length_append]
    omega

/-! ### Up to the seam -/

/-- Blank space may be passed over one character at a time. -/
theorem scanFrom_space (found : List Token) (p : Position) {c : Char} (hc : isSpace c = true)
    (cs : List Char) : scanFrom found p (c :: cs) = scanFrom found (p.after c) cs := by
  have hrun : ∀ (p : Position) {c : Char}, isSpace c = true → ∀ cs,
      scanFrom found p (c :: cs) =
        scanFrom found (p.afterAll (c :: cs.takeWhile isSpace)) (cs.dropWhile isSpace) := by
    intro p c hc cs
    rw [scanFrom, pieceAt_iff.1 (.space hc)]
    show scanFrom found (p.afterAll (c :: cs.take _)) (cs.drop _) = _
    rw [take_takeWhile, (drop_takeWhile isSpace cs).1]
  rw [hrun p hc]
  cases cs with
  | nil => rfl
  | cons d ds =>
    by_cases hd : isSpace d = true
    · rw [hrun _ hd, List.takeWhile_cons_of_pos hd, List.dropWhile_cons_of_pos hd,
        Position.afterAll_cons]
    · rw [List.takeWhile_cons_of_neg hd, List.dropWhile_cons_of_neg hd, Position.afterAll_cons,
        Position.afterAll_nil]

/-- Blank characters are passed over one by one as well as together. -/
theorem scanFrom_spaces (found : List Token) (p : Position) {blanks : List Char}
    (hblanks : ∀ c ∈ blanks, isSpace c = true) (cs : List Char) :
    scanFrom found p (blanks ++ cs) = scanFrom found (p.afterAll blanks) cs := by
  induction blanks generalizing p with
  | nil => rfl
  | cons c blanks ih =>
    obtain ⟨hc, hrest⟩ := List.forall_mem_cons.1 hblanks
    rw [List.cons_append, scanFrom_space found p hc, ih _ hrest, Position.afterAll_cons]

/-- **The scanner comes through to the seam.** A text that can be scanned is scanned in front of a
line feed as well; there the scanner goes on with all of its tokens but the mark of the end. -/
theorem scanFrom_append_newline (ds : List Char) (found : List Token) (p : Position)
    (cs : List Char) : ∀ ts, scanFrom found p cs = .ok ts →
      scanFrom found p (cs ++ '\n' :: ds) =
        scanFrom ts.dropLast.reverse ((p.afterAll cs).after '\n') ds := by
  induction found, p, cs using scanFrom.induct with
  | case1 found p =>
    intro ts hts
    rw [scanFrom] at hts
    cases hts
    rw [List.reverse_cons, List.dropLast_concat, List.reverse_reverse, List.nil_append,
      scanFrom_space found p (by decide), Position.afterAll_nil]
  | case2 found p c cs flaw hpiece =>
    intro ts hts
    rw [scanFrom, hpiece] at hts
    cases hts
  | case3 found p c cs front more hpiece taken found' ih =>
    intro ts hts
    rw [scanFrom, hpiece] at hts
    have hseam := ih ts hts
    have hplace : (p.afterAll taken).afterAll (cs.drop more) = p.afterAll (c :: cs) := by
      rw [← Position.afterAll_append]
      exact congrArg (fun ds ↦ p.afterAll (c :: ds)) (List.take_append_drop more cs)
    rw [hplace] at hseam
    -- a piece that is the same on both texts
    have hsame : piece c (cs ++ '\n' :: ds) = .ok (front, more) ∧ more ≤ cs.length →
        scanFrom found p (c :: cs ++ '\n' :: ds) =
          scanFrom ts.dropLast.reverse ((p.afterAll (c :: cs)).after '\n') ds := by
      rintro ⟨happend, hle⟩
      rw [List.cons_append, scanFrom, happend]
      simp only [List.take_append_of_le_length hle, List.drop_append_of_le_length hle]
      exact hseam
    cases front with
    | token kind => exact hsame (piece_append_of_token hpiece (by decide) ds)
    | gap =>
      by_cases hc : isSpace c = true
      · -- the blank characters at the seam are one run, but they need not be taken as one
        have hmore : more = (cs.takeWhile isSpace).length := by
          rw [pieceAt_iff.1 (.space hc)] at hpiece
          cases hpiece
          rfl
        have hblanks : ∀ d ∈ taken, isSpace d = true := by
          subst hmore
          refine List.forall_mem_cons.2 ⟨hc, fun d hd ↦ ?_⟩
          rw [take_takeWhile] at hd
          exact List.all_eq_true.1 List.all_takeWhile d hd
        have hcut : c :: cs ++ '\n' :: ds = taken ++ (cs.drop more ++ '\n' :: ds) := by
          rw [← List.append_assoc]
          exact congrArg (c :: · ++ '\n' :: ds) (List.take_append_drop more cs).symm
        rw [hcut, scanFrom_spaces found p hblanks]
        exact hseam
      · exact hsame (piece_append_of_comment hpiece (Bool.not_eq_true _ ▸ hc) ds)

/-! ### Behind the seam -/

/-- The same place when so many lines, of so many bytes, are put before the text. -/
def Position.moved (lines bytes : Nat) (p : Position) : Position :=
  ⟨p.line + lines, p.column, p.offset + bytes⟩

/-- The same stretch when so many lines, of so many bytes, are put before the text. -/
def Span.moved (lines bytes : Nat) (s : Span) : Span :=
  { s.toPosition.moved lines bytes with len := s.len }

/-- The same token when so many lines, of so many bytes, are put before the text. -/
def Token.moved (lines bytes : Nat) (t : Token) : Token :=
  { t with position := t.position.moved lines bytes }

section Moved

variable (lines bytes : Nat)

theorem Position.after_moved (p : Position) (c : Char) :
    (p.moved lines bytes).after c = (p.after c).moved lines bytes := by
  unfold Position.after Position.moved
  split
  · rw [Nat.add_right_comm, Nat.add_right_comm p.offset]
  · rw [Nat.add_right_comm p.offset]

/-- To go past characters from a moved place is to go past them and be moved. -/
theorem Position.afterAll_moved (p : Position) (cs : List Char) :
    (p.moved lines bytes).afterAll cs = (p.afterAll cs).moved lines bytes := by
  induction cs generalizing p with
  | nil => rfl
  | cons c cs ih => rw [afterAll_cons, afterAll_cons, after_moved, ih]

/-- **The scanner does not look at places**: from another place, and behind other tokens, it finds
the same tokens, moved. -/
theorem scanFrom_moved (found : List Token) (p : Position) (cs : List Char) :
    ∀ ts, scanFrom found p cs = .ok ts → ∃ new, ts = found.reverse ++ new ∧
      ∀ others, scanFrom others (p.moved lines bytes) cs =
        .ok (others.reverse ++ new.map (Token.moved lines bytes)) := by
  induction found, p, cs using scanFrom.induct with
  | case1 found p =>
    intro ts hts
    rw [scanFrom] at hts
    cases hts
    refine ⟨_, List.reverse_cons, fun others ↦ ?_⟩
    rw [scanFrom, List.reverse_cons]
    rfl
  | case2 found p c cs flaw hpiece =>
    intro ts hts
    rw [scanFrom, hpiece] at hts
    cases hts
  | case3 found p c cs front more hpiece taken found' ih =>
    intro ts hts
    rw [scanFrom, hpiece] at hts
    obtain ⟨new, rfl, hmoved⟩ := ih ts hts
    cases front with
    | gap =>
      refine ⟨new, rfl, fun others ↦ ?_⟩
      rw [scanFrom, hpiece]
      show scanFrom others ((p.moved lines bytes).afterAll taken) (cs.drop more) = _
      rw [Position.afterAll_moved, hmoved]
    | token kind =>
      have hfound : found'.reverse = found.reverse ++ [⟨kind, String.ofList taken, p⟩] :=
        List.reverse_cons
      refine ⟨⟨kind, String.ofList taken, p⟩ :: new, by rw [hfound, List.append_assoc]; rfl,
        fun others ↦ ?_⟩
      rw [scanFrom, hpiece]
      show scanFrom (_ :: others) ((p.moved lines bytes).afterAll taken) (cs.drop more) = _
      rw [Position.afterAll_moved, hmoved, List.reverse_cons, List.append_assoc]
      rfl

end Moved

/-- Two texts joined by a line feed have the tokens of the first, and behind them those of the
second, which stand so many lines and bytes further on. -/
theorem scan_append_newline {s₁ s₂ : String} {ts₁ ts₂ : List Token} (h₁ : scan s₁ = .ok ts₁)
    (h₂ : scan s₂ = .ok ts₂) : scan (s₁ ++ "\n" ++ s₂) =
      .ok (ts₁.dropLast ++
        ts₂.map (Token.moved (s₁.toList.count '\n' + 1) (s₁.utf8ByteSize + 1))) := by
  have hplace : (Position.start.afterAll s₁.toList).after '\n' =
      Position.start.moved (s₁.toList.count '\n' + 1) (s₁.utf8ByteSize + 1) := by
    rw [afterAll_start, String.utf8Len_toList]
    show Position.mk (1 + s₁.toList.count '\n' + 1) 1 (s₁.utf8ByteSize + 1) =
      ⟨1 + (s₁.toList.count '\n' + 1), 1, 0 + (s₁.utf8ByteSize + 1)⟩
    rw [Nat.add_assoc, Nat.zero_add]
  have htext : (s₁ ++ "\n" ++ s₂).toList = s₁.toList ++ '\n' :: s₂.toList := by
    rw [String.toList_append, String.toList_append, List.append_assoc]
    rfl
  obtain ⟨new, hnew, hmoved⟩ := scanFrom_moved (s₁.toList.count '\n' + 1) (s₁.utf8ByteSize + 1)
    [] .start s₂.toList ts₂ h₂
  rw [List.reverse_nil, List.nil_append] at hnew
  subst hnew
  unfold scan
  rw [htext, scanFrom_append_newline s₂.toList [] .start s₁.toList ts₁ h₁, hplace, hmoved,
    List.reverse_reverse]

end SafariScript
