import SafariScript.Proofs.Scanning.Lexemes

/-!
# Layout does not matter

The tokens of a source may be written down again with any layout between them, as long as the layout
begins with a blank character (`Separator`): scanning the new text gives tokens of the same kinds
and lexemes (`scan_of_spaced`).

Two things are needed. The scanner passes over layout, whatever follows it (`Layout.scanFrom`); and
it finds a lexeme again in front of a blank character, because what a lexeme stands for is a matter
of its text alone (`piece_of_stands`).
-/

namespace SafariScript

open Token

/-! ### Passing over layout -/

/-- A block comment ends with the first `*/` behind its beginning. -/
theorem commentLength_of_body {body : List Char} (h : ¬ ['*', '/'] <:+: body) (n : Nat)
    (rest : List Char) :
    commentLength n (body ++ '*' :: '/' :: rest) = some (n + body.length + 2) := by
  induction body generalizing n with
  | nil => rw [List.nil_append, commentLength, List.length_nil, Nat.add_zero]
  | cons c body ih =>
    have hopen : ∀ ds, c = '*' → body ++ '*' :: '/' :: rest = '/' :: ds → False := by
      rintro ds rfl hds
      cases body with
      | nil => cases hds
      | cons d body =>
        cases hds
        exact h ⟨[], body, rfl⟩
    have hbody : ¬ ['*', '/'] <:+: body := fun hinfix ↦ h (List.infix_cons hinfix)
    rw [List.cons_append, commentLength_cons hopen, ih hbody, List.length_cons]
    congr 1
    omega

section Pieces

variable (found : List Token) (p : Position) {c : Char} {cs rest : List Char}

theorem scanFrom_gap (h : piece c (cs ++ rest) = .ok (.gap, cs.length)) :
    scanFrom found p (c :: (cs ++ rest)) = scanFrom found (p.afterAll (c :: cs)) rest := by
  rw [scanFrom, h]
  show scanFrom found (p.afterAll (c :: (cs ++ rest).take cs.length)) _ = _
  rw [List.take_left, List.drop_left]

theorem scanFrom_token {kind : Kind} (h : piece c (cs ++ rest) = .ok (.token kind, cs.length)) :
    scanFrom found p (c :: (cs ++ rest)) =
      scanFrom (⟨kind, String.ofList (c :: cs), p⟩ :: found) (p.afterAll (c :: cs)) rest := by
  rw [scanFrom, h]
  show scanFrom (⟨kind, String.ofList (c :: (cs ++ rest).take cs.length), p⟩ :: found)
    (p.afterAll (c :: (cs ++ rest).take cs.length)) _ = _
  rw [List.take_left, List.drop_left]

end Pieces

/-- **The scanner passes over layout**, whatever follows it. -/
theorem Layout.scanFrom {layout : List Char} (h : Layout False layout) (found : List Token)
    (p : Position) (rest : List Char) :
    scanFrom found p (layout ++ rest) = scanFrom found (p.afterAll layout) rest := by
  induction h generalizing p with
  | nil => rfl
  | blank hc _ ih =>
    rw [List.cons_append, scanFrom_space found p (isSpace_iff.2 hc), ih, Position.afterAll_cons]
  | @lineComment body cs hbody _ ih =>
    have hline : body.all (· ≠ '\n') = true := List.all_eq_true.2 fun c hc ↦ by
      simpa using fun hnewline : c = '\n' ↦ hbody (hnewline ▸ hc)
    have hspan := span_append (r := '\n' :: (cs ++ rest)) hline (by rintro _ ⟨⟩; decide)
    have hpiece : piece '/' ('/' :: body ++ '\n' :: (cs ++ rest)) =
        .ok (.gap, ('/' :: body).length) := by
      have hcomment := pieceAt_iff.1 (.lineComment (body ++ '\n' :: (cs ++ rest)))
      rwa [hspan.1] at hcomment
    have htext : '/' :: '/' :: (body ++ '\n' :: cs) ++ rest =
        '/' :: ('/' :: body ++ '\n' :: (cs ++ rest)) := by simp
    rw [htext, scanFrom_gap found p hpiece, ← List.cons_append, ih, ← Position.afterAll_append]
    rfl
  | lastComment _ hfinal => exact hfinal.elim
  | @blockComment body cs hbody _ ih =>
    have hpiece : piece '/' ('*' :: body ++ ['*', '/'] ++ (cs ++ rest)) =
        .ok (.gap, ('*' :: body ++ ['*', '/']).length) := by
      have hcomment := pieceAt_iff.1 (.blockComment (commentLength_of_body hbody 1 (cs ++ rest)))
      have hlength : ('*' :: body ++ ['*', '/']).length = 1 + body.length + 2 := by
        simp only [List.length_append, List.length_cons, List.length_nil]
        omega
      rw [hlength, ← hcomment]
      simp
    have htext : '/' :: '*' :: (body ++ '*' :: '/' :: cs) ++ rest =
        '/' :: ('*' :: body ++ ['*', '/'] ++ (cs ++ rest)) := by simp
    have hmoved : '/' :: '*' :: (body ++ '*' :: '/' :: cs) =
        '/' :: ('*' :: body ++ ['*', '/']) ++ cs := by simp
    rw [htext, scanFrom_gap found p hpiece, ih, hmoved, Position.afterAll_append]

/-! ### Texts with the same lexemes -/

/-- Layout that begins with a blank character: blank characters and complete comments behind it, in
any order. -/
def Separator (sep : List Char) : Prop :=
  Layout False sep ∧ ∃ c ∈ sep.head?, isSpace c = true

/-- The text is made of the lexemes of the tokens, in their order, with a separator before each of
them and one at the end. -/
inductive Spaced : List Token → List Char → Prop
  | done {sep : List Char} : Separator sep → Spaced [] sep
  | token {t : Token} {ts : List Token} {sep text : List Char} : Separator sep → Spaced ts text →
    Spaced (t :: ts) (sep ++ (t.lexeme.toList ++ text))

theorem Separator.exists_cons {sep : List Char} (h : Separator sep) (text : List Char) :
    ∃ d ds, isSpace d = true ∧ sep ++ text = d :: ds := by
  obtain ⟨-, d, hd, hspace⟩ := h
  obtain ⟨ds, rfl⟩ := List.head?_eq_some_iff.1 hd
  exact ⟨d, ds ++ text, hspace, rfl⟩

/-- A spaced text begins with a blank character. -/
theorem Spaced.exists_cons {ts : List Token} {text : List Char} (h : Spaced ts text) :
    ∃ d ds, isSpace d = true ∧ text = d :: ds := by
  cases h with
  | done hsep =>
    have hblank := hsep.exists_cons []
    rwa [List.append_nil] at hblank
  | token hsep _ => exact hsep.exists_cons _

/-- What layout leaves of a token: its kind and its text. -/
def Token.reading (t : Token) : Kind × String := (t.kind, t.lexeme)

/-- The text of the token stands for its kind. -/
def Token.Meant (t : Token) : Prop :=
  ∃ k c cs, t.lexeme = String.ofList (c :: cs) ∧ Stands k (c :: cs) t.kind

/-- The tokens of a source are meant as they are read, but for the mark of the end. -/
theorem meant_of_mem_scan {source : String} {ts : List Token} (h : scan source = .ok ts) {t : Token}
    (ht : t ∈ ts) (hend : t.kind ≠ .endOfInput) : t.Meant := by
  obtain ⟨_, c, cs, more, hread⟩ := readOff_of_mem_scan h ht hend
  obtain ⟨k, hstands⟩ := stands_of_piece hread.piece_eq
  exact ⟨k, c, cs.take more, by rw [← hread.lexeme_eq, String.ofList_toList], hstands⟩

/-- **A spaced text is scanned to what it is made of**, from any place on. -/
theorem Spaced.scanFrom {ts : List Token} {text : List Char} (h : Spaced ts text)
    (hts : ∀ t ∈ ts, t.Meant) (found : List Token) (p : Position) :
    ∃ new, scanFrom found p text =
        .ok (found.reverse ++ new ++ [⟨.endOfInput, "", p.afterAll text⟩]) ∧
      new.map Token.reading = ts.map Token.reading := by
  induction h generalizing found p with
  | @done sep hsep =>
    have hpassed := hsep.1.scanFrom found p []
    rw [List.append_nil] at hpassed
    refine ⟨[], ?_, rfl⟩
    rw [hpassed, Token.scanFrom, List.reverse_cons, List.append_nil]
  | @token t ts sep text hsep htext ih =>
    obtain ⟨⟨k, c, cs, hlexeme, hstands⟩, hrest⟩ := List.forall_mem_cons.1 hts
    obtain ⟨d, ds, hspace, hblank⟩ := htext.exists_cons
    have hpiece := piece_of_stands hstands hspace ds
    rw [← hblank] at hpiece
    obtain ⟨new, hscan, hread⟩ := ih hrest
      (⟨t.kind, String.ofList (c :: cs), p.afterAll sep⟩ :: found)
      ((p.afterAll sep).afterAll (c :: cs))
    refine ⟨⟨t.kind, String.ofList (c :: cs), p.afterAll sep⟩ :: new, ?_, ?_⟩
    · rw [hsep.1.scanFrom, hlexeme, String.toList_ofList, List.cons_append,
        scanFrom_token found _ hpiece, hscan, ← Position.afterAll_append,
        ← Position.afterAll_append]
      simp
    · rw [List.map_cons, List.map_cons, hread, Token.reading, Token.reading, hlexeme]

/-- **Layout does not matter.** The tokens of a source may be written down again with any separators
before, between and behind them: the text that results can be scanned, to tokens of the same kinds
and lexemes in the same order. -/
theorem scan_of_spaced {source : String} {ts : List Token} {text : List Char}
    (h : scan source = .ok ts) (htext : Spaced ts.dropLast text) :
    ∃ ts', scan (String.ofList text) = .ok ts' ∧
      ts'.map Token.reading = ts.map Token.reading := by
  obtain ⟨init, last, rfl, hinit, hlast, hempty, -⟩ := (tiling_of_scan h).ended
  rw [List.dropLast_concat] at htext
  have hmeant : ∀ t ∈ init, t.Meant := fun t ht ↦
    meant_of_mem_scan h (List.mem_append_left _ ht) (hinit t ht).1
  obtain ⟨new, hscan, hread⟩ := htext.scanFrom hmeant [] .start
  refine ⟨_, (congrArg (Token.scanFrom [] .start) String.toList_ofList).trans hscan, ?_⟩
  rw [List.reverse_nil, List.nil_append, List.map_append, List.map_append, hread,
    List.map_singleton, List.map_singleton, Token.reading, Token.reading, hlast, hempty]

/-- The tokens of `1/x`. -/
def tokensOfDivision : List Token :=
  [⟨.literal (.int 1), "1", ⟨1, 1, 0⟩⟩, ⟨.symbol .slash, "/", ⟨1, 2, 1⟩⟩,
    ⟨.ident "x", "x", ⟨1, 3, 2⟩⟩, ⟨.endOfInput, "", ⟨1, 4, 3⟩⟩]

/-- The same division with comments and line breaks around its tokens. -/
theorem scan_of_spaced_division :
    scan "1/x" = .ok tokensOfDivision ∧
    Spaced tokensOfDivision.dropLast " 1 // 2\n/ /*/**/x\t".toList ∧
    ∃ ts, scan (String.ofList " 1 // 2\n/ /*/**/x\t".toList) = .ok ts ∧
      ts.map Token.reading = tokensOfDivision.map Token.reading := by
  have hscan : scan "1/x" = .ok tokensOfDivision := by with_unfolding_all rfl
  have hspace : Separator " ".toList := ⟨.blank (by decide) .nil, ' ', rfl, rfl⟩
  have htab : Separator "\t".toList := ⟨.blank (by decide) .nil, '\t', rfl, rfl⟩
  have hline : Separator " // 2\n".toList :=
    ⟨.blank (by decide) (@Layout.lineComment _ " 2".toList [] (by decide)
      (.blank (by decide) .nil)), ' ', rfl, rfl⟩
  have hblock : Separator " /*/**/".toList :=
    ⟨.blank (by decide) (@Layout.blockComment _ "/*".toList [] (by decide) .nil), ' ', rfl, rfl⟩
  have hspaced : Spaced tokensOfDivision.dropLast " 1 // 2\n/ /*/**/x\t".toList :=
    .token hspace (.token hline (.token hblock (.done htab)))
  exact ⟨hscan, hspaced, scan_of_spaced hscan hspaced⟩

end SafariScript
