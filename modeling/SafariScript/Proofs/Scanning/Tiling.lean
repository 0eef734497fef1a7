import Mathlib.Data.List.Induction
import Mathlib.Data.String.Basic
import SafariScript.Proofs.Scanning.Pieces

/-!
# Tokens tile the source

A scanned text is made of its tokens and of **layout** between them: blank characters and comments
(`Layout`). Every token is the stretch of text at its own place, and the place is the one that a
reader would count: lines by line feeds, columns and offsets by bytes (`Token.InPlace`).

The scanner keeps a position beside the rest of the text, and moves it past each piece. So the
position is always that of the characters before the rest (`afterAll_start` says what that is), and
tokens with the layout around them make up the rest (`Tiles`). What is said about offsets into the
source then follows from how these stretches are put together.
-/

namespace SafariScript

open Token

/-! ### Layout -/

/-- Blank characters, line comments and block comments, one after the other. A line comment goes to
the end of its line, so a line feed follows it, unless it ends the whole text (`final`). A block
comment ends with the first `*/` in it. -/
inductive Layout (final : Prop) : List Char → Prop
  | nil : Layout final []
  | blank {c : Char} {cs : List Char} : c ∈ [' ', '\t', '\r', '\n'] → Layout final cs →
    Layout final (c :: cs)
  | lineComment {body cs : List Char} : '\n' ∉ body → Layout final ('\n' :: cs) →
    Layout final ('/' :: '/' :: (body ++ '\n' :: cs))
  | lastComment {body : List Char} : '\n' ∉ body → final → Layout final ('/' :: '/' :: body)
  | blockComment {body cs : List Char} : ¬ ['*', '/'] <:+: body → Layout final cs →
    Layout final ('/' :: '*' :: (body ++ '*' :: '/' :: cs))

theorem Layout.mono {final final' : Prop} (hfinal : final → final') {cs : List Char}
    (h : Layout final cs) : Layout final' cs := by
  induction h with
  | nil => exact .nil
  | blank hc _ ih => exact .blank hc ih
  | lineComment hbody _ ih => exact .lineComment hbody ih
  | lastComment hbody hend => exact .lastComment hbody (hfinal hend)
  | blockComment hbody _ ih => exact .blockComment hbody ih

/-- Blank characters before layout are layout. -/
theorem Layout.blanks {final : Prop} {ds cs : List Char} (hds : ∀ d ∈ ds, isSpace d = true)
    (h : Layout final cs) : Layout final (ds ++ cs) := by
  induction ds with
  | nil => exact h
  | cons d ds ih =>
    obtain ⟨hd, hrest⟩ := List.forall_mem_cons.1 hds
    exact .blank (isSpace_iff.1 hd) (ih hrest)

/-- A gap in front of layout is layout. Behind it the text ends, or something stands that is not
blank. -/
theorem Layout.of_piece {final : Prop} {c : Char} {cs layout rest : List Char} {more : Nat}
    (hpiece : piece c cs = .ok (.gap, more)) (hcs : cs.drop more = layout ++ rest)
    (hnext : (rest = [] ∧ final) ∨ ∃ d ds, rest = d :: ds ∧ isSpace d = false)
    (h : Layout final layout) : Layout final (c :: cs.take more ++ layout) := by
  obtain ⟨hspace, rfl⟩ | ⟨ds, rfl, rfl, rfl⟩ | ⟨ds, rfl, rfl, hlength⟩ := gap_of_piece hpiece
  · rw [take_takeWhile]
    exact .blank (isSpace_iff.1 hspace) (.blanks (List.all_eq_true.1 List.all_takeWhile) h)
  · obtain ⟨hdrop, hend⟩ := drop_takeWhile (· ≠ '\n') ds
    rw [List.drop_succ_cons, hdrop] at hcs
    rw [hcs] at hend
    have hbody : '\n' ∉ ds.takeWhile (· ≠ '\n') := fun hmem ↦ by
      simpa using List.all_eq_true.1 List.all_takeWhile _ hmem
    rw [List.take_succ_cons, take_takeWhile]
    cases layout with
    | nil =>
      obtain ⟨-, hfinal⟩ | ⟨d, _, rfl, hd⟩ := hnext
      · rw [List.append_nil]
        exact .lastComment hbody hfinal
      · have hd' : d = '\n' := by simpa using hend d rfl
        subst hd'
        cases hd
    | cons e layout =>
      have he : e = '\n' := by simpa using hend e rfl
      subst he
      exact .lineComment hbody h
  · obtain ⟨body, after, rfl, hbody, rfl⟩ := commentLength_eq_some hlength
    have htake : ('*' :: (body ++ '*' :: '/' :: after)).take (1 + body.length + 2) =
        '*' :: (body ++ ['*', '/']) := by
      rw [Nat.add_assoc, Nat.add_comm, List.take_succ_cons, List.take_length_add_append]
      rfl
    rw [htake]
    have hcomment : Layout final ('/' :: '*' :: (body ++ '*' :: '/' :: layout)) :=
      .blockComment hbody h
    simpa using hcomment

/-! ### Places -/

/-- The text between two byte offsets. -/
def textBetween (source : String) (i j : Nat) : String := String.Pos.Raw.extract source ⟨i⟩ ⟨j⟩

/-- The end of a text, from behind its last line feed on. -/
def lastLine (text : String) : String :=
  String.ofList (text.toList.reverse.takeWhile (· ≠ '\n')).reverse

/-- Behind a line feed the last line is empty. -/
theorem lastLine_newline (cs : List Char) : lastLine (String.ofList (cs ++ ['\n'])) = "" := by
  simp [lastLine]

/-- Any other character goes on the last line. -/
theorem lastLine_concat {c : Char} (hc : c ≠ '\n') (cs : List Char) :
    lastLine (String.ofList (cs ++ [c])) = lastLine (String.ofList cs) ++ String.ofList [c] := by
  simp [lastLine, hc, String.ofList_append]

/-- The place behind a text, said in terms of the text. -/
theorem afterAll_start (cs : List Char) :
    Position.start.afterAll cs =
      ⟨1 + cs.count '\n', 1 + (lastLine (String.ofList cs)).utf8ByteSize, String.utf8Len cs⟩ := by
  -- from the right: only the last character moves the place
  induction cs using List.reverseRecOn with
  | nil => rfl
  | append_singleton cs c ih =>
    rw [Position.afterAll_append, ih, Position.afterAll_cons, Position.afterAll_nil, Position.after,
      List.count_append, String.utf8Len_append]
    split
    · next hc =>
      subst hc
      rw [lastLine_newline]
      rfl
    · next hc =>
      have hcount : [c].count '\n' = 0 := List.count_singleton.trans (if_neg (by simpa using hc))
      have hbytes : String.utf8Len [c] = c.utf8Size := Nat.zero_add _
      rw [lastLine_concat hc, String.utf8ByteSize_append, String.utf8ByteSize_ofList, hcount,
        hbytes, Nat.add_assoc]
      rfl

/-- The token is the stretch of the source at its place: it begins and ends between characters, and
line and column are those that the text before it comes to. -/
structure Token.InPlace (source : String) (t : Token) : Prop where
  starts : String.Pos.Raw.IsValid source ⟨t.position.offset⟩
  stops : String.Pos.Raw.IsValid source ⟨t.position.offset + t.len⟩
  lexeme : t.lexeme = textBetween source t.position.offset (t.position.offset + t.len)
  line : t.position.line = 1 + (textBetween source 0 t.position.offset).toList.count '\n'
  column : t.position.column =
    1 + (lastLine (textBetween source 0 t.position.offset)).utf8ByteSize

section Stretches

variable {source : String} {before middle after : List Char}

/-- Stretches of a text are found again by their offsets. -/
theorem textBetween_of_append (h : source.toList = before ++ middle ++ after) :
    textBetween source (String.utf8Len before) (String.utf8Len before + String.utf8Len middle) =
      String.ofList middle := by
  have hextract := String.extract_of_valid before middle after
  rwa [← h, String.ofList_toList] at hextract

/-- The front of a text ends at its number of bytes. -/
theorem textBetween_front (h : source.toList = before ++ after) :
    textBetween source 0 (String.utf8Len before) = String.ofList before := by
  have hsource : source.toList = [] ++ before ++ after := h
  simpa using textBetween_of_append hsource

/-- The end of a front part is between characters. -/
theorem isValid_of_append (h : source.toList = before ++ after) :
    String.Pos.Raw.IsValid source ⟨String.utf8Len before⟩ := by
  refine String.Pos.Raw.isValid_iff_exists_append.2
    ⟨String.ofList before, String.ofList after, ?_, (String.rawEndPos_ofList before).symm⟩
  rw [← String.ofList_append, ← h, String.ofList_toList]

theorem Token.len_eq (t : Token) : t.len = String.utf8Len t.lexeme.toList :=
  (String.utf8Len_toList t.lexeme).symm

/-- A token that stands at its place in the text is in place. -/
theorem Token.InPlace.of_append {t : Token}
    (h : source.toList = before ++ t.lexeme.toList ++ after)
    (hplace : t.position = Position.start.afterAll before) : t.InPlace source := by
  have hfront := textBetween_front (h.trans (List.append_assoc ..))
  have hstop : String.utf8Len before + t.len = String.utf8Len (before ++ t.lexeme.toList) := by
    rw [String.utf8Len_append, t.len_eq]
  rw [afterAll_start] at hplace
  constructor
  · rw [hplace]
    exact isValid_of_append (h.trans (List.append_assoc ..))
  · rw [hplace, hstop]
    exact isValid_of_append h
  · rw [hplace, t.len_eq, textBetween_of_append h, String.ofList_toList]
  · rw [hplace, hfront, String.toList_ofList]
  · rw [hplace, hfront]

end Stretches

/-! ### Tiles -/

/-- The tokens make up the text `rest`, with layout between them, when `before` stands before it. No
token is empty except for the mark of the end, and none begins with a blank character. -/
inductive Tiles : (before rest : List Char) → List Token → Prop
  | done {before layout : List Char} : Layout True layout →
    Tiles before layout [⟨.endOfInput, "", Position.start.afterAll (before ++ layout)⟩]
  | token {before layout cs rest : List Char} {c : Char} {kind : Kind} {ts : List Token} :
    Layout False layout → isSpace c = false → kind ≠ .endOfInput →
    Tiles (before ++ layout ++ c :: cs) rest ts →
    Tiles before (layout ++ (c :: cs ++ rest))
      (⟨kind, String.ofList (c :: cs), Position.start.afterAll (before ++ layout)⟩ :: ts)

/-- A gap is part of the layout before the next token. -/
theorem Tiles.of_gap {before cs : List Char} {c : Char} {more : Nat} {ts : List Token}
    (hpiece : piece c cs = .ok (.gap, more))
    (h : Tiles (before ++ c :: cs.take more) (cs.drop more) ts) : Tiles before (c :: cs) ts := by
  have hcs : c :: cs = c :: cs.take more ++ cs.drop more := by simp
  generalize hrest : cs.drop more = rest at h hcs
  cases h with
  | done hlayout =>
    have hfront :=
      hlayout.of_piece hpiece (hrest.trans (List.append_nil _).symm) (.inl ⟨rfl, trivial⟩)
    rw [hcs, List.append_assoc]
    exact .done hfront
  | @token _ layout ds rest d kind ts hlayout hd hkind htiles =>
    have hfront := hlayout.of_piece hpiece hrest (.inr ⟨d, ds ++ rest, rfl, hd⟩)
    rw [hcs, ← List.append_assoc, List.append_assoc before]
    refine .token hfront hd hkind ?_
    rwa [← List.append_assoc before]

/-- **The scanner tiles the text**, from a place where the tokens before it are found. -/
theorem tiles_scanFrom (found : List Token) (p : Position) (cs : List Char) :
    ∀ before ts, p = Position.start.afterAll before → scanFrom found p cs = .ok ts →
      ∃ new, ts = found.reverse ++ new ∧ Tiles before cs new := by
  induction found, p, cs using scanFrom.induct with
  | case1 found p =>
    rintro before ts rfl hts
    rw [scanFrom] at hts
    cases hts
    have hdone := @Tiles.done before [] .nil
    rw [List.append_nil] at hdone
    exact ⟨_, List.reverse_cons, hdone⟩
  | case2 found p c cs flaw hpiece =>
    intro before ts _ hts
    rw [scanFrom, hpiece] at hts
    cases hts
  | case3 found p c cs front more hpiece taken found' ih =>
    rintro before ts rfl hts
    rw [scanFrom, hpiece] at hts
    obtain ⟨new, rfl, htiles⟩ := ih _ _ (Position.afterAll_append ..).symm hts
    cases front with
    | gap => exact ⟨new, rfl, .of_gap hpiece htiles⟩
    | token kind =>
      obtain ⟨hc, hkind⟩ := token_of_piece hpiece
      have htoken := @Tiles.token before [] (cs.take more) (cs.drop more) c kind new .nil hc hkind
        (by rwa [List.append_nil])
      rw [List.append_nil, List.nil_append, List.cons_append, List.take_append_drop] at htoken
      exact ⟨_, by simp [found', taken], htoken⟩

/-! ### Tokens and pieces -/

/-- **Every token stands for a piece of the text**, but for the mark of the end; and behind the
piece scanning goes on to the same tokens. -/
theorem piece_of_mem_scanFrom (found : List Token) (p : Position) (cs : List Char) :
    ∀ before ts, p = Position.start.afterAll before → scanFrom found p cs = .ok ts →
      ∀ t ∈ ts, t ∈ found ∨ t.kind = .endOfInput ∨ ∃ front c ds more, cs = front ++ c :: ds ∧
        piece c ds = .ok (.token t.kind, more) ∧ t.lexeme = String.ofList (c :: ds.take more) ∧
        t.position = Position.start.afterAll (before ++ front) ∧
        ∃ found' p', scanFrom found' p' (ds.drop more) = .ok ts := by
  induction found, p, cs using scanFrom.induct with
  | case1 found p =>
    intro before ts _ hts t ht
    rw [scanFrom] at hts
    cases hts
    obtain rfl | ht := List.mem_cons.1 (List.mem_reverse.1 ht)
    · exact .inr (.inl rfl)
    · exact .inl ht
  | case2 found p c cs flaw hpiece =>
    intro before ts _ hts
    rw [scanFrom, hpiece] at hts
    cases hts
  | case3 found p c cs front more hpiece taken found' ih =>
    rintro before ts rfl hts t ht
    rw [scanFrom, hpiece] at hts
    obtain ht | hend | ⟨front', d, ds, more', hcs, hfound⟩ :=
      ih (before ++ taken) ts (Position.afterAll_append ..).symm hts t ht
    · cases front with
      | gap => exact .inl ht
      | token kind =>
        obtain rfl | ht := List.mem_cons.1 ht
        · exact .inr (.inr ⟨[], c, cs, more, rfl, hpiece, rfl, by rw [List.append_nil], _, _, hts⟩)
        · exact .inl ht
    · exact .inr (.inl hend)
    · have htext : c :: cs = taken ++ front' ++ d :: ds := by
        rw [List.append_assoc, ← hcs]
        exact congrArg (c :: ·) (List.take_append_drop more cs).symm
      rw [List.append_assoc] at hfound
      exact .inr (.inr ⟨taken ++ front', d, ds, more', htext, hfound⟩)

/-- The token was read off the text `c :: cs`, which is the source from behind `before` on. -/
structure Token.ReadOff (source : String) (t : Token) (before : List Char) (c : Char)
    (cs : List Char) (more : Nat) : Prop where
  source_eq : source.toList = before ++ c :: cs
  piece_eq : piece c cs = .ok (.token t.kind, more)
  lexeme_eq : t.lexeme.toList = c :: cs.take more
  offset_eq : t.position.offset = String.utf8Len before
  /-- The rest of the text is scanned as well. -/
  goes_on : ∃ found p ts, scanFrom found p (cs.drop more) = .ok ts

theorem readOff_of_mem_scan {source : String} {ts : List Token} (h : scan source = .ok ts)
    {t : Token} (ht : t ∈ ts) (hend : t.kind ≠ .endOfInput) :
    ∃ before c cs more, t.ReadOff source before c cs more := by
  obtain hnone | hend' | ⟨before, c, cs, more, hsource, hpiece, hlexeme, hplace, found, p, hrest⟩ :=
    piece_of_mem_scanFrom [] .start source.toList [] ts rfl h t ht
  · cases hnone
  · exact absurd hend' hend
  · rw [List.nil_append, afterAll_start] at hplace
    exact ⟨before, c, cs, more, hsource, hpiece, by rw [hlexeme, String.toList_ofList],
      by rw [hplace], found, p, ts, hrest⟩

/-! ### What tiles are like -/

section Facts

variable {before rest : List Char} {ts : List Token}

/-- Layout leads to the first token. -/
theorem Tiles.first {source : String} (h : Tiles before rest ts)
    (hsource : source.toList = before ++ rest) : ∀ t ∈ ts.head?, Layout (t.kind = .endOfInput)
      (textBetween source (String.utf8Len before) t.position.offset).toList := by
  have htext : ∀ layout after, rest = layout ++ after → textBetween source (String.utf8Len before)
      (Position.start.afterAll (before ++ layout)).offset = String.ofList layout := by
    rintro layout after rfl
    rw [afterAll_start, String.utf8Len_append]
    exact textBetween_of_append (hsource.trans (List.append_assoc ..).symm)
  cases h with
  | done hlayout =>
    rintro t ⟨⟩
    rw [htext _ [] (by simp), String.toList_ofList]
    exact hlayout.mono fun _ ↦ rfl
  | token hlayout _ _ _ =>
    rintro t ⟨⟩
    rw [htext _ _ rfl, String.toList_ofList]
    exact hlayout.mono False.elim

/-- Every token stands somewhere in the text. -/
theorem Tiles.mem (h : Tiles before rest ts) : ∀ t ∈ ts, ∃ front after,
    rest = front ++ t.lexeme.toList ++ after ∧
      t.position = Position.start.afterAll (before ++ front) := by
  induction h with
  | @done before layout _ =>
    intro t ht
    cases List.mem_singleton.1 ht
    exact ⟨layout, [], by simp, rfl⟩
  | @token before layout cs rest c kind ts _ _ _ _ ih =>
    intro t ht
    obtain rfl | ht := List.mem_cons.1 ht
    · exact ⟨layout, rest, by simp, rfl⟩
    · obtain ⟨front, after, rfl, hplace⟩ := ih t ht
      exact ⟨layout ++ c :: cs ++ front, after, by simp, by simpa using hplace⟩

/-- Every tile is in place. -/
theorem Tiles.inPlace {source : String} (h : Tiles before rest ts)
    (hsource : source.toList = before ++ rest) : ∀ t ∈ ts, t.InPlace source := by
  intro t ht
  obtain ⟨front, after, rfl, hplace⟩ := h.mem t ht
  have happend : source.toList = before ++ front ++ t.lexeme.toList ++ after := by
    simpa using hsource
  exact .of_append happend hplace

/-- Tokens begin behind the text before them. -/
theorem Tiles.le_offset (h : Tiles before rest ts) :
    ∀ t ∈ ts, String.utf8Len before ≤ t.position.offset := by
  intro t ht
  obtain ⟨front, after, -, hplace⟩ := h.mem t ht
  rw [hplace, afterAll_start, String.utf8Len_append]
  exact Nat.le_add_right ..

/-- Tiles do not overlap. -/
theorem Tiles.increasing (h : Tiles before rest ts) :
    ts.Pairwise fun t u ↦ t.position.offset + t.len ≤ u.position.offset := by
  induction h with
  | done => exact List.pairwise_singleton ..
  | @token before layout cs rest c kind ts _ _ _ htiles ih =>
    refine List.pairwise_cons.2 ⟨fun u hu ↦ ?_, ih⟩
    have hle := htiles.le_offset u hu
    rw [String.utf8Len_append] at hle
    rw [Token.len_eq, afterAll_start, String.toList_ofList]
    exact hle

/-- Layout leads from each token to the next one. -/
theorem Tiles.between {source : String} (h : Tiles before rest ts)
    (hsource : source.toList = before ++ rest) :
    ts.IsChain fun t u ↦ Layout (u.kind = .endOfInput)
      (textBetween source (t.position.offset + t.len) u.position.offset).toList := by
  induction h with
  | done => exact .singleton _
  | @token before layout cs rest c kind ts _ _ _ htiles ih =>
    have hrest : source.toList = before ++ layout ++ c :: cs ++ rest := by simpa using hsource
    have hfirst := htiles.first hrest
    rw [String.utf8Len_append] at hfirst
    cases ts with
    | nil => exact .singleton _
    | cons u us =>
      refine .cons_cons ?_ (ih hrest)
      rw [Token.len_eq, afterAll_start, String.toList_ofList]
      exact hfirst u rfl

/-- The mark of the end is the last tile, and the only one without text. -/
theorem Tiles.ended (h : Tiles before rest ts) : ∃ init last, ts = init ++ [last] ∧
    (∀ t ∈ init, t.kind ≠ .endOfInput ∧ 0 < t.len) ∧ last.kind = .endOfInput ∧
      last.lexeme = "" ∧ last.position = Position.start.afterAll (before ++ rest) := by
  induction h with
  | done => exact ⟨[], _, rfl, by simp, rfl, rfl, rfl⟩
  | @token before layout cs rest c kind ts _ _ hkind _ ih =>
    obtain ⟨init, last, rfl, hinit, hlast, hempty, hplace⟩ := ih
    refine ⟨_ :: init, last, rfl, List.forall_mem_cons.2 ⟨⟨hkind, ?_⟩, hinit⟩, hlast, hempty, ?_⟩
    · rw [Token.len_eq, String.toList_ofList, String.utf8Len_cons]
      exact Nat.add_pos_right _ c.utf8Size_pos
    · simpa using hplace

end Facts

/-- The tokens and the layout between them are the whole source, each in its place. -/
structure Tiling (source : String) (ts : List Token) : Prop where
  /-- The last token is the only mark of the end. It is empty and stands at the end of the source;
  all other tokens have characters. -/
  ended : ∃ init last, ts = init ++ [last] ∧ (∀ t ∈ init, t.kind ≠ .endOfInput ∧ 0 < t.len) ∧
    last.kind = .endOfInput ∧ last.lexeme = "" ∧ last.position.offset = source.utf8ByteSize
  inPlace : ∀ t ∈ ts, t.InPlace source
  /-- No token begins before those in front of it have ended. -/
  increasing : ts.Pairwise fun t u ↦ t.position.offset + t.len ≤ u.position.offset
  /-- Layout leads to the first token. -/
  first : ∀ t ∈ ts.head?, Layout (t.kind = .endOfInput)
    (textBetween source 0 t.position.offset).toList
  /-- Layout leads from each token to the next one. -/
  between : ts.IsChain fun t u ↦ Layout (u.kind = .endOfInput)
    (textBetween source (t.position.offset + t.len) u.position.offset).toList

/-- **Tokens tile the source.** The tokens of a scanned source end with the only mark of the end,
each of them is the text at its offset and has the line and column of that offset, they follow one
another without overlap, and between them there is nothing but layout. -/
theorem tiling_of_scan {source : String} {ts : List Token} (h : scan source = .ok ts) :
    Tiling source ts := by
  obtain ⟨new, rfl, htiles⟩ := tiles_scanFrom [] .start source.toList [] ts rfl h
  have hsource : source.toList = [] ++ source.toList := rfl
  obtain ⟨init, last, hts, hinit, hlast, hempty, hplace⟩ := htiles.ended
  refine ⟨⟨init, last, hts, hinit, hlast, hempty, ?_⟩, htiles.inPlace hsource, htiles.increasing,
    htiles.first hsource, htiles.between hsource⟩
  rw [hplace, afterAll_start]
  exact String.utf8Len_toList source

/-- A comment with a character of two bytes in it, a string over two lines, and a comment at the
end. -/
def overTwoLines : String := "/*é*/x=\"é\n\";//"

/-- The tokens of these lines. -/
def tokensOverTwoLines : List Token :=
  [⟨.ident "x", "x", ⟨1, 7, 6⟩⟩, ⟨.symbol .equal, "=", ⟨1, 8, 7⟩⟩,
    ⟨.literal (.str "é\n"), "\"é\n\"", ⟨1, 9, 8⟩⟩, ⟨.symbol .semicolon, ";", ⟨2, 2, 13⟩⟩,
    ⟨.endOfInput, "", ⟨2, 5, 16⟩⟩]

/-- Columns and offsets count bytes, and the line break in the string begins a new line. -/
theorem tiling_of_scan_overTwoLines :
    scan overTwoLines = .ok tokensOverTwoLines ∧ Tiling overTwoLines tokensOverTwoLines := by
  have hscan : scan overTwoLines = .ok tokensOverTwoLines := by with_unfolding_all rfl
  exact ⟨hscan, tiling_of_scan hscan⟩

end SafariScript
