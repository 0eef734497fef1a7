import SafariScript.Proofs.Scanning.Tiling

/-!
# What a scanning error marks

The error of a source that cannot be scanned marks a stretch of it (`ScanError.Marks`): the stretch
has characters, lies within the source, begins between two characters, and its line and column are
those that a reader would count. Where it ends is a matter of the cause. **All causes but one mark
whole characters.** An escape that is not known is marked with two bytes, for the backslash and what
follows it; so if a character of several bytes follows, then the mark ends inside that character
(`mark_ends_inside_character`).

Of each flaw that the scanner can find in a piece it is said what text it marks
(`exists_marks_of_piece`). The rest is counting bytes.
-/

namespace SafariScript

open Token

/-! ### Characters of one byte -/

theorem utf8Size_of_isDigit {c : Char} (h : Text.isDigit c = true) : c.utf8Size = 1 := by
  have hle : c ≤ '9' := of_decide_eq_true (Bool.and_eq_true_iff.1 h).2
  exact Char.utf8Size_eq_one_iff.2 (Nat.le_trans hle (by decide))

theorem utf8Size_of_isWordPart {c : Char} (h : isWordPart c = true) : c.utf8Size = 1 := by
  obtain hstart | hdigit := Bool.or_eq_true_iff.1 h
  · obtain hletter | hunderscore := Bool.or_eq_true_iff.1 hstart
    · obtain hsmall | hcapital := Bool.or_eq_true_iff.1 hletter
      · have hle : c ≤ 'z' := of_decide_eq_true (Bool.and_eq_true_iff.1 hsmall).2
        exact Char.utf8Size_eq_one_iff.2 (Nat.le_trans hle (by decide))
      · have hle : c ≤ 'Z' := of_decide_eq_true (Bool.and_eq_true_iff.1 hcapital).2
        exact Char.utf8Size_eq_one_iff.2 (Nat.le_trans hle (by decide))
    · rw [beq_iff_eq.1 hunderscore]
      rfl
  · exact utf8Size_of_isDigit hdigit

/-- Characters of one byte each are as many as their bytes. -/
theorem utf8Len_eq_length {cs : List Char} (h : ∀ c ∈ cs, c.utf8Size = 1) :
    String.utf8Len cs = cs.length := by
  induction cs with
  | nil => rfl
  | cons c cs ih =>
    obtain ⟨hc, hcs⟩ := List.forall_mem_cons.1 h
    rw [String.utf8Len_cons, ih hcs, hc, List.length_cons]

/-! ### Flaws -/

/-- The number of bytes that are marked, when the marked text is `marked`. -/
def ScanError.Cause.bytes (cause : ScanError.Cause) (marked : List Char) : Nat :=
  match cause with
  | .invalidEscape _ => 2
  | _ => String.utf8Len marked

/-- The flaw marks the text `marked`, which stands behind `skipped` at the front of the text. -/
structure Token.Flaw.Marks (flaw : Flaw) (text skipped marked : List Char) : Prop where
  front : skipped ++ marked <+: text
  skip_eq : flaw.skip = skipped.length
  nonempty : marked ≠ []
  len_eq : flaw.len = flaw.cause.bytes marked
  /-- An escape is marked from its backslash on. -/
  escape : ∀ c, flaw.cause = .invalidEscape c → marked = ['\\', c]

/-- A flaw that marks the front of the text. -/
theorem Token.Flaw.Marks.atFront {cause : ScanError.Cause} {text marked : List Char} {len : Nat}
    (hfront : marked <+: text) (hne : marked ≠ []) (hlen : len = cause.bytes marked)
    (hcause : ∀ c, cause ≠ .invalidEscape c) :
    (Flaw.atFront cause len).Marks text [] marked :=
  ⟨hfront, rfl, hne, hlen, fun c hc ↦ absurd hc (hcause c)⟩

/-- The flaw of a string is that it does not end, or it is an escape in it. Of the string, `n`
characters were read before. -/
theorem flaw_of_stringBody {front : List Char} {n : Nat} {cs : List Char} {flaw : Flaw}
    (h : stringBody front n cs = .error flaw) : flaw = .atFront .unterminatedString 1 ∨
      ∃ text c rest, cs = text ++ '\\' :: c :: rest ∧
        flaw = ⟨.invalidEscape c, n + text.length + 1, 2⟩ := by
  induction front, n, cs using stringBody.induct with
  | case1 => cases h
  | case2 front n c cs v hv ih =>
    rw [stringBody, hv] at h
    obtain hopen | ⟨text, d, rest, rfl, rfl⟩ := ih h
    · exact .inl hopen
    · refine .inr ⟨'\\' :: c :: text, d, rest, rfl, ?_⟩
      rw [List.length_cons, List.length_cons, Nat.add_assoc n, Nat.add_comm 2]
  | case3 front n c cs hv =>
    rw [stringBody, hv] at h
    cases h
    exact .inr ⟨[], c, cs, rfl, rfl⟩
  | case4 =>
    cases h
    exact .inl rfl
  | case5 front n c cs hquote hescape hlast ih =>
    have hplain := ne_backslash hescape hlast
    rw [stringBody_cons hquote hplain] at h
    obtain hopen | ⟨text, d, rest, rfl, rfl⟩ := ih h
    · exact .inl hopen
    · refine .inr ⟨c :: text, d, rest, rfl, ?_⟩
      rw [List.length_cons, Nat.add_assoc n, Nat.add_comm 1]
  | case6 =>
    cases h
    exact .inl rfl

/-- The characters of a number and of the word that it runs into have one byte each. -/
theorem utf8Size_of_mem_number {c d : Char} {cs : List Char} (hc : Text.isDigit c = true)
    (hd : d ∈ c :: cs.take (numberLength cs + (gluedWord cs).length)) : d.utf8Size = 1 := by
  have hdigits : ∀ ds : List Char, d ∈ ds.takeWhile Text.isDigit → d.utf8Size = 1 := fun ds hd ↦
    utf8Size_of_isDigit (List.all_eq_true.1 List.all_takeWhile d hd)
  obtain rfl | hd := List.mem_cons.1 hd
  · exact utf8Size_of_isDigit hc
  rw [List.take_add, gluedWord, take_takeWhile] at hd
  obtain hd | hd := List.mem_append.1 hd
  · obtain ⟨-, hlength⟩ | ⟨ds, hcs, hlength⟩ := numberLength_cases cs
    · rw [hlength, take_takeWhile] at hd
      exact hdigits cs hd
    · have hcut := take_append_cons (cs.takeWhile Text.isDigit) '.' ds
        (ds.takeWhile Text.isDigit).length
      rw [← hcs, take_takeWhile, ← hlength] at hcut
      rw [hcut] at hd
      obtain hd | hd := List.mem_append.1 hd
      · exact hdigits cs hd
      · obtain rfl | hd := List.mem_cons.1 hd
        · rfl
        · exact hdigits ds hd
  · exact utf8Size_of_isWordPart (List.all_eq_true.1 List.all_takeWhile d hd)

/-- **Every flaw in a piece marks a text.** -/
theorem exists_marks_of_piece {c : Char} {cs : List Char} {flaw : Flaw}
    (h : piece c cs = .error flaw) : ∃ skipped marked, flaw.Marks (c :: cs) skipped marked := by
  have hpiece := pieceAt_iff.2 h
  generalize hr : (.error flaw : Except Flaw (Piece × Nat)) = r at hpiece
  cases hpiece with
  | space | lineComment | blockComment | string | word => cases hr
  | @openComment cs hopen =>
    cases hr
    exact ⟨[], ['/', '*'], .atFront ⟨cs, rfl⟩ (List.cons_ne_nil _ _) rfl (by rintro _ ⟨⟩)⟩
  | badString hbody =>
    cases hr
    obtain rfl | ⟨text, d, rest, rfl, rfl⟩ := flaw_of_stringBody hbody
    · exact ⟨[], ['"'], .atFront ⟨cs, rfl⟩ (List.cons_ne_nil _ _) rfl (by rintro _ ⟨⟩)⟩
    · refine ⟨'"' :: text, ['\\', d], ⟨rest, by simp⟩, by simp, List.cons_ne_nil _ _, rfl, ?_⟩
      rintro _ ⟨⟩
      rfl
  | number hdigit =>
    have hflaw : flaw = numberFlaw c cs := by
      rw [number_eq] at hr
      split at hr
      · cases hr
        rfl
      split at hr
      · cases hr
      split at hr
      · cases hr
      · cases hr
        rfl
    subst hflaw
    refine ⟨[], _, .atFront (List.cons_prefix_cons.2 ⟨rfl, List.take_prefix ..⟩)
      (List.cons_ne_nil _ _) (utf8Len_eq_length fun d hd ↦ utf8Size_of_mem_number hdigit hd).symm
      (by rintro _ ⟨⟩)⟩
  | symbol =>
    unfold symbol at hr
    split at hr
    · cases hr
    split at hr
    · cases hr
    split at hr
    · next hbang =>
      cases hr
      exact ⟨[], [c], .atFront ⟨cs, rfl⟩ (List.cons_ne_nil _ _) (by rw [hbang]; rfl)
        (by rintro _ ⟨⟩)⟩
    · cases hr
      exact ⟨[], [c], .atFront ⟨cs, rfl⟩ (List.cons_ne_nil _ _) (Nat.zero_add _).symm
        (by rintro _ ⟨⟩)⟩

/-! ### Errors -/

/-- A source that cannot be scanned has a piece with a flaw, and the error is about this flaw. -/
theorem flaw_of_scanFrom (found : List Token) (p : Position) (cs : List Char) :
    ∀ before e, p = Position.start.afterAll before → scanFrom found p cs = .error e →
      ∃ front c ds flaw, cs = front ++ c :: ds ∧ piece c ds = .error flaw ∧
        e = flaw.toError (Position.start.afterAll (before ++ front)) (c :: ds) := by
  induction found, p, cs using scanFrom.induct with
  | case1 found p =>
    intro before e _ he
    rw [scanFrom] at he
    cases he
  | case2 found p c cs flaw hpiece =>
    rintro before e rfl he
    rw [scanFrom, hpiece] at he
    cases he
    exact ⟨[], c, cs, flaw, rfl, hpiece, by rw [List.append_nil]⟩
  | case3 found p c cs front more hpiece taken found' ih =>
    rintro before e rfl he
    rw [scanFrom, hpiece] at he
    obtain ⟨front', d, ds, flaw, hcs, hflaw, rfl⟩ :=
      ih (before ++ taken) e (Position.afterAll_append ..).symm he
    refine ⟨taken ++ front', d, ds, flaw, ?_, hflaw, by rw [List.append_assoc]⟩
    rw [List.append_assoc, ← hcs]
    exact congrArg (c :: ·) (List.take_append_drop more cs).symm

/-- A place inside a character is not between two characters. -/
theorem not_isValid_inside {source : String} {before after : List Char} {c : Char} {k : Nat}
    (h : source.toList = before ++ c :: after) (hpos : 0 < k) (hlt : k < c.utf8Size) :
    ¬ String.Pos.Raw.IsValid source ⟨String.utf8Len before + k⟩ := by
  intro hvalid
  obtain ⟨i, hi⟩ := String.Pos.Raw.isValid_iff_exists_take_toList.1 hvalid
  rw [String.utf8ByteSize_ofList, h] at hi
  -- the characters before the place end before the character or behind it
  obtain hgt | hle := Nat.lt_or_ge before.length i
  · obtain ⟨n, rfl⟩ := Nat.exists_eq_add_of_lt hgt
    rw [Nat.add_assoc, List.take_length_add_append, List.take_succ_cons, String.utf8Len_append,
      String.utf8Len_cons] at hi
    simp only at hi
    omega
  · rw [List.take_append_of_le_length hle] at hi
    have hbytes := String.utf8Len_le_of_prefix (List.take_prefix i before)
    simp only at hi
    omega

namespace Token.Flaw.Marks

variable {flaw : Flaw} {text skipped marked : List Char}

theorem bytes_bounds (h : flaw.Marks text skipped marked) :
    0 < flaw.cause.bytes marked ∧ flaw.cause.bytes marked ≤ String.utf8Len marked := by
  unfold ScanError.Cause.bytes
  split
  · next c hcause =>
    have hpos := c.utf8Size_pos
    have hslash : '\\'.utf8Size = 1 := by decide
    rw [h.escape c hcause, String.utf8Len_cons, String.utf8Len_cons, String.utf8Len_nil]
    omega
  · exact ⟨Nat.pos_of_ne_zero (mt String.utf8Len_eq_zero.1 h.nonempty), Nat.le_refl _⟩

/-- The marked text ends between two characters, unless a character of several bytes is escaped. -/
theorem isValid_iff (h : flaw.Marks text skipped marked) {source : String}
    {before after : List Char} (hsource : source.toList = before ++ (marked ++ after)) :
    String.Pos.Raw.IsValid source ⟨String.utf8Len before + flaw.cause.bytes marked⟩ ↔
      ∀ c, flaw.cause = .invalidEscape c → c.utf8Size = 1 := by
  unfold ScanError.Cause.bytes
  split
  · next c hcause =>
    have hslash : '\\'.utf8Size = 1 := by decide
    rw [h.escape c hcause] at hsource
    constructor
    · intro hvalid d hd
      cases hcause.symm.trans hd
      have hbehind : source.toList = before ++ ['\\'] ++ c :: after := by simpa using hsource
      -- Two bytes are marked, which end inside a longer character.
      by_contra hsize
      have hlt : 1 < c.utf8Size := by
        have hpos := c.utf8Size_pos
        omega
      refine not_isValid_inside hbehind Nat.one_pos hlt ?_
      rw [String.utf8Len_append, String.utf8Len_cons, String.utf8Len_nil, hslash]
      exact hvalid
    · intro hsize
      have hend : String.utf8Len (before ++ ['\\', c]) = String.utf8Len before + 2 := by
        rw [String.utf8Len_append, String.utf8Len_cons, String.utf8Len_cons, String.utf8Len_nil,
          hslash, hsize c hcause]
      rw [← hend]
      exact isValid_of_append (hsource.trans (List.append_assoc ..).symm)
  · next hcause =>
    refine ⟨fun _ c hc ↦ absurd hc (hcause c), fun _ ↦ ?_⟩
    rw [← String.utf8Len_append]
    exact isValid_of_append (hsource.trans (List.append_assoc ..).symm)

end Token.Flaw.Marks

/-- What an error says of the source that it is about. -/
structure ScanError.Marks (source : String) (e : ScanError) : Prop where
  nonempty : 0 < e.span.len
  inside : e.span.offset + e.span.len ≤ source.utf8ByteSize
  starts : String.Pos.Raw.IsValid source ⟨e.span.offset⟩
  /-- The marked text ends between two characters, except for escapes of a character of several
  bytes. -/
  stops : String.Pos.Raw.IsValid source ⟨e.span.offset + e.span.len⟩ ↔
    ∀ c, e.cause = .invalidEscape c → c.utf8Size = 1
  line : e.span.line = 1 + (textBetween source 0 e.span.offset).toList.count '\n'
  column : e.span.column = 1 + (lastLine (textBetween source 0 e.span.offset)).utf8ByteSize

/-- **What a scanning error marks.** The error of a source that cannot be scanned marks a stretch of
it that is not empty, begins between two characters and has the line and column of its offset. It
ends between two characters as well, unless it is about the escape of a character of several
bytes. -/
theorem marks_of_scan {source : String} {e : ScanError} (h : scan source = .error e) :
    e.Marks source := by
  obtain ⟨before, c, cs, flaw, hsource, hpiece, he⟩ :=
    flaw_of_scanFrom [] .start source.toList [] e rfl h
  obtain ⟨skipped, marked, hmarks⟩ := exists_marks_of_piece hpiece
  obtain ⟨after, hafter⟩ := hmarks.front
  have htext : source.toList = (before ++ skipped) ++ (marked ++ after) := by
    rw [hsource, ← hafter]
    simp
  have hfront := textBetween_front htext
  have hcause : e.cause = flaw.cause := by rw [he, Flaw.toError]
  have hlen : e.span.len = flaw.cause.bytes marked := by rw [he, Flaw.toError, hmarks.len_eq]
  have hplace : e.span.toPosition = Position.start.afterAll (before ++ skipped) := by
    rw [he, Flaw.toError, hmarks.skip_eq, ← hafter, List.append_assoc, List.take_left,
      List.nil_append, Position.afterAll_append]
  rw [afterAll_start] at hplace
  obtain ⟨hpos, hle⟩ := hmarks.bytes_bounds
  constructor
  · rwa [hlen]
  · rw [hplace, hlen, ← String.utf8Len_toList source, htext,
      String.utf8Len_append (before ++ skipped), String.utf8Len_append marked]
    exact Nat.add_le_add_left (Nat.le_trans hle (Nat.le_add_right ..)) _
  · rw [hplace]
    exact isValid_of_append htext
  · rw [hplace, hlen, hcause]
    exact hmarks.isValid_iff htext
  · rw [hplace, hfront, String.toList_ofList]
  · rw [hplace, hfront]

/-- The second line is a string with a character of two bytes and an unknown escape. -/
def unknownEscape : String := "x\n\"é\\q\""

/-- The error of these lines. -/
def unknownEscapeError : ScanError := ⟨.invalidEscape 'q', ⟨⟨2, 4, 5⟩, 2⟩⟩

/-- The mark is the escape on the second line, where the column counts bytes. -/
theorem marks_of_scan_unknownEscape :
    scan unknownEscape = .error unknownEscapeError ∧ unknownEscapeError.Marks unknownEscape := by
  have hscan : scan unknownEscape = .error unknownEscapeError := by with_unfolding_all rfl
  exact ⟨hscan, marks_of_scan hscan⟩

/-- **A mark may end inside a character**, if that character is escaped. -/
theorem mark_ends_inside_character :
    ∃ e, scan "\"\\é\"" = .error e ∧
      ¬ String.Pos.Raw.IsValid "\"\\é\"" ⟨e.span.offset + e.span.len⟩ := by
  refine ⟨⟨.invalidEscape 'é', ⟨⟨1, 2, 1⟩, 2⟩⟩, by with_unfolding_all rfl, ?_⟩
  exact @not_isValid_inside "\"\\é\"" ['"', '\\'] ['"'] 'é' 1 (by decide) (by decide) (by decide)

end SafariScript
