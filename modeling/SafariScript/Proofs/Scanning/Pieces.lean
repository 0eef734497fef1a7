import SafariScript.Token.Scan

/-!
# Pieces of a text

The scanner cuts a text into pieces. `PieceAt` says what it finds at the front of a text, with one
rule for each **way in which it finds it**; `pieceAt_iff` says that these are all the ways, and that
no two of them apply to one text. Arguments about the scanner split by these rules and do not look
at the scanner again.
-/

namespace SafariScript

open Token

/-! ### Characters of a class -/

/-- The longest beginning of characters of a class, as so many characters of the text. -/
theorem take_takeWhile (p : Char → Bool) (cs : List Char) :
    cs.take (cs.takeWhile p).length = cs.takeWhile p :=
  (List.prefix_iff_eq_take.1 (List.takeWhile_prefix p)).symm

/-- The characters of a class differ from a character that does not belong to it. -/
theorem ne_of_class {p : Char → Bool} {c d : Char} (hc : p c = true) (hd : p d = false) :
    c ≠ d := by
  rintro rfl
  rw [hc] at hd
  cases hd

theorem isSpace_iff {c : Char} : isSpace c = true ↔ c ∈ [' ', '\t', '\r', '\n'] := by
  simp [isSpace, or_assoc]

/-- Blank space does not belong to a class if none of the four blank characters does. -/
theorem eq_false_of_isSpace {p : Char → Bool} {c : Char} (hc : isSpace c = true)
    (hblank : [' ', '\t', '\r', '\n'].any p = false) : p c = false :=
  Bool.eq_false_iff.2 (List.any_eq_false.1 hblank c (isSpace_iff.1 hc))

/-- The characters of a class are no blank space if the four blank ones do not belong to it. -/
theorem isSpace_eq_false_of_class {p : Char → Bool} {c : Char} (hc : p c = true)
    (hblank : [' ', '\t', '\r', '\n'].any p = false) : isSpace c = false := by
  rw [Bool.eq_false_iff]
  intro hspace
  exact ne_of_class hc (eq_false_of_isSpace hspace hblank) rfl

/-- No word begins with a digit. -/
theorem isDigit_of_isWordStart {c : Char} (h : isWordStart c = true) : Text.isDigit c = false := by
  rw [Bool.eq_false_iff]
  intro hdigit
  simp only [isWordStart, Text.isDigit, Bool.or_eq_true, Bool.and_eq_true, decide_eq_true_eq,
    beq_iff_eq, Char.le_def, UInt32.le_iff_toNat_le] at h hdigit
  obtain (hsmall | hcapital) | rfl := h
  · have hbetween : '9'.val.toNat < 'a'.val.toNat := by decide
    omega
  · have hbetween : '9'.val.toNat < 'A'.val.toNat := by decide
    omega
  · revert hdigit
    decide

/-- Behind the longest beginning of characters of a class, the text ends or a character stands that
does not belong to the class. -/
theorem drop_takeWhile (p : Char → Bool) (cs : List Char) :
    cs.drop (cs.takeWhile p).length = cs.dropWhile p ∧
      ∀ c ∈ (cs.dropWhile p).head?, p c = false := by
  constructor
  · have h := congrArg (List.drop (cs.takeWhile p).length) (List.takeWhile_append_dropWhile (p := p)
      (l := cs))
    rw [List.drop_left] at h
    exact h.symm
  · intro c hc
    have h := List.head?_dropWhile_not p cs
    rw [Option.mem_def.1 hc] at h
    simpa using h

/-- Characters of a class stand in front of a text that does not go on in the class. -/
theorem span_append {p : Char → Bool} {cs r : List Char} (hcs : cs.all p = true)
    (hr : ∀ c ∈ r.head?, p c = false) :
    (cs ++ r).takeWhile p = cs ∧ (cs ++ r).dropWhile p = r := by
  have hall := List.all_eq_true.1 hcs
  rw [List.takeWhile_append_of_pos hall, List.dropWhile_append_of_pos hall]
  cases r with
  | nil => exact ⟨List.append_nil _, rfl⟩
  | cons c r =>
    have hc : ¬ p c = true := Bool.eq_false_iff.1 (hr c rfl)
    rw [List.takeWhile_cons_of_neg hc, List.dropWhile_cons_of_neg hc]
    exact ⟨List.append_nil _, rfl⟩

/-! ### Numbers -/

/-- The digits behind the point of a number, if a point with digits follows its first digits. -/
def fractionDigits (cs : List Char) : List Char :=
  match cs.dropWhile Text.isDigit with
  | '.' :: ds => ds.takeWhile Text.isDigit
  | _ => []

/-- How many characters behind its first digit belong to a number. -/
def numberLength (cs : List Char) : Nat :=
  if (fractionDigits cs).isEmpty then (cs.takeWhile Text.isDigit).length
  else (cs.takeWhile Text.isDigit).length + 1 + (fractionDigits cs).length

/-- A number is a run of digits, or two of them with a point between. -/
theorem numberLength_cases (cs : List Char) :
    (fractionDigits cs = [] ∧ numberLength cs = (cs.takeWhile Text.isDigit).length) ∨
    ∃ ds, cs = cs.takeWhile Text.isDigit ++ '.' :: ds ∧
      numberLength cs =
        (cs.takeWhile Text.isDigit).length + 1 + (ds.takeWhile Text.isDigit).length := by
  by_cases hfraction : fractionDigits cs = []
  · exact .inl ⟨hfraction, if_pos (by rw [hfraction]; rfl)⟩
  · refine .inr ?_
    have hlength : numberLength cs =
        (cs.takeWhile Text.isDigit).length + 1 + (fractionDigits cs).length :=
      if_neg (by rwa [List.isEmpty_iff])
    rw [hlength]
    unfold fractionDigits at hfraction ⊢
    split at hfraction
    · next ds hds =>
      exact ⟨ds, by rw [← hds, List.takeWhile_append_dropWhile], rfl⟩
    · exact absurd rfl hfraction

/-- The word that the digits of a number run into, if they do. -/
def gluedWord (cs : List Char) : List Char := (cs.drop (numberLength cs)).takeWhile isWordPart

/-- The flaw of a number that is invalid: it marks the number and the word it runs into. -/
def numberFlaw (c : Char) (cs : List Char) : Flaw :=
  let text := c :: cs.take (numberLength cs + (gluedWord cs).length)
  .atFront (.invalidNumber (String.ofList text)) text.length

theorem number_eq (c : Char) (cs : List Char) : number c cs =
    if !(gluedWord cs).isEmpty then .error (numberFlaw c cs)
    else if !(fractionDigits cs).isEmpty then
      .ok (.token (.literal (.decimal (Decimal.ofDigits (c :: cs.takeWhile Text.isDigit)
        (fractionDigits cs)))), numberLength cs)
    else if Text.digitsValue (c :: cs.takeWhile Text.isDigit) ≤ maxInt then
      .ok (.token (.literal (.int (Int64.ofNat
        (Text.digitsValue (c :: cs.takeWhile Text.isDigit))))), numberLength cs)
    else .error (numberFlaw c cs) := rfl

/-- A number is a literal of that length, or invalid. -/
theorem number_cases (c : Char) (cs : List Char) :
    (∃ value, number c cs = .ok (.token (.literal value), numberLength cs)) ∨
      ∃ text len, number c cs = .error (.atFront (.invalidNumber text) len) := by
  rw [number_eq]
  split
  · exact .inr ⟨_, _, rfl⟩
  · split
    · exact .inl ⟨_, rfl⟩
    · split
      · exact .inl ⟨_, rfl⟩
      · exact .inr ⟨_, _, rfl⟩

theorem take_append_cons (ds : List Char) (c : Char) (cs : List Char) (n : Nat) :
    (ds ++ c :: cs).take (ds.length + 1 + n) = ds ++ c :: cs.take n := by
  rw [Nat.add_assoc, List.take_length_add_append, Nat.add_comm 1, List.take_succ_cons]

/-! ### Pieces -/

/-- What the scanner finds at the front of a text, by the way it finds it. -/
inductive PieceAt : Char → List Char → Except Flaw (Piece × Nat) → Prop
  | space {c : Char} {cs : List Char} : isSpace c = true →
    PieceAt c cs (.ok (.gap, (cs.takeWhile isSpace).length))
  | lineComment (cs : List Char) :
    PieceAt '/' ('/' :: cs) (.ok (.gap, (cs.takeWhile (· ≠ '\n')).length + 1))
  | blockComment {cs : List Char} {n : Nat} : commentLength 1 cs = some n →
    PieceAt '/' ('*' :: cs) (.ok (.gap, n))
  | openComment {cs : List Char} : commentLength 1 cs = none →
    PieceAt '/' ('*' :: cs) (.error (.atFront .unterminatedComment 2))
  | string {cs : List Char} {value : String} {n : Nat} : stringBody [] 0 cs = .ok (value, n) →
    PieceAt '"' cs (.ok (.token (.literal (.str value)), n))
  | badString {cs : List Char} {flaw : Flaw} : stringBody [] 0 cs = .error flaw →
    PieceAt '"' cs (.error flaw)
  | number {c : Char} {cs : List Char} : Text.isDigit c = true → PieceAt c cs (number c cs)
  | word {c : Char} {cs : List Char} : isWordStart c = true → PieceAt c cs (.ok (word c cs))
  | symbol {c : Char} {cs : List Char} : isSpace c = false → c ≠ '"' → Text.isDigit c = false →
    isWordStart c = false → (c = '/' → cs.head? ≠ some '/') → (c = '/' → cs.head? ≠ some '*') →
    PieceAt c cs (symbol c cs)

theorem pieceAt_piece (c : Char) (cs : List Char) : PieceAt c cs (piece c cs) := by
  unfold piece
  split
  · next hspace => exact .space hspace
  next hspace =>
  split
  · next hline =>
    obtain ⟨rfl, ds, rfl⟩ : c = '/' ∧ ∃ ds, cs = '/' :: ds := by
      simpa [List.head?_eq_some_iff] using hline
    exact .lineComment ds
  next hline =>
  split
  · next hblock =>
    obtain ⟨rfl, ds, rfl⟩ : c = '/' ∧ ∃ ds, cs = '*' :: ds := by
      simpa [List.head?_eq_some_iff] using hblock
    rw [List.tail_cons]
    split
    · next n hn => exact .blockComment hn
    · next hn => exact .openComment hn
  next hblock =>
  split
  · next hquote =>
    subst hquote
    cases hbody : stringBody [] 0 cs with
    | ok r => exact .string hbody
    | error flaw => exact .badString hbody
  next hquote =>
  split
  · next hdigit => exact .number hdigit
  next hdigit =>
  split
  · next hword => exact .word hword
  next hword =>
  refine .symbol (Bool.not_eq_true _ ▸ hspace) hquote (Bool.not_eq_true _ ▸ hdigit)
    (Bool.not_eq_true _ ▸ hword) ?_ ?_
  · rintro rfl
    simpa using hline
  · rintro rfl
    simpa using hblock

/-- The rules of `PieceAt` say what the scanner finds: they cover every text, and no two of them
apply to one text with different findings. -/
theorem pieceAt_iff {c : Char} {cs : List Char} {r : Except Flaw (Piece × Nat)} :
    PieceAt c cs r ↔ piece c cs = r := by
  refine ⟨fun h ↦ ?_, fun h ↦ h ▸ pieceAt_piece c cs⟩
  have hslash : isSpace '/' = false := by decide
  have hstring : ∀ cs, piece '"' cs =
      (stringBody [] 0 cs >>= fun r ↦ pure (.token (.literal (.str r.1)), r.2)) := by
    intro cs
    simp [piece, show isSpace '"' = false by decide]
  cases h with
  | space hspace => simp [piece, hspace]
  | lineComment ds => simp [piece, hslash]
  | blockComment hn => simp [piece, hslash, hn]
  | openComment hn => simp [piece, hslash, hn]
  | string hbody =>
    rw [hstring, hbody]
    rfl
  | badString hbody =>
    rw [hstring, hbody]
    rfl
  | number hdigit =>
    have hspace := isSpace_eq_false_of_class hdigit (by decide)
    have hc : c ≠ '/' := ne_of_class hdigit (by decide)
    have hc' : c ≠ '"' := ne_of_class hdigit (by decide)
    simp [piece, hspace, hc, hc', hdigit]
  | word hword =>
    have hspace := isSpace_eq_false_of_class hword (by decide)
    have hc : c ≠ '/' := ne_of_class hword (by decide)
    have hc' : c ≠ '"' := ne_of_class hword (by decide)
    simp [piece, hspace, hc, hc', isDigit_of_isWordStart hword, hword]
  | symbol hspace hc hdigit hword hline hblock =>
    have hnoLine : (decide (c = '/') && cs.head? == some '/') = false := by simpa using hline
    have hnoBlock : (decide (c = '/') && cs.head? == some '*') = false := by simpa using hblock
    simp only [piece, hspace, hnoLine, hnoBlock, hc, hdigit, hword, if_false, Bool.false_eq_true]

/-- A token begins with no blank space, and it is not the mark of the end. -/
theorem token_of_piece {c : Char} {cs : List Char} {kind : Kind} {more : Nat}
    (h : piece c cs = .ok (.token kind, more)) : isSpace c = false ∧ kind ≠ .endOfInput := by
  have hpiece := pieceAt_iff.2 h
  generalize hr : (.ok (.token kind, more) : Except Flaw (Piece × Nat)) = r at hpiece
  cases hpiece with
  | space | lineComment | blockComment | openComment | badString => cases hr
  | string =>
    cases hr
    exact ⟨by decide, nofun⟩
  | number hdigit =>
    refine ⟨isSpace_eq_false_of_class hdigit (by decide), ?_⟩
    obtain ⟨value, hnumber⟩ | ⟨text, len, hnumber⟩ := number_cases c cs
    · rw [hnumber] at hr
      cases hr
      exact nofun
    · rw [hnumber] at hr
      cases hr
  | word hword =>
    cases hr
    refine ⟨isSpace_eq_false_of_class hword (by decide), ?_⟩
    unfold Kind.ofWord
    repeat' split
    all_goals exact nofun
  | symbol hspace =>
    refine ⟨hspace, ?_⟩
    unfold symbol at hr
    repeat' split at hr
    all_goals cases hr
    all_goals exact nofun

theorem commentLength_cons {n : Nat} {c : Char} {cs : List Char}
    (hc : ∀ ds, c = '*' → cs = '/' :: ds → False) :
    commentLength n (c :: cs) = commentLength (n + 1) cs := by
  rw [commentLength]
  exact hc

/-- A backslash begins an escape or ends the text. -/
theorem ne_backslash {c : Char} {cs : List Char}
    (hescape : ∀ d ds, c = '\\' → cs = d :: ds → False) (hlast : c = '\\' → cs = [] → False) :
    c ≠ '\\' := by
  rintro rfl
  cases cs with
  | nil => exact hlast rfl rfl
  | cons d ds => exact hescape d ds rfl rfl

theorem stringBody_cons {value : List Char} {n : Nat} {c : Char} {cs : List Char}
    (hquote : c ≠ '"') (hescape : c ≠ '\\') :
    stringBody value n (c :: cs) = stringBody (c :: value) (n + 1) cs := by
  rw [stringBody]
  · exact hquote
  · exact fun _ _ hc _ ↦ hescape hc
  · exact fun hc _ ↦ hescape hc

/-- A block comment ends with the first `*/`: of its text, `n` characters were counted before. -/
theorem commentLength_eq_some {n k : Nat} {cs : List Char} (h : commentLength n cs = some k) :
    ∃ body rest, cs = body ++ '*' :: '/' :: rest ∧ ¬ ['*', '/'] <:+: body ∧
      k = n + body.length + 2 := by
  induction n, cs using commentLength.induct with
  | case1 n cs =>
    cases h
    exact ⟨[], cs, rfl, by simp, rfl⟩
  | case2 n c cs hc ih =>
    rw [commentLength_cons hc] at h
    obtain ⟨body, rest, rfl, hbody, rfl⟩ := ih h
    refine ⟨c :: body, rest, rfl, fun hinfix ↦ ?_, by simp only [List.length_cons]; omega⟩
    obtain ⟨rest', hrest'⟩ | hinside := List.infix_cons_iff.1 hinfix
    · -- the comment would have ended here
      cases body with
      | nil => simp at hrest'
      | cons d body =>
        simp only [List.cons_append, List.nil_append, List.cons.injEq] at hrest'
        exact hc _ hrest'.1.symm (by rw [← hrest'.2.1]; rfl)
    · exact hbody hinside
  | case3 n => cases h

/-- A gap is a run of blank characters, a line comment or a block comment. -/
theorem gap_of_piece {c : Char} {cs : List Char} {more : Nat}
    (h : piece c cs = .ok (.gap, more)) :
    (isSpace c = true ∧ more = (cs.takeWhile isSpace).length) ∨
    (∃ ds, c = '/' ∧ cs = '/' :: ds ∧ more = (ds.takeWhile (· ≠ '\n')).length + 1) ∨
    ∃ ds, c = '/' ∧ cs = '*' :: ds ∧ commentLength 1 ds = some more := by
  have hpiece := pieceAt_iff.2 h
  generalize hr : (.ok (.gap, more) : Except Flaw (Piece × Nat)) = r at hpiece
  cases hpiece with
  | space hspace =>
    cases hr
    exact .inl ⟨hspace, rfl⟩
  | lineComment ds =>
    cases hr
    exact .inr (.inl ⟨ds, rfl, rfl, rfl⟩)
  | blockComment hn =>
    cases hr
    exact .inr (.inr ⟨_, rfl, rfl, hn⟩)
  | openComment | string | badString | word => cases hr
  | number =>
    obtain ⟨value, hnumber⟩ | ⟨text, len, hnumber⟩ := number_cases c cs
    · rw [hnumber] at hr
      cases hr
    · rw [hnumber] at hr
      cases hr
  | symbol =>
    unfold symbol at hr
    repeat' split at hr
    all_goals cases hr

end SafariScript
