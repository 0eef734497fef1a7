import SafariScript.Proofs.Scanning.Bytes.Cursor
import SafariScript.Proofs.Scanning.Marks

/-!
# What a cursor on bytes reads

What is left behind the cursor (`Left`) says what each of its steps does. Its loops go on as long as
their rounds take something (`rounds_inl`, `rounds_utf8`), and a run of bytes is skipped as the run
of characters that they belong to (`skipWhile_utf8`), because each test that the scanner makes of a
byte is one that does not tell the characters outside of ASCII apart (`AsciiOnly`).
-/

namespace SafariScript

open Token

/-! ### Places -/

namespace Position

variable (p : Position)

/-- The place that follows the bytes `bs`, when the first of them stands at `p`. -/
def afterBytes (bs : List UInt8) : Position := bs.foldl afterByte p

theorem afterBytes_append (bs cs : List UInt8) :
    p.afterBytes (bs ++ cs) = (p.afterBytes bs).afterBytes cs := List.foldl_append

/-- The offset counts bytes. -/
theorem offset_afterBytes (bs : List UInt8) :
    (p.afterBytes bs).offset = p.offset + bs.length := by
  induction bs generalizing p with
  | nil => rfl
  | cons b bs ih =>
    have hbyte : (p.afterByte b).offset = p.offset + 1 := by
      unfold afterByte
      split <;> rfl
    show ((p.afterByte b).afterBytes bs).offset = _
    rw [ih, hbyte, List.length_cons]
    omega

/-- Without line feeds the column counts bytes, too. -/
theorem afterBytes_of_ne {bs : List UInt8} (h : ∀ b ∈ bs, b ≠ 0x0a) :
    p.afterBytes bs = ⟨p.line, p.column + bs.length, p.offset + bs.length⟩ := by
  induction bs generalizing p with
  | nil => rfl
  | cons b bs ih =>
    obtain ⟨hb, hbs⟩ := List.forall_mem_cons.1 h
    show (p.afterByte b).afterBytes bs = _
    rw [ih _ hbs, afterByte, if_neg hb, List.length_cons]
    simp only [mk.injEq, true_and]
    omega

/-- The bytes of a character lead to the same place as the character. -/
theorem afterBytes_utf8EncodeChar (c : Char) :
    p.afterBytes (String.utf8EncodeChar c) = p.after c := by
  by_cases hc : c = '\n'
  · subst hc
    rfl
  · have hne : ∀ b ∈ String.utf8EncodeChar c, b ≠ 0x0a := by
      rintro b hb rfl
      exact hc (eq_of_mem_utf8EncodeChar hb (by decide))
    rw [afterBytes_of_ne p hne, after, if_neg hc, String.length_utf8EncodeChar]

/-- The bytes of characters lead to the place to which the characters lead. -/
theorem afterBytes_utf8 (cs : List Char) : p.afterBytes (utf8 cs) = p.afterAll cs := by
  induction cs generalizing p with
  | nil => rfl
  | cons c cs ih => rw [utf8_cons, afterBytes_append, afterBytes_utf8EncodeChar, ih, afterAll_cons]

/-- To go on from a place behind some characters is to go past more of them. -/
theorem afterAll_take_add {all cs : List Char} {n : Nat} (hdrop : all.drop n = cs) (k : Nat) :
    (p.afterAll (all.take n)).afterAll (cs.take k) = p.afterAll (all.take (n + k)) := by
  rw [← afterAll_append, List.take_add, hdrop]

end Position

/-! ### What is left of the bytes -/

/-- From `p` on, these bytes are left of all the bytes. -/
def Left (bytes : List UInt8) (p : Position) (bs : List UInt8) : Prop := bytes.drop p.offset = bs

namespace Left

variable {bytes bs rest : List UInt8} {p : Position} {b : UInt8}

/-- Behind some bytes the others are left. -/
theorem after (h : Left bytes p (bs ++ rest)) : Left bytes (p.afterBytes bs) rest := by
  rw [Left, Position.offset_afterBytes, ← List.drop_drop, h, List.drop_left]

/-- Behind some characters the bytes of the others are left. -/
theorem afterAll {cs ds : List Char} (h : Left bytes p (utf8 (cs ++ ds))) :
    Left bytes (p.afterAll cs) (utf8 ds) := by
  rw [utf8_append] at h
  rw [← Position.afterBytes_utf8]
  exact h.after

theorem tail {c : Char} {cs : List Char} (h : Left bytes p (utf8 (c :: cs))) :
    Left bytes (p.after c) (utf8 cs) := by
  have hleft : Left bytes p (utf8 ([c] ++ cs)) := h
  exact hleft.afterAll

/-- Behind a number of characters the bytes of the others are left. -/
theorem drop {all cs : List Char} {n : Nat} (h : Left bytes p (utf8 all))
    (hdrop : all.drop n = cs) : Left bytes (p.afterAll (all.take n)) (utf8 cs) := by
  rw [← List.take_append_drop n all, hdrop] at h
  exact h.afterAll

/-- What is left is as long as the bytes behind the place. -/
theorem length_eq (h : Left bytes p bs) : bytes.length - p.offset = bs.length := by
  rw [← h, List.length_drop]

/-- To look ahead in the bytes is to look into what is left. -/
theorem getElem?_eq (h : Left bytes p bs) (i : Nat) : bytes[p.offset + i]? = bs[i]? := by
  rw [← h, List.getElem?_drop]

end Left

namespace ByteCursor

variable {α β : Type} {bytes bs rest : List UInt8} {p q : Position}

/-- The first of the bytes, read as a character, or the character zero. -/
def front (bs : List UInt8) : Char := Char.ofUInt8 (bs.headD 0)

theorem here_eq : here bytes p = some (.ok (p, p)) := rfl

/-- The cursor is at the end if nothing is left. -/
theorem atEnd_eq (h : Left bytes p bs) : atEnd bytes p = some (.ok (bs.isEmpty, p)) := by
  have hend : decide (bytes.length ≤ p.offset) = bs.isEmpty := by
    rw [← h, Bool.eq_iff_iff, decide_eq_true_iff, List.isEmpty_iff, List.drop_eq_nil_iff]
  rw [atEnd, hend]

/-- The cursor sees the first byte that is left. -/
theorem peek_eq (h : Left bytes p bs) : peek bytes p = some (.ok (front bs, p)) := by
  have hget := h.getElem?_eq 0
  rw [Nat.add_zero] at hget
  rw [peek, List.getD_eq_getElem?_getD, hget, front, List.headD_eq_head?_getD,
    List.head?_eq_getElem?]

/-- The cursor sees the second byte that is left. -/
theorem peekNext_eq (h : Left bytes p bs) : peekNext bytes p = some (.ok (front bs.tail, p)) := by
  rw [peekNext, List.getD_eq_getElem?_getD, h.getElem?_eq 1, front, List.headD_eq_head?_getD,
    List.head?_tail]

/-- The cursor takes the first byte that is left. -/
theorem advance_eq {b : UInt8} (h : Left bytes p (b :: bs)) :
    advance bytes p = some (.ok (b, p.afterByte b)) := by
  have hget := h.getElem?_eq 0
  rw [Nat.add_zero] at hget
  rw [advance, hget]
  rfl

/-- The rest goes on at the place that was reached. -/
theorem bind_of_ok {x : ByteCursor α} {a : α} (h : x bytes p = some (.ok (a, q)))
    (f : α → ByteCursor β) : (x >>= f) bytes p = f a bytes q := by
  show (ExceptT.bind (x bytes p) fun r ↦ f r.1 bytes r.2 : ExceptT _ _ _) = _
  rw [h]
  rfl

/-- After an error nothing goes on. -/
theorem bind_of_error {x : ByteCursor α} {e : ScanReport} (h : x bytes p = some (.error e))
    (f : α → ByteCursor β) : (x >>= f) bytes p = some (.error e) := by
  show (ExceptT.bind (x bytes p) fun r ↦ f r.1 bytes r.2 : ExceptT _ _ _) = _
  rw [h]
  rfl

/-! ### Loops -/

section Rounds

variable {round : α → ByteCursor (α ⊕ β)} {a : α}

/-- The last round of a loop. -/
theorem rounds_inr {b : β} (h : round a bytes p = some (.ok (.inr b, q))) :
    rounds round a bytes p = some (.ok (b, q)) := by
  rw [rounds, roundsFrom, h]

/-- A loop fails with its round. -/
theorem rounds_error {e : ScanReport} (h : round a bytes p = some (.error e)) :
    rounds round a bytes p = some (.error e) := by
  rw [rounds, roundsFrom, h]

/-- A round that takes bytes goes on with the next one. -/
theorem rounds_inl {a' : α} (hleft : Left bytes p (bs ++ rest)) (hbs : bs ≠ [])
    (h : round a bytes p = some (.ok (.inl a', p.afterBytes bs))) :
    rounds round a bytes p = rounds round a' bytes (p.afterBytes bs) := by
  have hlength := hleft.length_eq
  have hafter := hleft.after.length_eq
  have hpos := List.length_pos_iff.2 hbs
  rw [List.length_append] at hlength
  have hless : bytes.length - (p.afterBytes bs).offset < bytes.length - p.offset := by omega
  rw [rounds, roundsFrom, h, rounds]
  exact if_pos hless

/-- A round that takes characters goes on with the next one. -/
theorem rounds_utf8 {a' : α} {cs ds : List Char} (hleft : Left bytes p (utf8 (cs ++ ds)))
    (hcs : cs ≠ []) (hq : p.afterAll cs = q) (h : round a bytes p = some (.ok (.inl a', q))) :
    rounds round a bytes p = rounds round a' bytes q := by
  obtain ⟨c, cs, rfl⟩ := List.exists_cons_of_ne_nil hcs
  rw [utf8_append] at hleft
  rw [← Position.afterBytes_utf8] at hq
  subst hq
  exact rounds_inl hleft (utf8_cons_ne_nil c cs) h

end Rounds

/-- Bytes are skipped as long as they pass the test. -/
theorem skipWhile_eq {more : ByteCursor Bool} {test : UInt8 → Bool}
    (hmore : ∀ {p bs}, Left bytes p bs → more bytes p = some (.ok (bs.head?.any test, p)))
    (h : Left bytes p bs) :
    skipWhile more bytes p = some (.ok ((), p.afterBytes (bs.takeWhile test))) := by
  induction bs generalizing p with
  | nil =>
    refine rounds_inr ?_
    rw [skipRound, bind_of_ok (hmore h)]
    rfl
  | cons b bs ih =>
    by_cases hb : test b = true
    · have hround : skipRound more () bytes p = some (.ok (.inl (), p.afterBytes [b])) := by
        rw [skipRound, bind_of_ok (hmore h), List.head?_cons, Option.any_some, if_pos hb,
          bind_of_ok (advance_eq h)]
        rfl
      have hleft : Left bytes p ([b] ++ bs) := h
      rw [skipWhile, rounds_inl hleft (List.cons_ne_nil _ _) hround, List.takeWhile_cons_of_pos hb]
      exact ih hleft.after
    · refine rounds_inr ?_
      rw [skipRound, bind_of_ok (hmore h), List.head?_cons, Option.any_some, if_neg hb,
        List.takeWhile_cons_of_neg hb]
      rfl

end ByteCursor

/-! ### Tests of characters -/

/-- A character of ASCII is one byte, which has its number. -/
theorem utf8EncodeChar_ascii {c : Char} (hc : c.toNat < 0x80) :
    String.utf8EncodeChar c = [c.val.toUInt8] ∧ Char.ofUInt8 c.val.toUInt8 = c := by
  have hsize : c.utf8Size = 1 := Char.utf8Size_eq_one_iff.2 (UInt32.le_iff_toNat_le.2 (by
    show c.toNat ≤ 127
    omega))
  have hbytes := String.utf8EncodeChar_eq_singleton hsize
  refine ⟨hbytes, (eq_of_mem_utf8EncodeChar (hbytes ▸ List.mem_singleton_self _) ?_).symm⟩
  refine UInt8.lt_iff_toNat_lt.2 ?_
  show c.toNat % 256 < 128
  omega

/-- A function does not tell the characters outside of ASCII apart. -/
def AsciiOnly {α : Type} (f : Char → α) : Prop :=
  ∀ c d : Char, 0x80 ≤ c.toNat → 0x80 ≤ d.toNat → f c = f d

/-- Such a function has the same value on a character and on each of its bytes. -/
theorem AsciiOnly.apply {α : Type} {f : Char → α} (hf : AsciiOnly f) {c : Char} {b : UInt8}
    (hb : b ∈ String.utf8EncodeChar c) : f (Char.ofUInt8 b) = f c := by
  by_cases hlt : b < 0x80
  · rw [eq_of_mem_utf8EncodeChar hb hlt]
  · refine hf _ _ ?_ ?_
    · show 0x80 ≤ b.toUInt32.toNat
      rw [UInt8.toNat_toUInt32]
      exact UInt8.le_iff_toNat_le.1 (UInt8.not_lt.1 hlt)
    · by_contra hsmall
      obtain ⟨hbytes, -⟩ := utf8EncodeChar_ascii (Nat.lt_of_not_le hsmall)
      rw [hbytes, List.mem_singleton] at hb
      subst hb
      refine hlt (UInt8.lt_iff_toNat_lt.2 ?_)
      show c.toNat % 256 < 128
      omega

/-- A character has a first byte. -/
theorem exists_cons_utf8EncodeChar (c : Char) :
    ∃ b bs, String.utf8EncodeChar c = b :: bs ∧ b ∈ String.utf8EncodeChar c := by
  obtain ⟨b, bs, hbs⟩ := List.exists_cons_of_ne_nil (String.utf8EncodeChar_ne_nil (c := c))
  exact ⟨b, bs, hbs, hbs ▸ List.mem_cons_self⟩

/-- A character of several bytes is none of a single byte. -/
theorem ne_of_le_toNat {c d : Char} (hc : 0x80 ≤ c.toNat) (hd : d.toNat < 0x80) : c ≠ d := by
  rintro rfl
  omega

namespace AsciiOnly

variable {α : Type} {f : Char → α}

/-- A test with one outcome for all characters of several bytes. -/
theorem of_eq (a : α) (h : ∀ c : Char, 0x80 ≤ c.toNat → f c = a) : AsciiOnly f :=
  fun c d hc hd ↦ (h c hc).trans (h d hd).symm

/-- The comparison with a character of a single byte. -/
theorem beq {d : Char} (hd : d.toNat < 0x80) : AsciiOnly (· == d) :=
  .of_eq false fun _ hc ↦ beq_false_of_ne (ne_of_le_toNat hc hd)

theorem ne {d : Char} (hd : d.toNat < 0x80) : AsciiOnly fun c ↦ decide (c ≠ d) :=
  .of_eq true fun _ hc ↦ decide_eq_true (ne_of_le_toNat hc hd)

/-- Digits are single bytes. -/
theorem isDigit : AsciiOnly Text.isDigit := by
  refine .of_eq false fun c hc ↦ ?_
  have hnine : ¬ c ≤ '9' := fun hle ↦ absurd (UInt32.le_iff_toNat_le.1 hle) (by
    show ¬ c.toNat ≤ 57
    omega)
  rw [Text.isDigit, decide_eq_false hnine, Bool.and_false]

/-- Words begin with a single byte. -/
theorem isWordStart : AsciiOnly isWordStart := by
  refine .of_eq false fun c hc ↦ ?_
  have hz : ¬ c ≤ 'z' := fun hle ↦ absurd (UInt32.le_iff_toNat_le.1 hle) (by
    show ¬ c.toNat ≤ 122
    omega)
  have hZ : ¬ c ≤ 'Z' := fun hle ↦ absurd (UInt32.le_iff_toNat_le.1 hle) (by
    show ¬ c.toNat ≤ 90
    omega)
  rw [Token.isWordStart, decide_eq_false hz, decide_eq_false hZ,
    beq_false_of_ne (ne_of_le_toNat hc (by decide)), Bool.and_false, Bool.and_false]
  rfl

theorem isWordPart : AsciiOnly isWordPart := fun c d hc hd ↦
  congrArg₂ or (isWordStart c d hc hd) (isDigit c d hc hd)

/-- Blank characters are single bytes. -/
theorem isSpace : AsciiOnly isSpace := by
  refine .of_eq false fun c hc ↦ ?_
  have hascii : [' ', '\t', '\r', '\n'].all (fun d ↦ decide (d.toNat < 0x80)) = true := by decide
  rw [Bool.eq_false_iff, ne_eq, isSpace_iff]
  exact fun hmem ↦ ne_of_le_toNat hc (of_decide_eq_true (List.all_eq_true.1 hascii c hmem)) rfl

theorem pair? (c : Char) : AsciiOnly (pair? c) := by
  refine .of_eq none fun d hd ↦ ?_
  unfold Token.pair?
  split
  case h_6 => rfl
  all_goals exact absurd hd (by decide)

/-- At the front of the bytes of characters, such a function finds the first character. -/
theorem front (hf : AsciiOnly f) (cs : List Char) :
    f (ByteCursor.front (utf8 cs)) = f (cs.headD (Char.ofUInt8 0)) := by
  cases cs with
  | nil => rfl
  | cons c cs =>
    obtain ⟨b, bs, hbs, hb⟩ := exists_cons_utf8EncodeChar c
    rw [utf8_cons, hbs]
    exact hf.apply hb

/-- A run of characters is a run of bytes. -/
theorem takeWhile_utf8 {test : Char → Bool} (ht : AsciiOnly test) (cs : List Char) :
    (utf8 cs).takeWhile (fun b ↦ test (Char.ofUInt8 b)) = utf8 (cs.takeWhile test) := by
  induction cs with
  | nil => rfl
  | cons c cs ih =>
    rw [utf8_cons]
    by_cases hc : test c = true
    · rw [List.takeWhile_append_of_pos fun b hb ↦ (ht.apply hb).trans hc, ih,
        List.takeWhile_cons_of_pos hc, utf8_cons]
    · obtain ⟨b, bs, hbs, hmem⟩ := exists_cons_utf8EncodeChar c
      have hb : ¬ test (Char.ofUInt8 b) = true := by rwa [ht.apply hmem]
      have hfront : (b :: (bs ++ utf8 cs)).takeWhile (fun b ↦ test (Char.ofUInt8 b)) = [] :=
        List.takeWhile_cons_of_neg hb
      rw [hbs, List.cons_append, hfront, List.takeWhile_cons_of_neg hc]
      rfl

end AsciiOnly

namespace ByteCursor

variable {α β : Type} {bytes bs rest : List UInt8} {p q : Position} {cs ds : List Char}

/-- A character of ASCII is taken as its byte. -/
theorem advance_char {c : Char} (hc : c.toNat < 0x80) (h : Left bytes p (utf8 (c :: cs))) :
    advance bytes p = some (.ok (c.val.toUInt8, p.after c)) := by
  rw [utf8_cons, (utf8EncodeChar_ascii hc).1] at h
  rw [advance_eq h, ← Position.afterBytes_utf8EncodeChar, (utf8EncodeChar_ascii hc).1]
  rfl

/-! ### Runs of characters -/

/-- A cursor that skips bytes by a test skips the characters with it. -/
theorem skipWhile_utf8 {more : ByteCursor Bool} {test : Char → Bool} (ht : AsciiOnly test)
    (hmore : ∀ {p bs}, Left bytes p bs →
      more bytes p = some (.ok (bs.head?.any fun b ↦ test (Char.ofUInt8 b), p)))
    (h : Left bytes p (utf8 cs)) :
    skipWhile more bytes p = some (.ok ((), p.afterAll (cs.takeWhile test))) := by
  rw [skipWhile_eq hmore h, ht.takeWhile_utf8, Position.afterBytes_utf8]

/-- The cursor skips blank characters. -/
theorem skipSpace_eq (h : Left bytes p (utf8 cs)) :
    skipSpace bytes p = some (.ok ((), p.afterAll (cs.takeWhile isSpace))) := by
  refine skipWhile_utf8 .isSpace (fun {p bs} h ↦ ?_) h
  rw [bind_of_ok (atEnd_eq h), bind_of_ok (peek_eq h)]
  cases bs <;> rfl

/-- The cursor skips the rest of the line. -/
theorem skipLine_eq (h : Left bytes p (utf8 cs)) :
    skipLine bytes p = some (.ok ((), p.afterAll (cs.takeWhile (· ≠ '\n')))) := by
  refine skipWhile_utf8 (.ne (by decide)) (fun {p bs} h ↦ ?_) h
  rw [bind_of_ok (atEnd_eq h), bind_of_ok (peek_eq h)]
  cases bs <;> rfl

theorem skipDigits_eq (h : Left bytes p (utf8 cs)) :
    skipDigits bytes p = some (.ok ((), p.afterAll (cs.takeWhile Text.isDigit))) := by
  refine skipWhile_utf8 .isDigit (fun {p bs} h ↦ ?_) h
  rw [bind_of_ok (peek_eq h)]
  cases bs <;> rfl

theorem skipWord_eq (h : Left bytes p (utf8 cs)) :
    skipWord bytes p = some (.ok ((), p.afterAll (cs.takeWhile isWordPart))) := by
  refine skipWhile_utf8 .isWordPart (fun {p bs} h ↦ ?_) h
  rw [bind_of_ok (peek_eq h)]
  cases bs <;> rfl

/-- A text is cut out between characters. -/
theorem textFrom_eq {start : Position} (h : Left bytes start (utf8 (cs ++ ds))) :
    textFrom start.offset bytes (start.afterAll cs) =
      some (.ok (String.ofList cs, start.afterAll cs)) := by
  have hoffset : (start.afterAll cs).offset - start.offset = (utf8 cs).length := by
    rw [← Position.afterBytes_utf8, Position.offset_afterBytes]
    omega
  have htext := fromUTF8?_utf8 (String.ofList cs)
  rw [String.toList_ofList] at htext
  rw [textFrom, hoffset, h, utf8_append, List.take_left, htext]
  rfl

end ByteCursor

end SafariScript
