import SafariScript.Proofs.Grammar.Cursor
import SafariScript.Proofs.Grammar.Reading

/-!
# Cursors that agree with parsers

Tokens are cut at their first mark of the end (`EndedTokens`). A cursor on all of them, at an index
up to that of the mark, and a parser that has the tokens from there up to the mark **agree** if they
fail alike, or give the same and arrive at such an index again (`Agrees`). So a cursor that agrees
with a parser never takes the mark, and what stands behind the mark makes no difference to it.

Sequences of readers that agree do so too. A loop agrees with a parser if each round does and moves
the cursor (`outcome_roundsFrom`). A single token may be taken where no mark of the end is accepted,
and without a look at it only where another kind of token is known to stand (`AgreesOn`).
-/

namespace SafariScript

/-! ### More on parsers -/

namespace Parser

variable {α : Type} {close : Symbol} {item : Parser α} {stop : Token} {ts : List Token}

/-- A token that is not accepted is the token of the error. -/
theorem run_take_of_none {accepts : Token → Option α} {cause : ParseError.Cause}
    (h : ∀ t ∈ ts.head?, accepts t = none) :
    (take accepts cause).run stop ts = .error ⟨cause, ts.headD stop⟩ := by
  cases ts with
  | nil => rfl
  | cons t ts => simp [take, split?, h t rfl]

/-- The items of a list of which some were found, in reverse order. -/
def itemsBehind (close : Symbol) (item : Parser α) (found : List α) : Parser (List α) :=
  whenClosed close (pure found.reverse) (item >>= fun a ↦
    loop (nextItem close item) (a :: found) >>= fun further ↦ pure further.reverse)

/-- Behind a comma there are further items. -/
theorem run_loop_nextItem (hclose : close ≠ .comma) {comma : Token}
    (hcomma : comma.isSymbol .comma = true) (found : List α) :
    (loop (nextItem close item) found >>= fun further ↦ pure further.reverse).run stop
      (comma :: ts) = (itemsBehind close item found).run stop ts := by
  have hround : nextItem close item found comma = some (whenClosed close (pure found)
      (item >>= fun a ↦ pure (a :: found))) := if_pos hcomma
  show runThen stop _ (loopRun _ stop found (comma :: ts)) = _
  -- A comma may be the last one, in front of what closes the items.
  by_cases hcl : Closes close ts
  · rw [loopRun_of_round hround (run_whenClosed_of_closes _ _ hcl), loopRun_of_stops,
      itemsBehind, run_whenClosed_of_closes _ _ hcl]
    · rfl
    · intro t ht
      refine if_neg fun hnext ↦ hclose ?_
      have hkind := (hcl t ht).symm.trans (Token.isSymbol_iff.1 hnext)
      cases hkind
      rfl
  · rw [itemsBehind, run_whenClosed_of_not_closes _ _ hcl, run_bind]
    have hrest : (whenClosed close (pure found) (item >>= fun a ↦ pure (a :: found))).run stop ts =
        _ := run_whenClosed_of_not_closes _ _ hcl
    rw [run_bind] at hrest
    cases hrun : item.run stop ts with
    | error e =>
      rw [hrun] at hrest
      rw [loopRun_of_error hround hrest]
      rfl
    | ok result =>
      rw [hrun] at hrest
      rw [loopRun_of_round hround hrest]
      rfl

end Parser

/-! ### Tokens with a mark of the end -/

namespace Token

variable {t : Token}

/-- There is one kind of mark of the end. -/
theorem kind_of_isEnd (h : t.kind.isEnd = true) : t.kind = .endOfInput := by
  cases hkind : t.kind with
  | endOfInput => rfl
  | _ => rw [hkind] at h; cases h

/-- A mark of the end is no symbol. -/
theorem isSymbol_of_isEnd (h : t.kind.isEnd = true) (s : Symbol) : t.isSymbol s = false := by
  rw [isSymbol, kind_of_isEnd h]

/-- A mark of the end is no keyword. -/
theorem isWord_of_isEnd (h : t.kind.isEnd = true) (k : Keyword) : t.isWord k = false := by
  rw [isWord, kind_of_isEnd h]

end Token

/-- Tokens up to their first mark of the end, that mark, and what stands behind it. -/
structure EndedTokens where
  front : List Token
  stop : Token
  behind : List Token
  isEnd_stop : stop.kind.isEnd = true
  isEnd_front : ∀ t ∈ front, t.kind.isEnd = false

namespace EndedTokens

variable (s : EndedTokens) {i : Nat}

/-- All the tokens. -/
def list : List Token := s.front ++ s.stop :: s.behind

/-- All the tokens, in an array. -/
def array : Array Token := s.list.toArray

/-- The tokens from an index up to the first mark of the end. -/
def left (i : Nat) : List Token := s.front.drop i

/-- The token at an index up to that of the first mark of the end. -/
def next (i : Nat) : Token := (s.left i).headD s.stop

/-- At the mark nothing is left. -/
theorem left_length : s.left s.front.length = [] := List.drop_length

/-- Before the mark a token is left, and it is the next one. -/
theorem left_of_lt (h : i < s.front.length) : s.left i = s.next i :: s.left (i + 1) := by
  rw [next, left, List.drop_eq_getElem_cons h]
  rfl

theorem length_left (i : Nat) : (s.left i).length = s.front.length - i := List.length_drop

/-- Up to the mark the array has the next token. -/
theorem array_getElem? (h : i ≤ s.front.length) : s.array[i]? = some (s.next i) := by
  rw [array, List.getElem?_toArray, list]
  obtain hlt | rfl := Nat.lt_or_eq_of_le h
  · rw [List.getElem?_append_left hlt, List.getElem?_eq_getElem hlt, next, left,
      List.drop_eq_getElem_cons hlt]
    rfl
  · rw [List.getElem?_append_right (Nat.le_refl _), Nat.sub_self, next, left_length]
    rfl

/-- The mark itself is in the array. -/
theorem length_lt_size : s.front.length < s.array.size := by
  simp [array, list]

/-- Of the tokens up to the first mark of the end, only the last one is such a mark. -/
theorem isEnd_next (h : i ≤ s.front.length) :
    (s.next i).kind.isEnd = true ↔ i = s.front.length := by
  obtain hlt | rfl := Nat.lt_or_eq_of_le h
  · have hmem : s.next i ∈ s.front :=
      List.drop_subset i s.front (by
        show s.next i ∈ s.left i
        rw [s.left_of_lt hlt]
        exact List.mem_cons_self)
    simp [s.isEnd_front _ hmem, Nat.ne_of_lt hlt]
  · simp [next, left_length, s.isEnd_stop]

/-- A list is closed by its symbol or by the mark of the end. -/
theorem closes_left (h : i ≤ s.front.length) {close : Symbol} :
    Parser.Closes close (s.left i) ↔
      ((s.next i).isSymbol close || (s.next i).kind.isEnd) = true := by
  rw [Bool.or_eq_true, s.isEnd_next h, Token.isSymbol_iff]
  obtain hlt | rfl := Nat.lt_or_eq_of_le h
  · rw [or_iff_left (Nat.ne_of_lt hlt), s.left_of_lt hlt]
    simp [Parser.Closes]
  · simp [Parser.Closes, s.left_length]

/-- A token that is not the mark stands before it. -/
theorem lt_of_isEnd_next (h : i ≤ s.front.length) (hend : (s.next i).kind.isEnd = false) :
    i < s.front.length := by
  refine Nat.lt_of_le_of_ne h fun heq ↦ ?_
  rw [(s.isEnd_next h).2 heq] at hend
  cases hend

/-- What is accepted stands before the mark of the end, if no such mark is accepted. -/
theorem lt_of_accepts {α : Type} {accepts : Token → Option α} {a : α} (h : i ≤ s.front.length)
    (hends : ∀ t, t.kind.isEnd = true → accepts t = none) (ht : accepts (s.next i) = some a) :
    i < s.front.length := by
  refine s.lt_of_isEnd_next h (Bool.eq_false_iff.2 fun hend ↦ ?_)
  rw [hends _ hend] at ht
  cases ht

/-- What a parser sees first is the next token. -/
theorem eq_next_of_mem_head? {t : Token} (h : t ∈ (s.left i).head?) : t = s.next i := by
  obtain ⟨ts, hts⟩ := List.head?_eq_some_iff.1 h
  rw [next, hts]
  rfl

end EndedTokens

namespace Cursor

variable {α β : Type}

/-- The rest goes on at the index that was reached. -/
theorem bind_of_ok {c : Cursor α} {tokens : Array Token} {i j : Nat} {a : α}
    (h : c tokens i = .ok (a, j)) (f : α → Cursor β) : (c >>= f) tokens i = f a tokens j := by
  show (c tokens i >>= fun r ↦ f r.1 tokens r.2) = _
  rw [h]
  rfl

section Ended

variable (s : EndedTokens) {i : Nat}

/-- A cursor sees the next token. -/
theorem peek_array (h : i ≤ s.front.length) : peek s.array i = .ok (s.next i, i) := by
  simp only [peek, s.array_getElem? h]

/-- A cursor sees whether the next token is the mark. -/
theorem atEnd_array (h : i ≤ s.front.length) :
    atEnd s.array i = .ok ((s.next i).kind.isEnd, i) := by
  rw [atEnd, bind_of_ok (peek_array s h)]
  rfl

/-- Before the mark a cursor takes the next token. -/
theorem advance_array (h : i < s.front.length) : advance s.array i = .ok (s.next i, i + 1) := by
  have hlt : i + 1 < s.array.size := Nat.lt_of_le_of_lt h s.length_lt_size
  simp only [advance, s.array_getElem? (Nat.le_of_lt h), if_pos hlt]

/-- Before the mark a cursor can look at the token behind the next one. -/
theorem nextIs_array (h : i < s.front.length) (mark : Symbol) :
    nextIs mark s.array i = .ok ((s.next (i + 1)).isSymbol mark, i) := by
  simp only [nextIs, s.array_getElem? h, Option.any_some]

/-- A token that is not accepted stays. -/
theorem take?_array_of_none {accepts : Token → Option α} (h : i ≤ s.front.length)
    (ht : accepts (s.next i) = none) : take? accepts s.array i = .ok (none, i) := by
  rw [take?, bind_of_ok (peek_array s h), ht]
  rfl

/-- A token that is accepted is taken. -/
theorem take?_array_of_some {accepts : Token → Option α} {a : α} (h : i < s.front.length)
    (ht : accepts (s.next i) = some a) : take? accepts s.array i = .ok (some a, i + 1) := by
  rw [take?, bind_of_ok (peek_array s (Nat.le_of_lt h)), ht]
  exact bind_of_ok (advance_array s h) _

theorem symbol?_array_of_true {mark : Symbol} (h : i < s.front.length)
    (ht : (s.next i).isSymbol mark = true) : symbol? mark s.array i = .ok (true, i + 1) :=
  bind_of_ok (take?_array_of_some s h (if_pos ht)) _

theorem symbol?_array_of_false {mark : Symbol} (h : i ≤ s.front.length)
    (ht : ¬ (s.next i).isSymbol mark = true) : symbol? mark s.array i = .ok (false, i) :=
  bind_of_ok (take?_array_of_none s h (if_neg ht)) _

end Ended

/-! ### Agreement -/

/-- What a parser and a cursor come to is the same: they fail alike, or give the same result and
have the same tokens left. -/
inductive Outcome (s : EndedTokens) : Except ParseError (α × List Token) →
    Except Halt (α × Nat) → Prop
  | failed (e : ParseError) : Outcome s (.error e) (.error (.failed e))
  | ok (a : α) {j : Nat} (h : j ≤ s.front.length) : Outcome s (.ok (a, s.left j)) (.ok (a, j))

/-- The cursor does on all the tokens what the parser does on those before the first mark of the
end, if it starts at a token with the property `P`. -/
def AgreesOn (P : Token → Prop) (c : Cursor α) (p : Parser α) : Prop :=
  ∀ (s : EndedTokens) (i : Nat), i ≤ s.front.length → P (s.next i) →
    Outcome s (p.run s.stop (s.left i)) (c s.array i)

/-- The cursor does on all the tokens what the parser does on those before the first mark of the
end. -/
abbrev Agrees (c : Cursor α) (p : Parser α) : Prop := AgreesOn (fun _ ↦ True) c p

namespace AgreesOn

variable {P : Token → Prop} {c : Cursor α} {p : Parser α}

theorem pure (a : α) : AgreesOn P (pure a) (pure a) := fun _ _ hi _ ↦ .ok a hi

theorem fail (cause : ParseError.Cause) (t : Token) :
    AgreesOn P (fail cause t : Cursor α) (Parser.fail cause t) := fun _ _ _ _ ↦ .failed _

theorem of_agrees (h : Agrees c p) : AgreesOn P c p := fun s i hi _ ↦ h s i hi trivial

/-- If the first parts agree, then the rest starts with the same tokens left. -/
theorem bind {f : α → Cursor β} {g : α → Parser β} (h : AgreesOn P c p)
    (hf : ∀ a, Agrees (f a) (g a)) : AgreesOn P (c >>= f) (p >>= g) := by
  intro s i hi hP
  have hc := h s i hi hP
  show Outcome s (Parser.runThen s.stop g (p.run s.stop (s.left i)))
    (c s.array i >>= fun r ↦ f r.1 s.array r.2)
  generalize p.run s.stop (s.left i) = given at hc ⊢
  generalize c s.array i = found at hc ⊢
  cases hc with
  | failed e => exact .failed e
  | ok a hj => exact hf a s _ hj trivial

theorem map {f : α → β} (h : AgreesOn P c p) : AgreesOn P (f <$> c) (f <$> p) :=
  h.bind fun a ↦ .pure (f a)

/-- What is done behind a look at a token may rely on that token. -/
theorem peek_bind {f : Token → Cursor β} {g : Token → Parser β}
    (hf : ∀ t, AgreesOn (fun u ↦ u = t) (f t) (g t)) :
    AgreesOn P (peek >>= f) (Parser.peek >>= g) := by
  intro s i hi _
  rw [bind_of_ok (peek_array s hi)]
  exact hf (s.next i) s i hi rfl

theorem peek : AgreesOn P peek Parser.peek := by
  intro s i hi _
  rw [peek_array s hi]
  exact .ok _ hi

theorem failHere (cause : ParseError.Cause) :
    AgreesOn P (failHere cause : Cursor α) (Parser.failHere cause) :=
  .bind .peek fun t ↦ .fail cause t

/-- A token that is no mark of the end may be taken without a further look. -/
theorem advance {t : Token} {accepts : Token → Option Token} (cause : ParseError.Cause)
    (hend : t.kind.isEnd = false) (haccepts : accepts t = some t) :
    AgreesOn (fun u ↦ u = t) advance (Parser.take accepts cause) := by
  rintro s i hi rfl
  have hlt := s.lt_of_isEnd_next hi hend
  rw [s.left_of_lt hlt, Parser.run_take haccepts, advance_array s hlt]
  exact .ok _ hlt

/-- Where the symbol is known to stand, taking any token takes the symbol. -/
theorem advance_symbol {t : Token} {mark : Symbol} (h : t.kind = .symbol mark) :
    AgreesOn (fun u ↦ u = t) Cursor.advance (Parser.symbol mark) :=
  advance _ (by rw [h]; rfl) (if_pos (Token.isSymbol_iff.2 h))

/-- Where the keyword is known to stand, taking any token takes the keyword. -/
theorem advance_keyword {t : Token} {word : Keyword} (h : t.kind = .keyword word) :
    AgreesOn (fun u ↦ u = t) Cursor.advance (Parser.keyword word) :=
  advance _ (by rw [h]; rfl) (if_pos (Token.isWord_iff.2 h))

/-- A token may be taken where no mark of the end is accepted. -/
theorem take? {accepts : Token → Option α}
    (hends : ∀ t, t.kind.isEnd = true → accepts t = none) :
    AgreesOn P (take? accepts) (Parser.take? accepts) := by
  intro s i hi _
  cases ht : accepts (s.next i) with
  | none =>
    rw [take?_array_of_none s hi ht,
      Parser.run_take?_of_none fun t hmem ↦ s.eq_next_of_mem_head? hmem ▸ ht]
    exact .ok none hi
  | some a =>
    have hlt := s.lt_of_accepts hi hends ht
    rw [take?_array_of_some s hlt ht, s.left_of_lt hlt, Parser.run_take?_of_some ht]
    exact .ok (some a) hlt

/-- A token may be taken if no mark of the end is accepted. -/
theorem take {accepts : Token → Option α} (cause : ParseError.Cause)
    (hends : ∀ t, t.kind.isEnd = true → accepts t = none) :
    AgreesOn P (take accepts cause) (Parser.take accepts cause) := by
  intro s i hi _
  rw [Cursor.take]
  cases ht : accepts (s.next i) with
  | none =>
    rw [bind_of_ok (take?_array_of_none s hi ht),
      Parser.run_take_of_none fun t hmem ↦ s.eq_next_of_mem_head? hmem ▸ ht]
    exact failHere (P := fun _ ↦ True) cause s i hi trivial
  | some a =>
    have hlt := s.lt_of_accepts hi hends ht
    rw [bind_of_ok (take?_array_of_some s hlt ht), s.left_of_lt hlt, Parser.run_take ht]
    exact .ok a hlt

/-- A symbol is no mark of the end. -/
theorem symbol (mark : Symbol) : AgreesOn P (symbol mark) (Parser.symbol mark) :=
  .take _ fun t ht ↦ by rw [Token.isSymbol_of_isEnd ht, if_neg Bool.false_ne_true]

theorem keyword (word : Keyword) : AgreesOn P (keyword word) (Parser.keyword word) :=
  .take _ fun t ht ↦ by rw [Token.isWord_of_isEnd ht, if_neg Bool.false_ne_true]

/-- A name is no mark of the end. -/
theorem ident : AgreesOn P ident Parser.ident :=
  .take _ fun t ht ↦ by rw [Parser.identName?, Token.kind_of_isEnd ht]

theorem symbol? (mark : Symbol) : AgreesOn P (symbol? mark) (Parser.symbol? mark) :=
  .bind (.take? fun t ht ↦ by rw [Token.isSymbol_of_isEnd ht, if_neg Bool.false_ne_true])
    fun found ↦ .pure found.isSome

end AgreesOn

/-! ### Loops -/

section Rounds

variable {s : EndedTokens}

/-- What one round of a loop comes to, where `whole` is what a parser makes of a state and the
tokens that are left: it fails, ends the loop or goes on as the parser does, and goes on only if it
has moved towards the mark of the end. -/
inductive Round (s : EndedTokens) (whole : α → List Token → Except ParseError (β × List Token))
    (a : α) (i : Nat) : Except Halt ((α ⊕ β) × Nat) → Prop
  | failed {e : ParseError} : whole a (s.left i) = .error e → Round s whole a i (.error (.failed e))
  | done {b : β} {j : Nat} : j ≤ s.front.length → whole a (s.left i) = .ok (b, s.left j) →
    Round s whole a i (.ok (.inr b, j))
  | next {b : α} {j : Nat} : i < j → j ≤ s.front.length →
    whole a (s.left i) = whole b (s.left j) → Round s whole a i (.ok (.inl b, j))

/-- A round that begins with what a parser does: where this fails the whole fails, and the rest of
the round is done behind it. -/
theorem Round.bind {γ : Type} {whole : α → List Token → Except ParseError (β × List Token)} {a : α}
    {i k : Nat} {c : Cursor γ} {p : Parser γ} {f : γ → Cursor (α ⊕ β)} (h : Agrees c p)
    (hk : k ≤ s.front.length)
    (hfailed : ∀ e, p.run s.stop (s.left k) = .error e → whole a (s.left i) = .error e)
    (hok : ∀ b j, k ≤ j → j ≤ s.front.length → p.run s.stop (s.left k) = .ok (b, s.left j) →
      Round s whole a i (f b s.array j)) :
    Round s whole a i ((c >>= f) s.array k) := by
  have hc := h s k hk trivial
  show Round s whole a i (c s.array k >>= fun r ↦ f r.1 s.array r.2)
  generalize c s.array k = found at hc ⊢
  generalize hrun : p.run s.stop (s.left k) = given at hc
  cases hc with
  | failed e => exact .failed (hfailed e hrun)
  | @ok b j hj =>
    have hle := p.shrinks hrun
    rw [s.length_left, s.length_left] at hle
    exact hok b j (by omega) hj hrun

/-- **A loop comes to what a parser makes of it**, if each round does. -/
theorem outcome_roundsFrom {round : α → Cursor (α ⊕ β)}
    (whole : α → List Token → Except ParseError (β × List Token))
    (hround : ∀ a i, i ≤ s.front.length → Round s whole a i (round a s.array i)) {i : Nat} {a : α}
    (hi : i ≤ s.front.length) :
    Outcome s (whole a (s.left i)) (roundsFrom round s.array i a) := by
  fun_induction roundsFrom round s.array i a with
  | case1 i a halt hrun =>
    have h := hround a i hi
    rw [hrun] at h
    cases h with
    | failed hfailed =>
      rw [hfailed]
      exact .failed _
  | case2 i a b j hrun =>
    have h := hround a i hi
    rw [hrun] at h
    cases h with
    | done hj hdone =>
      rw [hdone]
      exact .ok b hj
  | case3 i a b j hrun hless ih =>
    have h := hround a i hi
    rw [hrun] at h
    cases h with
    | next _ hj hnext =>
      rw [hnext]
      exact ih hj
  | case4 i a b j hrun hless =>
    have h := hround a i hi
    rw [hrun] at h
    cases h with
    | next hlt hj _ =>
      -- Moving towards the mark of the end is moving towards the end of the array.
      have hsize := s.length_lt_size
      omega

end Rounds

namespace AgreesOn

variable {P : Token → Prop} {c : Cursor α} {p : Parser α}

/-- Rounds that agree, if no mark of the end starts one. -/
theorem loop {next? : α → Token → Option (Cursor α)} {round : α → Token → Option (Parser α)}
    (hround : ∀ a t, Option.Rel Agrees (next? a t) (round a t))
    (hends : ∀ a t, t.kind.isEnd = true → round a t = none) (a : α) :
    AgreesOn P (loop next? a) (Parser.loop round a) := by
  intro s i hi _
  refine outcome_roundsFrom (Parser.loopRun round s.stop) (fun a i hi ↦ ?_) hi
  rw [continuing, bind_of_ok (peek_array s hi)]
  have hrel := hround a (s.next i)
  generalize next? a (s.next i) = next at hrel ⊢
  generalize htaken : round a (s.next i) = taken at hrel
  cases hrel with
  | none =>
    exact .done hi (Parser.loopRun_of_stops fun t hmem ↦ s.eq_next_of_mem_head? hmem ▸ htaken)
  | @some c p hcp =>
    have hlt := s.lt_of_accepts hi (hends a) htaken
    dsimp only
    rw [bind_of_ok (advance_array s hlt)]
    refine .bind hcp hlt (fun e hrun ↦ ?_) fun b j hle hj hrun ↦ .next hle hj ?_
    · rw [s.left_of_lt hlt]
      exact Parser.loopRun_of_error htaken hrun
    · rw [s.left_of_lt hlt]
      exact Parser.loopRun_of_round htaken hrun

/-- Readers that agree, one after the other. Each of them moves the cursor since the parser always
takes a token. -/
theorem many {ends : Token → Bool} (h : Agrees c p) (hp : p.Strict) :
    AgreesOn P (many ends c) (Parser.many ends p hp) := by
  intro s i hi _
  refine outcome_roundsFrom (Parser.manyRun ends p hp s.stop) (fun found i hi ↦ ?_) hi
  rw [oneMore, bind_of_ok (peek_array s hi), bind_of_ok (atEnd_array s hi)]
  obtain hlt | rfl := Nat.lt_or_eq_of_le hi
  · have hend : (s.next i).kind.isEnd = false :=
      Bool.eq_false_iff.2 fun hend ↦ Nat.ne_of_lt hlt ((s.isEnd_next hi).1 hend)
    rw [hend, Bool.or_false]
    by_cases hclosed : ends (s.next i) = true
    · rw [if_pos hclosed]
      refine .done hi ?_
      rw [s.left_of_lt hlt, Parser.manyRun, if_pos hclosed]
    · rw [if_neg hclosed]
      refine .bind h hi (fun e hrun ↦ ?_) fun a j _ hj hrun ↦ .next ?_ hj ?_
      · rw [s.left_of_lt hlt] at hrun ⊢
        exact Parser.manyRun_of_error hclosed hrun
      · have hless := hp hrun
        rw [s.length_left, s.length_left] at hless
        omega
      · rw [s.left_of_lt hlt] at hrun ⊢
        exact Parser.manyRun_of_ok hclosed hrun
  · rw [(s.isEnd_next hi).2 rfl, Bool.or_true, if_pos rfl]
    refine .done hi ?_
    rw [s.left_length, Parser.manyRun]

/-- Items that agree. A round of the cursor ends behind a comma, one of the parser begins with the
comma. -/
theorem items (close : Symbol) (hclose : close ≠ .comma) (h : Agrees c p) :
    AgreesOn P (items close c) (Parser.items close p) := by
  intro s i hi _
  refine outcome_roundsFrom (fun found ts ↦ (Parser.itemsBehind close p found).run s.stop ts)
    (fun found i hi ↦ ?_) hi
  rw [oneItem, bind_of_ok (peek_array s hi), bind_of_ok (atEnd_array s hi)]
  by_cases hclosed : Parser.Closes close (s.left i)
  · rw [if_pos ((s.closes_left hi).1 hclosed)]
    exact .done hi (Parser.run_whenClosed_of_closes _ _ hclosed)
  · rw [if_neg (mt (s.closes_left hi).2 hclosed)]
    have hwhole : (Parser.itemsBehind close p found).run s.stop (s.left i) =
        Parser.runThen s.stop _ (p.run s.stop (s.left i)) :=
      Parser.run_whenClosed_of_not_closes _ _ hclosed
    refine .bind h hi (fun e hrun ↦ ?_) fun a j hle hj hrun ↦ ?_
    · rw [hwhole, hrun]
      rfl
    · rw [hrun] at hwhole
      -- Behind an item the cursor takes a comma or is done, as the loop of the parser is.
      by_cases hcomma : (s.next j).isSymbol .comma = true
      · have hlt := s.lt_of_isEnd_next hj (Bool.eq_false_iff.2 fun hend ↦ by
          rw [Token.isSymbol_of_isEnd hend] at hcomma
          cases hcomma)
        rw [bind_of_ok (symbol?_array_of_true s hlt hcomma)]
        refine .next (Nat.lt_succ_of_le hle) hlt (hwhole.trans ?_)
        rw [s.left_of_lt hlt]
        exact Parser.run_loop_nextItem hclose hcomma (a :: found)
      · rw [bind_of_ok (symbol?_array_of_false s hj hcomma)]
        refine .done hj (hwhole.trans ?_)
        show Parser.runThen s.stop _ (Parser.loopRun _ s.stop (a :: found) (s.left j)) = _
        rw [Parser.loopRun_of_stops fun t hmem ↦ ?_]
        · rfl
        · exact if_neg (s.eq_next_of_mem_head? hmem ▸ hcomma)

end AgreesOn

end Cursor

end SafariScript
