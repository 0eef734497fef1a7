import SafariScript.Proofs.Grammar.Agreement
import SafariScript.Proofs.Grammar.Descent

/-!
# Descents that follow a cursor

The tokens end with a mark of the end (`Stream`). A descent **follows** a cursor from given
registers (`FollowsOn`) if it comes to an end, has the outcome of the cursor, is still at a token,
has taken as many tokens as it has to for what it gives, and leaves both counters as they were; the
only way for it to fail is that the tokens form no program.

Sequences of descents that follow cursors do so too, where the second part has to take what the
first part left to take. A loop follows the loop of the cursor if each round does and a round that
is not the last one takes a token (`Follows.rounds`): this is why it comes to an end. Changes of the
counters that are taken back cannot be told from outside (`Outcome.within`).
-/

namespace SafariScript

/-- Tokens of which the last one marks the end. -/
structure Stream where
  tokens : Array Token
  ended : (tokens.back?.any fun t ↦ t.kind.isEnd) = true

/-- There is at least the mark of the end. -/
theorem Stream.size_pos (s : Stream) : 0 < s.tokens.size := by
  refine Nat.pos_of_ne_zero fun hsize ↦ ?_
  have hended := s.ended
  rw [Array.size_eq_zero_iff.1 hsize] at hended
  cases hended

theorem Stream.lt_size {s : Stream} {i : Nat} {t : Token} (h : s.tokens[i]? = some t) :
    i < s.tokens.size :=
  (Array.getElem?_eq_some_iff.1 h).1

theorem Stream.exists_token (s : Stream) {i : Nat} (h : i < s.tokens.size) :
    ∃ t, s.tokens[i]? = some t :=
  ⟨_, Array.getElem?_eq_getElem h⟩

/-- Only a mark of the end stands last. -/
theorem Stream.succ_lt_size (s : Stream) {i : Nat} {t : Token} (h : s.tokens[i]? = some t)
    (ht : t.kind.isEnd = false) : i + 1 < s.tokens.size := by
  refine Nat.lt_of_le_of_ne (Stream.lt_size h) fun hlast ↦ ?_
  have hended := s.ended
  rw [Array.back?_eq_getElem?, ← hlast, Nat.add_sub_cancel, h, Option.any_some, ht] at hended
  cases hended

namespace Cursor

variable {α β : Type} {s : Stream} {i : Nat} {t : Token}

/-- A cursor that gives `a` has taken at least `least a` tokens and is still at a token; otherwise
the tokens form no program. -/
inductive Takes (s : Stream) (i : Nat) (least : α → Nat) : Except Halt (α × Nat) → Prop
  | ok {a : α} {j : Nat} : i + least a ≤ j → j < s.tokens.size → Takes s i least (.ok (a, j))
  | failed (e : ParseError) : Takes s i least (.error (.failed e))

namespace Takes

theorem pure {a : α} {least : α → Nat} (h : s.tokens[i]? = some t) (ha : least a = 0) :
    Takes s i least ((pure a : Cursor α) s.tokens i) :=
  .ok (Nat.le_of_eq (by rw [ha]; rfl)) (Stream.lt_size h)

/-- The second part has to take what the first one left to take. -/
theorem bind {c : Cursor α} {f : α → Cursor β} {k : α → Nat} {least : β → Nat}
    (h : Takes s i k (c s.tokens i))
    (hf : ∀ a j u, s.tokens[j]? = some u → Takes s j (fun b ↦ least b - k a) (f a s.tokens j)) :
    Takes s i least ((c >>= f) s.tokens i) := by
  show Takes s i least (c s.tokens i >>= fun r ↦ f r.1 s.tokens r.2)
  generalize c s.tokens i = found at h
  cases h with
  | failed e => exact .failed e
  | @ok a j hj hsize =>
    obtain ⟨u, hu⟩ := s.exists_token hsize
    have hnext := hf a j u hu
    show Takes s i least (f a s.tokens j)
    generalize f a s.tokens j = result at hnext
    cases hnext with
    | failed e => exact .failed e
    | ok hk hsize => exact .ok (by omega) hsize

end Takes

variable (h : s.tokens[i]? = some t)

include h

theorem peek_of_getElem? : peek s.tokens i = .ok (t, i) := by
  simp only [peek, h]

/-- To see a token is to take none. -/
theorem takes_peek : Takes s i (fun _ ↦ 0) (peek s.tokens i) := by
  rw [peek_of_getElem? h]
  exact .ok (Nat.le_refl _) (Stream.lt_size h)

theorem takes_atEnd : Takes s i (fun _ ↦ 0) (atEnd s.tokens i) :=
  (takes_peek h).bind fun _ _ _ hj ↦ .pure hj rfl

/-- A cursor at a token can fail there. -/
theorem takes_failHere (cause : ParseError.Cause) {least : α → Nat} :
    Takes s i least ((failHere cause : Cursor α) s.tokens i) := by
  rw [failHere, bind_of_ok (peek_of_getElem? h)]
  exact .failed _

/-- At the last token a cursor stays. -/
theorem takes_advance : Takes s i (fun _ ↦ 0) (advance s.tokens i) := by
  simp only [advance, h]
  split
  · next hsize => exact .ok (Nat.le_succ _) hsize
  · exact .ok (Nat.le_refl _) (Stream.lt_size h)

/-- A token other than the mark is taken. -/
theorem advance_of_getElem? (ht : t.kind.isEnd = false) : advance s.tokens i = .ok (t, i + 1) := by
  simp only [advance, h, if_pos (s.succ_lt_size h ht)]

/-- Before the mark one token is taken. -/
theorem takes_advance_of_not_isEnd (ht : t.kind.isEnd = false) :
    Takes s i (fun _ ↦ 1) (advance s.tokens i) := by
  rw [advance_of_getElem? h ht]
  exact .ok (Nat.le_refl _) (s.succ_lt_size h ht)

/-- A token that is not accepted stays. -/
theorem take?_of_eq_none {accepts : Token → Option α} (ha : accepts t = none) :
    take? accepts s.tokens i = .ok (none, i) := by
  rw [take?, bind_of_ok (peek_of_getElem? h), ha]
  rfl

/-- A token that is accepted is taken. -/
theorem take?_of_eq_some {accepts : Token → Option α} {a : α} (ha : accepts t = some a)
    (ht : t.kind.isEnd = false) : take? accepts s.tokens i = .ok (some a, i + 1) := by
  rw [take?, bind_of_ok (peek_of_getElem? h), ha]
  exact bind_of_ok (advance_of_getElem? h ht) _

/-- What is accepted is taken, if no mark of the end is accepted. -/
theorem takes_take? {accepts : Token → Option α}
    (hends : ∀ t, t.kind.isEnd = true → accepts t = none) :
    Takes s i (fun a ↦ a.isSome.toNat) (take? accepts s.tokens i) := by
  cases ha : accepts t with
  | none =>
    rw [take?_of_eq_none h ha]
    exact .ok (Nat.le_refl _) (Stream.lt_size h)
  | some a =>
    have ht : t.kind.isEnd = false := Bool.eq_false_iff.2 fun hend ↦ by
      rw [hends t hend] at ha
      cases ha
    rw [take?_of_eq_some h ha ht]
    exact .ok (Nat.le_refl _) (s.succ_lt_size h ht)

/-- If no mark of the end is accepted, one token is taken or the cursor fails. -/
theorem takes_take {accepts : Token → Option α} (cause : ParseError.Cause)
    (hends : ∀ t, t.kind.isEnd = true → accepts t = none) :
    Takes s i (fun _ ↦ 1) (take accepts cause s.tokens i) := by
  refine (takes_take? h hends).bind fun a j u hj ↦ ?_
  cases a with
  | none => exact takes_failHere hj cause
  | some a => exact .pure hj rfl

/-- A symbol is one token. -/
theorem takes_symbol (mark : Symbol) : Takes s i (fun _ ↦ 1) (symbol mark s.tokens i) :=
  takes_take h _ fun t ht ↦ by rw [Token.isSymbol_of_isEnd ht, if_neg Bool.false_ne_true]

/-- A keyword is one token. -/
theorem takes_keyword (word : Keyword) : Takes s i (fun _ ↦ 1) (keyword word s.tokens i) :=
  takes_take h _ fun t ht ↦ by rw [Token.isWord_of_isEnd ht, if_neg Bool.false_ne_true]

/-- A name is one token. -/
theorem takes_ident : Takes s i (fun _ ↦ 1) (ident s.tokens i) :=
  takes_take h _ fun t ht ↦ by rw [Parser.identName?, Token.kind_of_isEnd ht]

/-- One token is taken if the symbol is there. -/
theorem takes_symbol? (mark : Symbol) : Takes s i Bool.toNat (symbol? mark s.tokens i) := by
  refine (takes_take? h fun t ht ↦ ?_).bind fun a j u hj ↦ .pure hj (Nat.sub_self _)
  rw [Token.isSymbol_of_isEnd ht, if_neg Bool.false_ne_true]

/-- To look for a name and `=` is to take nothing. -/
theorem takes_atKey : Takes s i (fun _ ↦ 0) (Level.atKey s.tokens i) := by
  refine (takes_peek h).bind fun t j u hj ↦ ?_
  cases t.kind with
  | ident name => exact .ok (Nat.le_refl _) (Stream.lt_size hj)
  | _ => exact .pure hj rfl

/-- A property is at least its name. -/
theorem takes_propertyOf (e : Expr) : Takes s i (fun _ ↦ 1) (Level.propertyOf e s.tokens i) :=
  (takes_peek h).bind fun _ _ _ hj ↦ (takes_ident hj).bind fun _ _ _ hk ↦ .pure hk rfl

end Cursor

namespace Descent

variable {α β : Type}

/-- A step of the cursor moves the index and no counter. -/
theorem step_of_ok {c : Cursor α} {tokens : Array Token} {r : Registers} {a : α} {j : Nat}
    (h : c tokens r.index = .ok (a, j)) :
    step c tokens r = some (.ok a, { r with index := j }) := by
  rw [step, h]

/-- The rest goes on with the registers that were reached. -/
theorem bind_of_ok {x : Descent α} {tokens : Array Token} {r r' : Registers} {a : α}
    (h : x tokens r = some (.ok a, r')) (f : α → Descent β) :
    (x >>= f) tokens r = f a tokens r' := by
  show Option.bind (x tokens r) _ = _
  rw [h]
  rfl

/-- After an error nothing goes on. -/
theorem bind_of_error {x : Descent α} {tokens : Array Token} {r r' : Registers} {halt : Halt}
    (h : x tokens r = some (.error halt, r')) (f : α → Descent β) :
    (x >>= f) tokens r = some (.error halt, r') := by
  show Option.bind (x tokens r) _ = _
  rw [h]
  rfl

/-! ### Outcomes -/

/-- From the given registers, a descent comes to an end, as the cursor does: it fails, or gives what
the cursor gives and has taken as many tokens as it has to. In both cases it is still at a token,
and only the index is another one. -/
inductive Outcome (s : Stream) (r : Registers) (least : α → Nat) :
    Option (Except Halt α × Registers) → Except Halt (α × Nat) → Prop
  | ok {a : α} {j : Nat} : r.index + least a ≤ j → j < s.tokens.size →
    Outcome s r least (some (.ok a, { r with index := j })) (.ok (a, j))
  | failed {e : ParseError} {j : Nat} : r.index ≤ j → j < s.tokens.size →
    Outcome s r least (some (.error (.failed e), { r with index := j })) (.error (.failed e))

/-- What the cursor came to, it came to by taking tokens. -/
theorem Outcome.takes {s : Stream} {r : Registers} {least : α → Nat}
    {result : Option (Except Halt α × Registers)} {found : Except Halt (α × Nat)}
    (h : Outcome s r least result found) : Cursor.Takes s r.index least found := by
  cases h with
  | ok hj hsize => exact .ok hj hsize
  | failed hj hsize => exact .failed _

/-- What is done behind some tokens need not take these again. -/
theorem Outcome.behind {s : Stream} {r : Registers} {least : α → Nat} {j n : Nat}
    {result : Option (Except Halt α × Registers)} {found : Except Halt (α × Nat)}
    (h : Outcome s { r with index := j } (fun a ↦ least a - n) result found)
    (hj : r.index + n ≤ j) : Outcome s r least result found := by
  cases h with
  | @ok a k hk hsize =>
    have hle : j + (least a - n) ≤ k := hk
    exact .ok (by omega) hsize
  | @failed e k hk hsize =>
    have hle : j ≤ k := hk
    exact .failed (by omega) hsize

/-- Behind the first part of a sequence there is less to take. -/
theorem Outcome.bind {s : Stream} {r : Registers} {k : α → Nat} {m : β → Nat} {x : Descent α}
    {c : Cursor α} {f : α → Descent β} {d : α → Cursor β}
    (h : Outcome s r k (x s.tokens r) (c s.tokens r.index))
    (hf : ∀ a j u, r.index + k a ≤ j → s.tokens[j]? = some u →
      Outcome s { r with index := j } (fun b ↦ m b - k a) (f a s.tokens { r with index := j })
        (d a s.tokens j)) :
    Outcome s r m ((x >>= f) s.tokens r) ((c >>= d) s.tokens r.index) := by
  show Outcome s r m _ (c s.tokens r.index >>= fun p ↦ d p.1 s.tokens p.2)
  generalize hresult : x s.tokens r = result at h
  generalize c s.tokens r.index = found at h ⊢
  cases h with
  | failed hj hsize =>
    rw [bind_of_error hresult]
    exact .failed hj hsize
  | @ok a j hj hsize =>
    rw [bind_of_ok hresult]
    obtain ⟨u, hu⟩ := s.exists_token hsize
    exact (hf a j u hj hu).behind hj

/-- What is changed on the way in and changed back on the way out makes no difference. -/
theorem Outcome.within {s : Stream} {r : Registers} {least : α → Nat} {x : Descent α}
    {found : Except Halt (α × Nat)} {enter leave : Registers → Registers}
    (hindex : (enter r).index = r.index)
    (hleave : ∀ j, leave { enter r with index := j } = { r with index := j })
    (h : Outcome s (enter r) least (x s.tokens (enter r)) found) :
    Outcome s r least (within enter leave x s.tokens r) found := by
  show Outcome s r least (Option.bind (x s.tokens (enter r)) fun result ↦
    some (result.1, leave result.2)) found
  generalize x s.tokens (enter r) = result at h
  cases h with
  | ok hj hsize =>
    rw [Option.bind_some, hleave]
    rw [hindex] at hj
    exact .ok hj hsize
  | failed hj hsize =>
    rw [Option.bind_some, hleave]
    rw [hindex] at hj
    exact .failed hj hsize

/-- At every token with the property `P`, with so much room for further levels and where `run` is
allowed or not, the descent has the outcome of the cursor. -/
def FollowsOn (P : Token → Prop) (s : Stream) (room : Nat) (control : Bool) (least : α → Nat)
    (x : Descent α) (c : Cursor α) : Prop :=
  ∀ (r : Registers) (t : Token), s.tokens[r.index]? = some t → P t → maxNesting - r.nesting = room →
    decide (0 < r.control) = control → Outcome s r least (x s.tokens r) (c s.tokens r.index)

/-- At every token, with so much room for further levels and where `run` is allowed or not, the
descent has the outcome of the cursor. -/
abbrev Follows (s : Stream) (room : Nat) (control : Bool) (least : α → Nat) (x : Descent α)
    (c : Cursor α) : Prop :=
  FollowsOn (fun _ ↦ True) s room control least x c

namespace FollowsOn

variable {P : Token → Prop} {s : Stream} {room : Nat} {control : Bool} {least : α → Nat}
  {x : Descent α} {c : Cursor α}

/-- A descent that follows from every token does so from those with a property. -/
theorem of_follows (h : Follows s room control least x c) : FollowsOn P s room control least x c :=
  fun r t ht _ ↦ h r t ht trivial

/-- What takes so many tokens takes fewer. -/
theorem weaken {k : α → Nat} (h : FollowsOn P s room control k x c) (hle : ∀ a, least a ≤ k a) :
    FollowsOn P s room control least x c := by
  intro r t ht hP hroom hcontrol
  have hx := h r t ht hP hroom hcontrol
  generalize x s.tokens r = result, c s.tokens r.index = found at hx ⊢
  cases hx with
  | @ok a j hj hsize =>
    have hleast := hle a
    exact .ok (by omega) hsize
  | failed hj hsize => exact .failed hj hsize

theorem pure {a : α} (ha : least a = 0) : FollowsOn P s room control least (pure a) (pure a) := by
  intro r t ht _ _ _
  exact .ok (Nat.le_of_eq (by rw [ha]; rfl)) (Stream.lt_size ht)

/-- The counters are the same after the first part, so the second one may rely on them. -/
theorem bind {k : α → Nat} {m : β → Nat} {f : α → Descent β} {d : α → Cursor β}
    (h : FollowsOn P s room control k x c)
    (hf : ∀ a, Follows s room control (fun b ↦ m b - k a) (f a) (d a)) :
    FollowsOn P s room control m (x >>= f) (c >>= d) := by
  intro r t ht hP hroom hcontrol
  refine (h r t ht hP hroom hcontrol).bind fun a j u _ hu ↦ ?_
  exact hf a { r with index := j } u hu trivial hroom hcontrol

/-! #### Single steps -/

/-- A single step follows the cursor that it is. -/
theorem step (h : ∀ i t, s.tokens[i]? = some t → P t → Cursor.Takes s i least (c s.tokens i)) :
    FollowsOn P s room control least (step c) c := by
  intro r t ht hP _ _
  have hc := h r.index t ht hP
  rw [Descent.step]
  generalize c s.tokens r.index = found at hc ⊢
  cases hc with
  | ok hj hsize => exact .ok hj hsize
  | failed e => exact .failed (Nat.le_refl _) (Stream.lt_size ht)

theorem fail (cause : ParseError.Cause) (t : Token) :
    FollowsOn P s room control least (Descent.step (Cursor.fail cause t)) (Cursor.fail cause t) :=
  step fun _ _ _ _ ↦ .failed _

theorem failHere (cause : ParseError.Cause) :
    FollowsOn P s room control least (Descent.step (Cursor.failHere cause))
      (Cursor.failHere cause) :=
  step fun _ _ h _ ↦ Cursor.takes_failHere h cause

theorem peek : FollowsOn P s room control (fun _ ↦ 0) (Descent.step Cursor.peek) Cursor.peek :=
  step fun _ _ h _ ↦ Cursor.takes_peek h

/-- What is done behind a look at a token may rely on that token. -/
theorem peek_bind {m : β → Nat} {f : Token → Descent β} {d : Token → Cursor β}
    (hf : ∀ t, FollowsOn (fun u ↦ u = t) s room control m (f t) (d t)) :
    FollowsOn P s room control m (Descent.step Cursor.peek >>= f) (Cursor.peek >>= d) := by
  intro r t ht _ hroom hcontrol
  have hpeek := Cursor.peek_of_getElem? ht
  rw [bind_of_ok (step_of_ok hpeek), Cursor.bind_of_ok hpeek]
  exact hf t r t ht rfl hroom hcontrol

theorem atEnd : FollowsOn P s room control (fun _ ↦ 0) (Descent.step Cursor.atEnd) Cursor.atEnd :=
  step fun _ _ h _ ↦ Cursor.takes_atEnd h

/-- The last token is not passed, so it may be that nothing is taken. -/
theorem advance :
    FollowsOn P s room control (fun _ ↦ 0) (Descent.step Cursor.advance) Cursor.advance :=
  step fun _ _ h _ ↦ Cursor.takes_advance h

/-- A token that is no mark of the end is taken. -/
theorem advance_of_not_isEnd {t : Token} (ht : t.kind.isEnd = false) :
    FollowsOn (fun u ↦ u = t) s room control (fun _ ↦ 1) (Descent.step Cursor.advance)
      Cursor.advance := by
  refine step fun i u h hu ↦ Cursor.takes_advance_of_not_isEnd h ?_
  rw [hu, ht]

/-- A token is taken if it is accepted. -/
theorem take? {accepts : Token → Option α}
    (hends : ∀ t, t.kind.isEnd = true → accepts t = none) :
    FollowsOn P s room control (fun a ↦ a.isSome.toNat) (Descent.step (Cursor.take? accepts))
      (Cursor.take? accepts) :=
  step fun _ _ h _ ↦ Cursor.takes_take? h hends

/-- The symbol is taken, or the descent fails. -/
theorem symbol (mark : Symbol) :
    FollowsOn P s room control (fun _ ↦ 1) (Descent.step (Cursor.symbol mark))
      (Cursor.symbol mark) :=
  step fun _ _ h _ ↦ Cursor.takes_symbol h mark

/-- The keyword is taken, or the descent fails. -/
theorem keyword (word : Keyword) :
    FollowsOn P s room control (fun _ ↦ 1) (Descent.step (Cursor.keyword word))
      (Cursor.keyword word) :=
  step fun _ _ h _ ↦ Cursor.takes_keyword h word

theorem ident : FollowsOn P s room control (fun _ ↦ 1) (Descent.step Cursor.ident) Cursor.ident :=
  step fun _ _ h _ ↦ Cursor.takes_ident h

theorem atKey :
    FollowsOn P s room control (fun _ ↦ 0) (Descent.step Cursor.Level.atKey) Cursor.Level.atKey :=
  step fun _ _ h _ ↦ Cursor.takes_atKey h

theorem symbol? (mark : Symbol) :
    FollowsOn P s room control Bool.toNat (Descent.step (Cursor.symbol? mark))
      (Cursor.symbol? mark) :=
  step fun _ _ h _ ↦ Cursor.takes_symbol? h mark

end FollowsOn

/-! ### Loops -/

variable {s : Stream} {room : Nat} {control : Bool}

/-- **A loop comes to an end** if each round does and takes a token, unless it is the last one. -/
theorem Follows.rounds {again : α → Production β} {x : α → Descent (α ⊕ β)}
    {round : α → Cursor (α ⊕ β)} (hagain : ∀ a, run (again a) = repeated run (x a) again)
    (hround : ∀ a, Follows s room control (Sum.elim (fun _ ↦ 1) fun _ ↦ 0) (x a) (round a))
    (a : α) : Follows s room control (fun _ ↦ 0) (run (again a)) (Cursor.rounds round a) := by
  intro r t ht _ hroom hcontrol
  -- A round that goes on has taken a token, so the tokens that are left become fewer.
  induction hleft : s.tokens.size - r.index using Nat.strongRecOn generalizing a r t with
  | ind n ih =>
    have hx := hround a r t ht trivial hroom hcontrol
    rw [hagain, Cursor.rounds, Cursor.roundsFrom]
    generalize hresult : x a s.tokens r = result at hx
    generalize round a s.tokens r.index = found at hx ⊢
    cases hx with
    | failed hj hsize =>
      rw [repeated, bind_of_error hresult]
      exact .failed hj hsize
    | @ok next j hj hsize =>
      rw [repeated, bind_of_ok hresult]
      cases next with
      | inr b => exact .ok hj hsize
      | inl b =>
        obtain ⟨u, hu⟩ := s.exists_token hsize
        have hmoved : r.index + 1 ≤ j := hj
        have hless : s.tokens.size - j < s.tokens.size - r.index := by omega
        have hrest := ih _ (hleft ▸ hless) b { r with index := j } u hu hroom hcontrol rfl
        dsimp only
        rw [if_pos hless]
        exact hrest.behind hmoved

end Descent

end SafariScript
