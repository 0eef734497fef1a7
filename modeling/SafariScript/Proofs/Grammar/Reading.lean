import SafariScript.Proofs.Grammar.Language

/-!
# Parsers that read a language

`Reads p R follows` says that the parser `p` reads the phrases of `R`: whatever it takes off the
tokens is a phrase with the tree that it gives (`sound`), and it **takes every phrase**, with its
tree, when what stands behind the phrase cannot be taken for a continuation of it (`complete`). The
second half needs such a condition, `follows`, because parsers take as much as they can: `1` is an
expression, but no parser of expressions stops behind it in `1 + 2`.

Here are the facts about the parsers that take single tokens, and about repetition: items with
commas between them (`Reads.items`) and phrases one after the other (`Reads.many`). A loop takes
rounds from the left, so what it took is known by an invariant (`loopRun_sound`).
-/

namespace SafariScript

theorem Token.isSymbol_iff {t : Token} {s : Symbol} : t.isSymbol s = true ↔ t.kind = .symbol s := by
  unfold Token.isSymbol
  cases t.kind <;> simp

theorem Token.isWord_iff {t : Token} {k : Keyword} : t.isWord k = true ↔ t.kind = .keyword k := by
  unfold Token.isWord
  cases t.kind <;> simp

namespace Parser

open SafariScript.Language

variable {α β : Type} {stop : Token} {ts rest : List Token}

/-- The parser reads the phrases of a language, up to tokens that may follow them. -/
structure Reads (p : Parser α) (R : List Token → α → Prop) (follows : List Token → Prop) :
    Prop where
  sound : ∀ {stop : Token} {ts rest : List Token} {a : α}, p.run stop ts = .ok (a, rest) →
    ∃ xs, ts = xs ++ rest ∧ R xs a
  complete : ∀ {stop : Token} {xs rest : List Token} {a : α}, R xs a → follows rest →
    p.run stop (xs ++ rest) = .ok (a, rest)

/-- The next token is of the given kind. -/
def Begins (ts : List Token) (k : Token.Kind) : Prop := ∃ t ∈ ts.head?, t.kind = k

theorem not_begins_cons {t : Token} {k k' : Token.Kind} (ts : List Token) (ht : t.kind = k)
    (hk : k ≠ k') : ¬ Begins (t :: ts) k' := by
  rintro ⟨u, ⟨⟩, hu⟩
  exact hk (ht.symm.trans hu)

/-! ### Single tokens -/

/-- The rest reads what the first parser left. -/
theorem run_bind_of_ok {p : Parser α} {a : α} (f : α → Parser β)
    (h : p.run stop ts = .ok (a, rest)) : (p >>= f).run stop ts = (f a).run stop rest := by
  rw [run_bind, h]
  rfl

theorem run_bind_assoc {γ : Type} (p : Parser α) (f : α → Parser β) (g : β → Parser γ) :
    (p >>= fun a ↦ f a >>= g).run stop ts = ((p >>= f) >>= g).run stop ts := by
  simp only [run_bind]
  cases p.run stop ts with
  | error e => rfl
  | ok result => rfl

theorem run_take {accepts : Token → Option α} {t : Token} {a : α} (h : accepts t = some a)
    (cause : ParseError.Cause) : (take accepts cause).run stop (t :: ts) = .ok (a, ts) := by
  simp [take, split?, h]

/-- What is taken is the next token, and it was accepted. -/
theorem take_eq_ok {accepts : Token → Option α} {cause : ParseError.Cause} {a : α}
    (h : (take accepts cause).run stop ts = .ok (a, rest)) :
    ∃ t, ts = t :: rest ∧ accepts t = some a := by
  cases ts with
  | nil => cases h
  | cons t ts =>
    cases ha : accepts t with
    | none => simp [take, split?, ha] at h
    | some b =>
      rw [run_take ha] at h
      cases h
      exact ⟨t, rfl, ha⟩

/-- A token that is accepted is taken. -/
theorem run_take?_of_some {accepts : Token → Option α} {t : Token} {a : α}
    (h : accepts t = some a) : (take? accepts).run stop (t :: ts) = .ok (some a, ts) := by
  simp [take?, split?, h]

/-- A token that is not accepted stays. -/
theorem run_take?_of_none {accepts : Token → Option α} (h : ∀ t ∈ ts.head?, accepts t = none) :
    (take? accepts).run stop ts = .ok (none, ts) := by
  cases ts with
  | nil => rfl
  | cons t ts => simp [take?, split?, h t rfl]

/-- Either the next token was taken, or it stayed since it is not accepted. -/
theorem take?_eq_ok {accepts : Token → Option α} {found : Option α}
    (h : (take? accepts).run stop ts = .ok (found, rest)) :
    (∃ t a, found = some a ∧ ts = t :: rest ∧ accepts t = some a) ∨
      (found = none ∧ ts = rest ∧ ∀ t ∈ ts.head?, accepts t = none) := by
  cases ts with
  | nil =>
    cases h
    exact .inr ⟨rfl, rfl, fun t ht ↦ by cases ht⟩
  | cons t ts =>
    cases ha : accepts t with
    | none =>
      have hnone : ∀ u ∈ (t :: ts).head?, accepts u = none := by
        rintro u ⟨⟩
        exact ha
      rw [run_take?_of_none hnone] at h
      cases h
      exact .inr ⟨rfl, rfl, hnone⟩
    | some a =>
      rw [run_take?_of_some ha] at h
      cases h
      exact .inl ⟨t, a, rfl, rfl, ha⟩

/-- The symbol is taken where it stands. -/
theorem run_symbol {s : Symbol} {t : Token} (h : t.kind = .symbol s) :
    (symbol s).run stop (t :: ts) = .ok (t, ts) :=
  run_take (if_pos (Token.isSymbol_iff.2 h)) _

/-- Where a symbol was taken, it stood. -/
theorem symbol_eq_ok {s : Symbol} {t : Token} (h : (symbol s).run stop ts = .ok (t, rest)) :
    ts = t :: rest ∧ t.kind = .symbol s := by
  obtain ⟨u, rfl, hu⟩ := take_eq_ok h
  obtain ⟨hs, rfl⟩ : u.isSymbol s = true ∧ u = t := by simpa using hu
  exact ⟨rfl, Token.isSymbol_iff.1 hs⟩

theorem run_keyword {k : Keyword} {t : Token} (h : t.kind = .keyword k) :
    (keyword k).run stop (t :: ts) = .ok (t, ts) :=
  run_take (if_pos (Token.isWord_iff.2 h)) _

/-- Where a keyword was taken, it stood. -/
theorem keyword_eq_ok {k : Keyword} {t : Token} (h : (keyword k).run stop ts = .ok (t, rest)) :
    ts = t :: rest ∧ t.kind = .keyword k := by
  obtain ⟨u, rfl, hu⟩ := take_eq_ok h
  obtain ⟨hk, rfl⟩ : u.isWord k = true ∧ u = t := by simpa using hu
  exact ⟨rfl, Token.isWord_iff.1 hk⟩

/-- Only an identifier has a name. -/
theorem identName?_eq_some {t : Token} {name : String} :
    identName? t = some name ↔ t.kind = .ident name := by
  unfold identName?
  cases t.kind <;> simp

theorem run_ident {t : Token} {name : String} (h : t.kind = .ident name) :
    ident.run stop (t :: ts) = .ok (name, ts) :=
  run_take (identName?_eq_some.2 h) _

/-- Where a name was taken, an identifier stood. -/
theorem ident_eq_ok {name : String} (h : ident.run stop ts = .ok (name, rest)) :
    ∃ t, ts = t :: rest ∧ t.kind = .ident name := by
  obtain ⟨t, rfl, ht⟩ := take_eq_ok h
  exact ⟨t, rfl, identName?_eq_some.1 ht⟩

/-- A name is a single identifier, whatever follows it. -/
theorem reads_ident : Reads ident Name fun _ ↦ True where
  sound h := by
    obtain ⟨t, rfl, ht⟩ := ident_eq_ok h
    exact ⟨[t], rfl, .ident ht⟩
  complete h _ := by
    obtain ⟨ht⟩ := h
    exact run_ident ht

theorem run_symbol?_of_begins {s : Symbol} {t : Token} (h : t.kind = .symbol s) :
    (symbol? s).run stop (t :: ts) = .ok (true, ts) :=
  run_bind_of_ok _ (run_take?_of_some (if_pos (Token.isSymbol_iff.2 h)))

theorem run_symbol?_of_not_begins {s : Symbol} (h : ¬ Begins ts (.symbol s)) :
    (symbol? s).run stop ts = .ok (false, ts) := by
  refine run_bind_of_ok _ (run_take?_of_none fun t ht ↦ if_neg fun hs ↦ h ⟨t, ht, ?_⟩)
  exact Token.isSymbol_iff.1 hs

/-- Either the symbol was taken, or it does not stand there. -/
theorem symbol?_eq_ok {s : Symbol} {found : Bool}
    (h : (symbol? s).run stop ts = .ok (found, rest)) :
    (found = true ∧ ∃ t, ts = t :: rest ∧ t.kind = .symbol s) ∨
      (found = false ∧ ts = rest ∧ ¬ Begins rest (.symbol s)) := by
  by_cases hb : Begins ts (.symbol s)
  · obtain ⟨t, ht, hs⟩ := hb
    obtain ⟨ts, rfl⟩ := List.head?_eq_some_iff.1 ht
    rw [run_symbol?_of_begins hs] at h
    cases h
    exact .inl ⟨rfl, t, rfl, hs⟩
  · rw [run_symbol?_of_not_begins hb] at h
    cases h
    exact .inr ⟨rfl, rfl, hb⟩

/-! ### The first part of a sequence -/

section First

variable {a : α} {b : β}

/-- A phrase in front is taken, and the rest goes on behind it. -/
theorem Reads.run_bind {p : Parser α} {R : List Token → α → Prop} {follows : List Token → Prop}
    (hp : Reads p R follows) (f : α → Parser β) {xs : List Token} (hx : R xs a)
    (hf : follows rest) : (p >>= f).run stop (xs ++ rest) = (f a).run stop rest :=
  run_bind_of_ok f (hp.complete hx hf)

/-- If a sequence succeeds, then its first part took a phrase. -/
theorem Reads.bind_eq_ok {p : Parser α} {R : List Token → α → Prop} {follows : List Token → Prop}
    (hp : Reads p R follows) {f : α → Parser β} (h : (p >>= f).run stop ts = .ok (b, rest)) :
    ∃ xs a between, ts = xs ++ between ∧ R xs a ∧ (f a).run stop between = .ok (b, rest) := by
  obtain ⟨a, between, ha, hb⟩ := run_bind_eq_ok h
  obtain ⟨xs, hxs, hx⟩ := hp.sound ha
  exact ⟨xs, a, between, hxs, hx, hb⟩

theorem run_symbol_bind {s : Symbol} {t : Token} (f : Token → Parser β) (h : t.kind = .symbol s) :
    (symbol s >>= f).run stop (t :: ts) = (f t).run stop ts :=
  run_bind_of_ok f (run_symbol h)

/-- If a sequence succeeds, then its symbol stood in front. -/
theorem symbol_bind_eq_ok {s : Symbol} {f : Token → Parser β}
    (h : (symbol s >>= f).run stop ts = .ok (b, rest)) :
    ∃ t between, ts = t :: between ∧ t.kind = .symbol s ∧
      (f t).run stop between = .ok (b, rest) := by
  obtain ⟨t, between, ht, hb⟩ := run_bind_eq_ok h
  obtain ⟨hts, hk⟩ := symbol_eq_ok ht
  exact ⟨t, between, hts, hk, hb⟩

theorem run_keyword_bind {k : Keyword} {t : Token} (f : Token → Parser β)
    (h : t.kind = .keyword k) : (keyword k >>= f).run stop (t :: ts) = (f t).run stop ts :=
  run_bind_of_ok f (run_keyword h)

/-- If a sequence succeeds, then its keyword stood in front. -/
theorem keyword_bind_eq_ok {k : Keyword} {f : Token → Parser β}
    (h : (keyword k >>= f).run stop ts = .ok (b, rest)) :
    ∃ t between, ts = t :: between ∧ t.kind = .keyword k ∧
      (f t).run stop between = .ok (b, rest) := by
  obtain ⟨t, between, ht, hb⟩ := run_bind_eq_ok h
  obtain ⟨hts, hk⟩ := keyword_eq_ok ht
  exact ⟨t, between, hts, hk, hb⟩

theorem run_ident_bind {t : Token} {name : String} (f : String → Parser β)
    (h : t.kind = .ident name) : (ident >>= f).run stop (t :: ts) = (f name).run stop ts :=
  run_bind_of_ok f (run_ident h)

/-- If a sequence succeeds, then its name stood in front. -/
theorem ident_bind_eq_ok {f : String → Parser β}
    (h : (ident >>= f).run stop ts = .ok (b, rest)) :
    ∃ t name between, ts = t :: between ∧ t.kind = .ident name ∧
      (f name).run stop between = .ok (b, rest) := by
  obtain ⟨name, between, ht, hb⟩ := run_bind_eq_ok h
  obtain ⟨t, hts, hk⟩ := ident_eq_ok ht
  exact ⟨t, name, between, hts, hk, hb⟩

/-- To look at the next token changes nothing. -/
theorem run_peek_bind (f : Token → Parser β) :
    (peek >>= f).run stop ts = (f (ts.headD stop)).run stop ts := rfl

end First

/-- A parser that always fails reads nothing. -/
theorem reads_failHere (cause : ParseError.Cause) (follows : List Token → Prop) :
    Reads (failHere cause : Parser α) (fun _ _ ↦ False) follows where
  sound h := by cases h
  complete h := h.elim

/-! ### Rounds -/

section Rounds

variable {round : α → Token → Option (Parser α)} {a b : α}

/-- A loop ends at a token that begins no round. -/
theorem loopRun_of_stops (h : ∀ t ∈ ts.head?, round a t = none) :
    loopRun round stop a ts = .ok (a, ts) := by
  cases ts with
  | nil => rw [loopRun]
  | cons t ts =>
    rw [loopRun]
    simp [h t rfl]

/-- A loop goes on behind a round. -/
theorem loopRun_of_round {t : Token} {p : Parser α} (hr : round a t = some p)
    (hp : p.run stop ts = .ok (b, rest)) :
    loopRun round stop a (t :: ts) = loopRun round stop b rest := by
  rw [loopRun]
  simp only [hr]
  split
  · next e he => rw [hp] at he; cases he
  · next c rest' hc =>
    rw [hp] at hc
    cases hc
    rfl

/-- A loop fails with its round. -/
theorem loopRun_of_error {t : Token} {p : Parser α} {e : ParseError} (hr : round a t = some p)
    (hp : p.run stop ts = .error e) : loopRun round stop a (t :: ts) = .error e := by
  rw [loopRun]
  simp only [hr]
  split
  · next e' he =>
    rw [hp] at he
    cases he
    rfl
  · next b rest hok =>
    rw [hp] at hok
    cases hok

/-- What a loop takes, by an invariant on the tokens taken so far, the tokens left and the state. -/
theorem loopRun_sound {I : List Token → List Token → α → Prop}
    (step : ∀ {xs : List Token} {t : Token} {ts rest : List Token} {a b : α} {p : Parser α},
      I xs (t :: ts) a → round a t = some p → p.run stop ts = .ok (b, rest) →
        ∃ ys, ts = ys ++ rest ∧ I (xs ++ t :: ys) rest b)
    (h : loopRun round stop a ts = .ok (b, rest)) {xs : List Token} (hI : I xs ts a) :
    ∃ ys, ts = ys ++ rest ∧ I (xs ++ ys) rest b := by
  fun_induction loopRun round stop a ts generalizing xs with
  | case1 a =>
    cases h
    exact ⟨[], rfl, by simpa using hI⟩
  | case2 a t ts hr =>
    cases h
    exact ⟨[], rfl, by simpa using hI⟩
  | case3 a t ts p hr e hp => cases h
  | case4 a t ts p hr c between hp hlt ih =>
    obtain ⟨ys, rfl, hys⟩ := step hI hr hp
    obtain ⟨zs, rfl, hzs⟩ := ih h hys
    exact ⟨t :: (ys ++ zs), by simp, by simpa using hzs⟩

end Rounds

/-! ### Items -/

section Items

variable {item : Parser α} {R : List Token → α → Prop} {follows : List Token → Prop}
  {close : Symbol}

/-- No token is left, or the next one closes the items. -/
def Closes (close : Symbol) (ts : List Token) : Prop := ∀ t ∈ ts.head?, t.kind = .symbol close

/-- The test of the parser, as a property of the tokens. -/
theorem closes_iff (stop : Token) :
    (ts.isEmpty || (ts.headD stop).isSymbol close) = true ↔ Closes close ts := by
  cases ts with
  | nil => simp [Closes]
  | cons t ts => simp [Closes, Token.isSymbol_iff]

/-- A choice by whether the items are closed. -/
def whenClosed (close : Symbol) (x y : Parser β) : Parser β := do
  if (← atEnd) || (← peek).isSymbol close then x else y

/-- The first choice, if the items are closed. -/
theorem run_whenClosed_of_closes (x y : Parser β) (h : Closes close ts) :
    (whenClosed close x y).run stop ts = x.run stop ts := by
  show (if ts.isEmpty || (ts.headD stop).isSymbol close then x else y).run stop ts = _
  rw [if_pos ((closes_iff stop).2 h)]

/-- The second choice, if they are not. -/
theorem run_whenClosed_of_not_closes (x y : Parser β) (h : ¬ Closes close ts) :
    (whenClosed close x y).run stop ts = y.run stop ts := by
  show (if ts.isEmpty || (ts.headD stop).isSymbol close then x else y).run stop ts = _
  rw [if_neg (mt (closes_iff stop).1 h)]

/-- How a comma continues the items found so far. -/
def nextItem (close : Symbol) (item : Parser α) (found : List α) (comma : Token) :
    Option (Parser (List α)) :=
  if comma.isSymbol .comma then
    some (whenClosed close (pure found) (item >>= fun a ↦ pure (a :: found)))
  else none

/-- Items are a first one and a loop over commas, unless they are closed at once. -/
theorem items_eq (close : Symbol) (item : Parser α) :
    items close item = whenClosed close (pure []) (item >>= fun first ↦
      loop (nextItem close item) [first] >>= fun further ↦ pure further.reverse) :=
  rfl

/-- The items that a loop has taken: as many as were found, and perhaps one more comma, behind
which the items are closed. -/
def Taken (R : List Token → α → Prop) (close : Symbol) (xs rest : List Token) (found : List α) :
    Prop :=
  Separated R xs found.reverse ∨
    ∃ ys comma, xs = ys ++ [comma] ∧ comma.kind = .symbol .comma ∧
      Separated R ys found.reverse ∧ Closes close rest

/-- What the loop has taken are items. -/
theorem Taken.items {xs : List Token} {found : List α} (h : Taken R close xs rest found) :
    Items R xs found.reverse := by
  rcases h with h | ⟨ys, comma, rfl, hc, h, -⟩
  · exact .separated h
  · exact .trailing h hc

/-- One more round takes a comma, and an item unless the items are closed. -/
theorem Taken.next (hitem : Reads item R follows) (hclose : close ≠ .comma)
    {xs : List Token} {comma : Token} {found found' : List α} {p : Parser (List α)}
    (h : Taken R close xs (comma :: ts) found) (hr : nextItem close item found comma = some p)
    (hp : p.run stop ts = .ok (found', rest)) :
    ∃ ys, ts = ys ++ rest ∧ Taken R close (xs ++ comma :: ys) rest found' := by
  obtain ⟨hs, rfl⟩ : comma.isSymbol .comma = true ∧
      whenClosed close (pure found) (item >>= fun a ↦ pure (a :: found)) = p := by
    simpa [nextItem] using hr
  have hcomma := Token.isSymbol_iff.1 hs
  rcases h with h | ⟨ys, c, -, -, -, hcl⟩
  · by_cases hc : Closes close ts
    · rw [run_whenClosed_of_closes _ _ hc] at hp
      cases hp
      exact ⟨[], rfl, .inr ⟨xs, comma, rfl, hcomma, h, hc⟩⟩
    · rw [run_whenClosed_of_not_closes _ _ hc] at hp
      obtain ⟨a, between, ha, hb⟩ := run_bind_eq_ok hp
      cases hb
      obtain ⟨ys, rfl, hys⟩ := hitem.sound ha
      refine ⟨ys, rfl, .inl ?_⟩
      rw [List.reverse_cons]
      exact .more h hcomma hys
  · -- Behind a closing comma the next token is no comma again.
    have hk := (hcl comma rfl).symm.trans hcomma
    exact absurd (Token.Kind.symbol.inj hk) hclose

/-- Where an item begins, the items are not closed. -/
theorem not_closes_of_separated
    (hstart : ∀ {xs : List Token} {a : α} (ts : List Token), R xs a → ¬ Closes close (xs ++ ts))
    {xs : List Token} {as : List α} (h : Separated R xs as) (ts : List Token) :
    ¬ Closes close (xs ++ ts) := by
  induction h generalizing ts with
  | one hx => exact hstart ts hx
  | more _ _ _ ih =>
    rw [List.append_assoc]
    exact ih _

/-- Items with commas between them are taken one by one, and the loop goes on behind them. -/
theorem run_separated (hitem : Reads item R follows)
    (hstart : ∀ {xs : List Token} {a : α} (ts : List Token), R xs a → ¬ Closes close (xs ++ ts))
    (hcomma : ∀ {t : Token} (ts : List Token), t.kind = .symbol .comma → follows (t :: ts))
    {xs : List Token} {as : List α} (h : Separated R xs as) (hf : follows rest) (stop : Token) :
    (item >>= fun first ↦ loop (nextItem close item) [first]).run stop (xs ++ rest) =
      loopRun (nextItem close item) stop as.reverse rest := by
  induction h generalizing rest with
  | one hx => exact run_bind_of_ok _ (hitem.complete hx hf)
  | @more xs ys as a comma _ hc hy ih =>
    have hround : nextItem close item as.reverse comma = some _ :=
      if_pos (Token.isSymbol_iff.2 hc)
    have hnext : (whenClosed close (pure as.reverse) (item >>= fun a ↦ pure (a :: as.reverse))).run
        stop (ys ++ rest) = .ok (a :: as.reverse, rest) := by
      rw [run_whenClosed_of_not_closes _ _ (hstart rest hy),
        run_bind_of_ok _ (hitem.complete hy hf)]
      rfl
    rw [List.append_assoc, List.cons_append, ih (hcomma _ hc), loopRun_of_round hround hnext,
      List.reverse_append]
    rfl

/-- Items are read from the left, when an item neither is empty nor begins like what closes them,
and when a comma and what closes them may follow an item. -/
theorem Reads.items (hitem : Reads item R follows) (hclose : close ≠ .comma)
    (hstart : ∀ {xs : List Token} {a : α} (ts : List Token), R xs a → ¬ Closes close (xs ++ ts))
    (hcomma : ∀ {t : Token} (ts : List Token), t.kind = .symbol .comma → follows (t :: ts))
    (hend : ∀ {t : Token} (ts : List Token), t.kind = .symbol close → follows (t :: ts)) :
    Reads (items close item) (Items R) fun rest ↦ Begins rest (.symbol close) where
  sound {stop ts rest as} h := by
    rw [items_eq] at h
    by_cases hc : Closes close ts
    · rw [run_whenClosed_of_closes _ _ hc] at h
      cases h
      exact ⟨[], rfl, .none⟩
    · rw [run_whenClosed_of_not_closes _ _ hc] at h
      obtain ⟨first, between, hfirst, h⟩ := run_bind_eq_ok h
      obtain ⟨found, rest', hloop, h⟩ := run_bind_eq_ok h
      cases h
      obtain ⟨xs, rfl, hxs⟩ := hitem.sound hfirst
      -- The invariant of the loop holds of the first item.
      have htaken : Taken R close xs between [first] := .inl (.one hxs)
      obtain ⟨ys, rfl, hys⟩ :=
        loopRun_sound (I := Taken R close) (Taken.next hitem hclose) hloop htaken
      exact ⟨xs ++ ys, by simp, hys.items⟩
  complete {stop xs rest as} h hrest := by
    obtain ⟨t, ht, hk⟩ := hrest
    obtain ⟨rest, rfl⟩ := List.head?_eq_some_iff.1 ht
    have hcl : Closes close (t :: rest) := by
      rintro u ⟨⟩
      exact hk
    have hstops : ∀ u ∈ (t :: rest).head?, nextItem close item as.reverse u = none := by
      rintro u ⟨⟩
      refine if_neg fun hs ↦ hclose ?_
      exact Token.Kind.symbol.inj (hk.symm.trans (Token.isSymbol_iff.1 hs))
    have hreverse : (pure as.reverse.reverse : Parser (List α)).run stop (t :: rest) =
        .ok (as, t :: rest) := by
      rw [List.reverse_reverse, run_pure]
    rw [items_eq]
    cases h with
    | none => exact run_whenClosed_of_closes _ _ hcl
    | separated h =>
      have hrun := run_separated hitem hstart hcomma h (hend rest hk) stop
      rw [loopRun_of_stops hstops] at hrun
      rw [run_whenClosed_of_not_closes _ _ (not_closes_of_separated hstart h _), run_bind_assoc,
        run_bind_of_ok _ hrun, hreverse]
    -- The last comma begins a round that finds the items closed.
    | @trailing xs _ comma h hc =>
      have hround : nextItem close item as.reverse comma = some _ :=
        if_pos (Token.isSymbol_iff.2 hc)
      have hrun := run_separated hitem hstart hcomma h (hcomma (t :: rest) hc) stop
      rw [loopRun_of_round hround (run_whenClosed_of_closes _ _ hcl),
        loopRun_of_stops hstops] at hrun
      rw [List.append_assoc, List.singleton_append,
        run_whenClosed_of_not_closes _ _ (not_closes_of_separated hstart h _), run_bind_assoc,
        run_bind_of_ok _ hrun, hreverse]

end Items

/-! ### Phrases one after the other -/

section Many

variable {p : Parser α} {R : List Token → α → Prop} {follows : List Token → Prop}
  {ends : Token → Bool}

/-- A repetition goes on behind an item. -/
theorem manyRun_of_ok {hp : p.Strict} {found : List α} {t : Token} {a : α}
    (hends : ¬ ends t = true) (hrun : p.run stop (t :: ts) = .ok (a, rest)) :
    manyRun ends p hp stop found (t :: ts) = manyRun ends p hp stop (a :: found) rest := by
  rw [manyRun, if_neg hends]
  split
  · next e he =>
    rw [hrun] at he
    cases he
  · next b rest' hok =>
    rw [hrun] at hok
    cases hok
    rfl

/-- A repetition fails with its item. -/
theorem manyRun_of_error {hp : p.Strict} {found : List α} {t : Token} {e : ParseError}
    (hends : ¬ ends t = true) (hrun : p.run stop (t :: ts) = .error e) :
    manyRun ends p hp stop found (t :: ts) = .error e := by
  rw [manyRun, if_neg hends]
  split
  · next e' he =>
    rw [hrun] at he
    cases he
    rfl
  · next b rest' hok =>
    rw [hrun] at hok
    cases hok

/-- What a repetition takes are items, and it stops where it has to. -/
theorem manyRun_sound (hp : p.Strict) (hR : Reads p R follows) {found as : List α}
    (h : manyRun ends p hp stop found ts = .ok (as, rest)) :
    (∃ xs bs, ts = xs ++ rest ∧ as = found.reverse ++ bs ∧ Many R xs bs) ∧
      ∀ t ∈ rest.head?, ends t = true := by
  fun_induction manyRun ends p hp stop found ts with
  | case1 found =>
    cases h
    exact ⟨⟨[], [], rfl, by simp, .nil⟩, fun t ht ↦ by cases ht⟩
  | case2 found t ts he =>
    cases h
    refine ⟨⟨[], [], rfl, by simp, .nil⟩, ?_⟩
    rintro u ⟨⟩
    exact he
  | case3 found t ts he e hr => cases h
  | case4 found t ts he a between hr hlt ih =>
    obtain ⟨⟨ys, bs, rfl, rfl, hys⟩, hends⟩ := ih h
    obtain ⟨xs, hxs, hx⟩ := hR.sound hr
    exact ⟨⟨xs ++ ys, a :: bs, by simp [hxs], by simp, .cons hx hys⟩, hends⟩

/-- A repetition takes all items up to where it has to stop. -/
theorem manyRun_complete (hp : p.Strict) (hR : Reads p R follows)
    (hstart : ∀ {xs : List Token} {a : α}, R xs a → ∃ t ts, xs = t :: ts ∧ ends t = false)
    (hnext : ∀ {xs : List Token} {a : α} (ts : List Token), R xs a → follows (xs ++ ts))
    {xs : List Token} {as : List α} (h : Many R xs as) (hends : ∀ t ∈ rest.head?, ends t = true)
    (hf : follows rest) (found : List α) :
    manyRun ends p hp stop found (xs ++ rest) = .ok (found.reverse ++ as, rest) := by
  induction h generalizing found with
  | nil =>
    cases rest with
    | nil =>
      rw [List.nil_append, manyRun]
      simp
    | cons t rest =>
      rw [List.nil_append, manyRun, if_pos (hends t rfl), List.append_nil]
  | @cons xs ys a as hx hys ih =>
    -- Behind a phrase stands the next one, or what follows them all.
    have hbehind : follows (ys ++ rest) := by
      cases hys with
      | nil => exact hf
      | cons hy _ =>
        rw [List.append_assoc]
        exact hnext _ hy
    have hrun : p.run stop (xs ++ (ys ++ rest)) = _ := hR.complete hx hbehind
    obtain ⟨t, ts, rfl, ht⟩ := hstart hx
    rw [List.append_assoc]
    rw [List.cons_append] at hrun ⊢
    rw [manyRun_of_ok (by simp [ht]) hrun, ih, List.reverse_cons, List.append_assoc,
      List.singleton_append]

/-- Phrases are read one after the other, when none of them is empty or begins like what ends them,
and when each may follow another. -/
theorem Reads.many (hp : p.Strict) (hR : Reads p R follows)
    (hstart : ∀ {xs : List Token} {a : α}, R xs a → ∃ t ts, xs = t :: ts ∧ ends t = false)
    (hnext : ∀ {xs : List Token} {a : α} (ts : List Token), R xs a → follows (xs ++ ts)) :
    Reads (many ends p hp) (Many R) fun rest ↦
      (∀ t ∈ rest.head?, ends t = true) ∧ follows rest where
  sound h := by
    obtain ⟨⟨xs, as, rfl, rfl, hxs⟩, -⟩ := manyRun_sound hp hR h
    exact ⟨xs, rfl, hxs⟩
  complete h hf := manyRun_complete hp hR hstart hnext h hf.1 hf.2 []

end Many

end Parser

end SafariScript
