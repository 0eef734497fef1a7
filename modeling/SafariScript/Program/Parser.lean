import SafariScript.Program.ParseError

/-!
# Parsers of tokens

A `Parser` reads tokens from the left and gives a result and the tokens it left, or fails at a
token. Where no token is left it sees the token that marks the end, which it never takes. Every
parser carries the proof that it **never leaves more tokens than it got**, so that repetition ends:
`loop` takes a token in each round, and `many` repeats a parser that always takes one (`Strict`).
-/

namespace SafariScript

/-- A reader of tokens. `stop` is the token that marks the end of the input. -/
structure Parser (α : Type) where
  run : (stop : Token) → List Token → Except ParseError (α × List Token)
  shrinks : ∀ {stop : Token} {ts : List Token} {a : α} {rest : List Token},
    run stop ts = .ok (a, rest) → rest.length ≤ ts.length

namespace Parser

variable {α β : Type}

/-! ### Sequencing -/

/-- Takes nothing and gives `a`. -/
protected def pure (a : α) : Parser α where
  run _ ts := .ok (a, ts)
  shrinks h := by
    cases h
    exact Nat.le_refl _

/-- The tokens left by the first of two parsers are read by the second. -/
def runThen (stop : Token) (f : α → Parser β) :
    Except ParseError (α × List Token) → Except ParseError (β × List Token)
  | .error e => .error e
  | .ok (a, rest) => (f a).run stop rest

/-- Runs `p` and then the parser chosen by its result. -/
protected def bind (p : Parser α) (f : α → Parser β) : Parser β where
  run stop ts := runThen stop f (p.run stop ts)
  shrinks {stop ts b rest} h := by
    cases hp : p.run stop ts with
    | error e => rw [hp] at h; cases h
    | ok result =>
      obtain ⟨a, between⟩ := result
      rw [hp] at h
      exact Nat.le_trans ((f a).shrinks h) (p.shrinks hp)

instance : Monad Parser where
  pure := Parser.pure
  bind := Parser.bind

@[simp] theorem run_pure (a : α) (stop : Token) (ts : List Token) :
    (pure a : Parser α).run stop ts = .ok (a, ts) := rfl

@[simp] theorem run_bind (p : Parser α) (f : α → Parser β) (stop : Token) (ts : List Token) :
    (p >>= f).run stop ts = runThen stop f (p.run stop ts) := rfl

/-- A sequence that succeeds splits into its two parts. -/
theorem run_bind_eq_ok {p : Parser α} {f : α → Parser β} {stop : Token} {ts rest : List Token}
    {b : β} (h : (p >>= f).run stop ts = .ok (b, rest)) :
    ∃ a between, p.run stop ts = .ok (a, between) ∧ (f a).run stop between = .ok (b, rest) := by
  rw [run_bind] at h
  cases hp : p.run stop ts with
  | error e => rw [hp] at h; cases h
  | ok result =>
    obtain ⟨a, between⟩ := result
    rw [hp] at h
    exact ⟨a, between, rfl, h⟩

/-! ### Single tokens -/

/-- Fails at the given token. -/
def fail (cause : ParseError.Cause) (token : Token) : Parser α where
  run _ _ := .error ⟨cause, token⟩
  shrinks h := by cases h

/-- The next token, which is not taken. -/
def peek : Parser Token where
  run stop ts := .ok (ts.headD stop, ts)
  shrinks h := by
    cases h
    exact Nat.le_refl _

/-- Whether no token is left. -/
def atEnd : Parser Bool where
  run _ ts := .ok (ts.isEmpty, ts)
  shrinks h := by
    cases h
    exact Nat.le_refl _

/-- Fails at the next token. -/
def failHere (cause : ParseError.Cause) : Parser α := do fail cause (← peek)

/-- The next token and the tokens behind it, when the next one is accepted. -/
def split? (accepts : Token → Option α) : List Token → Option (α × List Token)
  | [] => none
  | t :: ts => (accepts t).map fun a ↦ (a, ts)

/-- A token that is taken is not left. -/
theorem length_of_split? {accepts : Token → Option α} {ts rest : List Token} {a : α}
    (h : split? accepts ts = some (a, rest)) : rest.length < ts.length := by
  cases ts with
  | nil => cases h
  | cons t ts =>
    obtain ⟨b, -, hb⟩ := Option.map_eq_some_iff.1 h
    cases hb
    exact Nat.lt_succ_self _

/-- Takes the next token if it is accepted, and fails there otherwise. -/
def take (accepts : Token → Option α) (cause : ParseError.Cause) : Parser α where
  run stop ts :=
    match split? accepts ts with
    | some result => .ok result
    | none => .error ⟨cause, ts.headD stop⟩
  shrinks {stop ts a rest} h := by
    split at h
    · next result hs =>
      cases h
      exact Nat.le_of_lt (length_of_split? hs)
    · cases h

/-- Takes the next token if it is accepted, and nothing otherwise. -/
def take? (accepts : Token → Option α) : Parser (Option α) where
  run _ ts :=
    match split? accepts ts with
    | some (a, rest) => .ok (some a, rest)
    | none => .ok (none, ts)
  shrinks {stop ts a rest} h := by
    split at h
    · next hs =>
      cases h
      exact Nat.le_of_lt (length_of_split? hs)
    · cases h
      exact Nat.le_refl _

/-- Takes the given symbol. -/
def symbol (s : Symbol) : Parser Token :=
  take (fun t ↦ if t.isSymbol s then some t else none) (.expected (.symbol s))

/-- Takes the given keyword. -/
def keyword (k : Keyword) : Parser Token :=
  take (fun t ↦ if t.isWord k then some t else none) (.expected (.keyword k))

/-- The name of an identifier. -/
def identName? (t : Token) : Option String :=
  match t.kind with
  | .ident name => some name
  | _ => none

/-- Takes an identifier and gives its name. -/
def ident : Parser String := take identName? .expectedIdentifier

/-- Takes the given symbol if it stands next, and says whether it did. -/
def symbol? (s : Symbol) : Parser Bool := do
  let found ← take? fun t ↦ if t.isSymbol s then some t else none
  return found.isSome

/-! ### Parsers that always take a token -/

/-- A parser that takes at least one token whenever it succeeds. -/
def Strict (p : Parser α) : Prop :=
  ∀ ⦃stop : Token⦄ ⦃ts : List Token⦄ ⦃a : α⦄ ⦃rest : List Token⦄,
    p.run stop ts = .ok (a, rest) → rest.length < ts.length

/-- A parser that fails leaves nothing. -/
theorem strict_fail (cause : ParseError.Cause) (t : Token) : (fail cause t : Parser α).Strict := by
  intro stop ts a rest h
  cases h

/-- A parser that takes a token takes one. -/
theorem strict_take (accepts : Token → Option α) (cause : ParseError.Cause) :
    (take accepts cause).Strict := by
  intro stop ts a rest h
  simp only [take] at h
  split at h
  · next hs =>
    cases h
    exact length_of_split? hs
  · cases h

/-- A sequence takes a token if its first part does. -/
theorem Strict.bind_left {p : Parser α} (hp : p.Strict) (f : α → Parser β) :
    (p >>= f).Strict := by
  intro stop ts b rest h
  obtain ⟨a, between, ha, hb⟩ := run_bind_eq_ok h
  exact Nat.lt_of_le_of_lt ((f a).shrinks hb) (hp ha)

/-- A sequence takes a token if its second part does, whatever the first part gives. -/
theorem Strict.bind_right (p : Parser α) {f : α → Parser β} (hf : ∀ a, (f a).Strict) :
    (p >>= f).Strict := by
  intro stop ts b rest h
  obtain ⟨a, between, ha, hb⟩ := run_bind_eq_ok h
  exact Nat.lt_of_lt_of_le (hf a hb) (p.shrinks ha)

theorem strict_failHere (cause : ParseError.Cause) : (failHere cause : Parser α).Strict :=
  .bind_right peek fun t ↦ strict_fail cause t

/-! ### Repetition -/

/-- Runs rounds as long as the next token starts one; a round takes that token. -/
def loopRun (round : α → Token → Option (Parser α)) (stop : Token) (a : α) (ts : List Token) :
    Except ParseError (α × List Token) :=
  match ts with
  | [] => .ok (a, [])
  | t :: ts' =>
    match round a t with
    | none => .ok (a, t :: ts')
    | some p =>
      match h : p.run stop ts' with
      | .error e => .error e
      | .ok (b, rest) =>
        have : rest.length < ts'.length + 1 := Nat.lt_succ_of_le (p.shrinks h)
        loopRun round stop b rest
termination_by ts.length

/-- A loop leaves no more than there was. -/
theorem length_of_loopRun (round : α → Token → Option (Parser α)) (stop : Token) (a : α)
    (ts : List Token) {b : α} {rest : List Token}
    (h : loopRun round stop a ts = .ok (b, rest)) : rest.length ≤ ts.length := by
  fun_induction loopRun round stop a ts with
  | case1 a => cases h; exact Nat.le_refl _
  | case2 a t ts' hr => cases h; exact Nat.le_refl _
  | case3 a t ts' p hr e hp => cases h
  | case4 a t ts' p hr b rest' hp hlt ih => exact Nat.le_trans (ih h) (Nat.le_of_lt hlt)

/-- Repeats rounds from the state `a`: as long as the next token starts a round, the token is
taken and the round turns the state into the next one. -/
def loop (round : α → Token → Option (Parser α)) (a : α) : Parser α where
  run stop ts := loopRun round stop a ts
  shrinks h := length_of_loopRun _ _ _ _ h

/-- Repeats `p` until no token is left or the next one ends the sequence; `found` holds the
results so far in reverse order. -/
def manyRun (ends : Token → Bool) (p : Parser α) (hp : p.Strict) (stop : Token) (found : List α)
    (ts : List Token) : Except ParseError (List α × List Token) :=
  match ts with
  | [] => .ok (found.reverse, [])
  | t :: ts' =>
    if ends t then .ok (found.reverse, t :: ts')
    else
      match h : p.run stop (t :: ts') with
      | .error e => .error e
      | .ok (a, rest) =>
        have : rest.length < ts'.length + 1 := hp h
        manyRun ends p hp stop (a :: found) rest
termination_by ts.length

/-- A repetition leaves no more than there was. -/
theorem length_of_manyRun (ends : Token → Bool) (p : Parser α) (hp : p.Strict) (stop : Token)
    (found : List α) (ts : List Token) {found' : List α} {rest : List Token}
    (h : manyRun ends p hp stop found ts = .ok (found', rest)) : rest.length ≤ ts.length := by
  fun_induction manyRun ends p hp stop found ts with
  | case1 found => cases h; exact Nat.le_refl _
  | case2 found t ts' he => cases h; exact Nat.le_refl _
  | case3 found t ts' he e hr => cases h
  | case4 found t ts' he a rest' hr hlt ih => exact Nat.le_trans (ih h) (Nat.le_of_lt hlt)

/-- The results of `p`, repeated until no token is left or the next one ends the sequence. -/
def many (ends : Token → Bool) (p : Parser α) (hp : p.Strict) : Parser (List α) where
  run stop ts := manyRun ends p hp stop [] ts
  shrinks h := length_of_manyRun _ _ _ _ _ _ h

/-- The items of a list that ends before the symbol `close`: commas stand between items, and one
may follow the last. -/
def items (close : Symbol) (item : Parser α) : Parser (List α) := do
  if (← atEnd) || (← peek).isSymbol close then return []
  let first ← item
  let further ← loop (fun found comma ↦
    if comma.isSymbol .comma then some do
      if (← atEnd) || (← peek).isSymbol close then return found
      return (← item) :: found
    else none) [first]
  return further.reverse

end Parser

end SafariScript
