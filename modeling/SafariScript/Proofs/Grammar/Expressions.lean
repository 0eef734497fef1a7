import SafariScript.Proofs.Grammar.Reading

/-!
# Reading expressions

Every level of the descent reads its phrases, **from the strength with which tokens bind**: a token
that may continue an expression binds what stands before it with a certain strength
(`Token.Kind.strength`), and a level reads its phrases up to a token that binds more loosely than
its own operators do (`Looser`). Since every level takes stronger tokens than the levels around it,
operators of one level never stop an operand of the next one too early or too late.

Suffixes have one more condition, since `(` behind the name of a method belongs to the method. What
the loop took and what is left are both in its invariant there.
-/

namespace SafariScript

open SafariScript.Parser SafariScript.Language

/-! ### What tokens do to the expression before them, and what expressions begin with -/

/-- How closely the token binds what stands before it. A token that does not continue an expression
does not bind. -/
def Token.Kind.strength : Token.Kind → Nat
  | .symbol .dot | .symbol .arrow | .symbol .leftParen => 8
  | .symbol .star | .symbol .slash | .symbol .percent => 7
  | .symbol .plus | .symbol .minus => 6
  | .symbol .less | .symbol .lessEqual | .symbol .greater | .symbol .greaterEqual => 5
  | .symbol .equalEqual | .symbol .bangEqual => 4
  | .keyword .and => 3
  | .keyword .or => 2
  | .symbol .equal => 1
  | _ => 0

/-- How closely the operators of a level bind. -/
def Language.Level.strength : Level → Nat
  | .disjunction => 2
  | .conjunction => 3
  | .equality => 4
  | .comparison => 5
  | .sum => 6
  | .product => 7

/-- The next token, if there is one, binds more loosely than the given strength. -/
def Looser (n : Nat) (ts : List Token) : Prop := ∀ t ∈ ts.head?, t.kind.strength < n

theorem Looser.mono {m n : Nat} {ts : List Token} (h : Looser m ts) (hmn : m ≤ n) : Looser n ts :=
  fun t ht ↦ Nat.lt_of_lt_of_le (h t ht) hmn

/-- Only the first of the tokens matters. -/
theorem looser_cons {n : Nat} {t : Token} {k : Token.Kind} (ts : List Token) (ht : t.kind = k)
    (hk : k.strength < n) : Looser n (t :: ts) := by
  rintro u ⟨⟩
  rwa [ht]

/-- A token that binds as strongly as that does not follow. -/
theorem Looser.not_begins {n : Nat} {ts : List Token} {k : Token.Kind} (h : Looser n ts)
    (hk : n ≤ k.strength) : ¬ Begins ts k := by
  rintro ⟨t, ht, rfl⟩
  have := h t ht
  omega

/-- Whether an expression may begin with the token. -/
def Token.Kind.beginsExpr : Token.Kind → Bool
  | .literal _ | .ident _ | .symbol .leftParen | .symbol .leftBracket => true
  | .symbol .minus | .keyword .not => true
  | _ => false

/-- The shape of an expression: it is not empty, and it is a single identifier just when it begins
with an identifier and its tree is one. -/
structure Shaped (xs : List Token) (e : Expr) : Prop where
  begins : ∃ t ts, xs = t :: ts ∧ t.kind.beginsExpr = true
  name_iff : (∃ name, Name xs name) ↔
    (∃ t ts name, xs = t :: ts ∧ t.kind = .ident name) ∧ ∃ name span, e = .ident name span

namespace Shaped

variable {xs ys : List Token} {e e' : Expr} {t : Token}

/-- A single identifier is one in both senses. -/
theorem ident {name : String} (h : t.kind = .ident name) : Shaped [t] (.ident name t.span) where
  begins := ⟨t, [], rfl, by rw [h]; rfl⟩
  name_iff := ⟨fun _ ↦ ⟨⟨t, [], name, rfl, h⟩, name, t.span, rfl⟩, fun _ ↦ ⟨name, .ident h⟩⟩

/-- What does not begin with an identifier. -/
theorem of_first (hb : t.kind.beginsExpr = true) (hn : ∀ name, t.kind ≠ .ident name) :
    Shaped (t :: ys) e where
  begins := ⟨t, ys, rfl, hb⟩
  name_iff := by
    constructor
    · rintro ⟨name, ⟨h⟩⟩
      exact absurd h (hn name)
    · rintro ⟨⟨u, us, name, hu, hk⟩, -⟩
      cases hu
      exact absurd hk (hn name)

/-- A longer expression whose tree is no identifier. -/
theorem append (h : Shaped xs e) (hys : ys ≠ []) (he : ∀ name span, e' ≠ .ident name span) :
    Shaped (xs ++ ys) e' := by
  obtain ⟨t, ts, rfl, hb⟩ := h.begins
  refine ⟨⟨t, ts ++ ys, rfl, hb⟩, ?_, ?_⟩
  · rintro ⟨name, hname⟩
    generalize hzs : t :: ts ++ ys = zs at hname
    obtain ⟨-⟩ := hname
    obtain ⟨-, hnil⟩ := List.cons.inj hzs
    exact absurd (List.append_eq_nil_iff.1 hnil).2 hys
  · rintro ⟨-, name, span, rfl⟩
    exact absurd rfl (he name span)

end Shaped

/-- Of the primary expressions only the identifier is a name. -/
theorem Language.Primary.shaped {L : Language} {xs : List Token} {e : Expr} (h : Primary L xs e) :
    Shaped xs e := by
  cases h with
  | literal h => exact .of_first (by rw [h]; rfl) (by simp [h])
  | ident h => exact .ident h
  | group h _ _ => exact .of_first (by rw [h]; rfl) (by simp [h])
  | list h _ _ => exact .of_first (by rw [h]; rfl) (by simp [h])

/-- An expression with a suffix is no name. -/
theorem Language.Suffixed.shaped {L : Language} {xs : List Token} {e : Expr}
    (h : Suffixed L xs e) : Shaped xs e := by
  induction h with
  | primary h => exact h.shaped
  | property _ _ _ ih | method _ _ _ ih | methodArgs _ _ _ _ _ _ ih | call _ _ _ _ _ ih =>
    exact ih.append (by simp) (by simp)

/-- A suffixed expression does not begin with a unary operator. -/
theorem Language.Suffixed.unaryOp?_eq_none {L : Language} {xs : List Token} {e : Expr}
    (h : Suffixed L xs e) : ∃ t ts, xs = t :: ts ∧ Grammar.unaryOp? t = none := by
  induction h with
  | primary h => cases h <;> exact ⟨_, _, rfl, by simp [Grammar.unaryOp?, *]⟩
  | property _ _ _ ih | method _ _ _ ih | methodArgs _ _ _ _ _ _ ih | call _ _ _ _ _ ih =>
    obtain ⟨t, ts, rfl, ht⟩ := ih
    exact ⟨t, _, rfl, ht⟩

/-- An expression with an operator before it is no name. -/
theorem Language.Unary.shaped {L : Language} {xs : List Token} {e : Expr} (h : Unary L xs e) :
    Shaped xs e := by
  cases h with
  | @operator t op xs e h _ =>
    refine .of_first ?_ fun name hn ↦ ?_
    · generalize t.kind = k at h
      cases h <;> rfl
    · rw [hn] at h
      cases h
  | suffixed h => exact h.shaped

/-- No operator builds an identifier. -/
theorem Language.Operator.ne_ident {level : Level} {k : Token.Kind}
    {build : Expr → Expr → Span → Expr} (h : Operator level k build) (left right : Expr)
    (span : Span) (name : String) (span' : Span) : build left right span ≠ .ident name span' := by
  cases h <;> simp

/-- Operands with operators between them are no name. -/
theorem Language.LeftAssoc.shaped {level : Level} {R : List Token → Expr → Prop}
    (hR : ∀ {xs : List Token} {e : Expr}, R xs e → Shaped xs e) {xs : List Token} {e : Expr}
    (h : LeftAssoc level R xs e) : Shaped xs e := by
  induction h with
  | operand h => exact hR h
  | operator _ hop _ ih => exact ih.append (by simp) (hop.ne_ident _ _ _)

theorem Language.Disjunction.shaped {L : Language} {xs : List Token} {e : Expr}
    (h : Disjunction L xs e) : Shaped xs e :=
  LeftAssoc.shaped (LeftAssoc.shaped <| LeftAssoc.shaped <| LeftAssoc.shaped <| LeftAssoc.shaped <|
    LeftAssoc.shaped Unary.shaped) h

/-- An assignment proper is no name. -/
theorem Language.Assignment.shaped {L : Language} {xs : List Token} {e : Expr}
    (h : Assignment L xs e) : Shaped xs e := by
  cases h with
  | plain h => exact h.shaped
  | assign h _ _ _ => exact h.shaped.append (by simp) (by simp)

/-! ### One level further in -/

/-- The grammar reads what the language says of one level further in. -/
structure Grammar.Accepts (g : Grammar) (L : Language) : Prop where
  expr : Reads g.expr L.expr (Looser 1)
  operand : Reads g.operand L.operand (Looser 8)
  block : ∀ control, Reads (g.block control) (L.block control) fun _ ↦ True
  shaped : ∀ {xs : List Token} {e : Expr}, L.expr xs e → Shaped xs e
  begins_block : ∀ {control : Bool} {xs : List Token} {body : List Stmt},
    L.block control xs body → ∃ t ts, xs = t :: ts ∧ t.kind = .symbol .leftBrace

namespace Grammar

variable {g : Grammar} {L : Language} {stop : Token} {ts rest : List Token}

/-- Items that begin as expressions do, up to a token that does not continue an expression. -/
theorem reads_items {α : Type} {item : Parser α} {R : List Token → α → Prop}
    (hitem : Reads item R (Looser 1))
    (hbegins : ∀ {xs : List Token} {a : α}, R xs a →
      ∃ t ts, xs = t :: ts ∧ t.kind.beginsExpr = true)
    {close : Symbol} (hclose : close = .rightParen ∨ close = .rightBracket) :
    Reads (items close item) (Items R) fun rest ↦ Begins rest (.symbol close) := by
  refine hitem.items ?_ ?_ ?_ ?_
  · rcases hclose with rfl | rfl <;> simp
  · intro xs a ts ha hc
    obtain ⟨t, us, rfl, ht⟩ := hbegins ha
    rw [hc t rfl] at ht
    rcases hclose with rfl | rfl <;> cases ht
  · exact fun ts ht ↦ looser_cons ts ht Nat.zero_lt_one
  · intro t ts ht
    refine looser_cons ts ht ?_
    rcases hclose with rfl | rfl <;> exact Nat.zero_lt_one

/-- Items are read up to the parenthesis or the bracket that closes them. -/
theorem Accepts.items (hg : g.Accepts L) {close : Symbol}
    (hclose : close = .rightParen ∨ close = .rightBracket) :
    Reads (items close g.expr) (Items L.expr) fun rest ↦ Begins rest (.symbol close) :=
  reads_items hg.expr (fun h ↦ (hg.shaped h).begins) hclose

/-! ### Primary expressions -/

/-- The first token decides which primary expression it is, and nothing behind it matters. -/
theorem reads_primary (hg : g.Accepts L) : Reads g.primary (Primary L) fun _ ↦ True where
  sound {stop ts rest e} h := by
    rw [primary, run_peek_bind] at h
    -- The parser has chosen by the kind of its first token.
    split at h
    · next value hk =>
      obtain ⟨u, between, hu, h₁⟩ := run_bind_eq_ok h
      obtain ⟨t, rfl, -⟩ := take_eq_ok hu
      cases h₁
      exact ⟨[t], rfl, .literal hk⟩
    · next name hk =>
      obtain ⟨u, between, hu, h₁⟩ := run_bind_eq_ok h
      obtain ⟨t, rfl, -⟩ := take_eq_ok hu
      cases h₁
      exact ⟨[t], rfl, .ident hk⟩
    · obtain ⟨left, _, rfl, hl, h₁⟩ := symbol_bind_eq_ok h
      obtain ⟨xs, e, _, rfl, he, h₂⟩ := hg.expr.bind_eq_ok h₁
      obtain ⟨right, _, rfl, hr, h₃⟩ := symbol_bind_eq_ok h₂
      cases h₃
      exact ⟨left :: (xs ++ [right]), by simp, .group hl he hr⟩
    · obtain ⟨left, _, rfl, hl, h₁⟩ := symbol_bind_eq_ok h
      obtain ⟨xs, es, _, rfl, hes, h₂⟩ := (hg.items (.inr rfl)).bind_eq_ok h₁
      obtain ⟨right, _, rfl, hr, h₃⟩ := symbol_bind_eq_ok h₂
      cases h₃
      exact ⟨left :: (xs ++ [right]), by simp, .list hl hes hr⟩
    · cases h
  complete h _ := by
    rw [primary, run_peek_bind]
    cases h with
    | literal hk =>
      simp only [List.singleton_append, List.headD_cons, hk]
      rfl
    | ident hk =>
      simp only [List.singleton_append, List.headD_cons, hk]
      rfl
    | group hl he hr =>
      simp only [List.cons_append, List.append_assoc, List.nil_append, List.headD_cons, hl]
      rw [run_symbol_bind _ hl, hg.expr.run_bind _ he (looser_cons _ hr Nat.zero_lt_one),
        run_symbol_bind _ hr]
      rfl
    | list hl hes hr =>
      simp only [List.cons_append, List.append_assoc, List.nil_append, List.headD_cons, hl]
      rw [run_symbol_bind _ hl, (hg.items (.inr rfl)).run_bind _ hes ⟨_, rfl, hr⟩,
        run_symbol_bind _ hr]
      rfl

/-! ### Arguments of methods -/

/-- A name and `=` begin an argument with a name. -/
theorem run_argument_of_named {t u : Token} {name : String} (ht : t.kind = .ident name)
    (hu : u.kind = .symbol .equal) :
    g.argument.run stop (t :: u :: ts) =
      (g.expr >>= fun e ↦ pure (.named name e)).run stop ts := by
  have htwo : peekTwo.run stop (t :: u :: ts) = .ok ([t, u], t :: u :: ts) := rfl
  rw [argument, run_bind_of_ok _ htwo]
  simp only [ht, Token.isSymbol_iff.2 hu]
  rw [run_ident_bind _ ht, run_symbol_bind _ hu]

/-- Everything else begins an argument without a name. -/
theorem run_argument_of_not_named (h : ¬ BeginsNamed ts) :
    g.argument.run stop ts = (g.expr >>= fun e ↦ pure (.positional e)).run stop ts := by
  cases ts with
  | nil => rfl
  | cons t ts =>
    cases ts with
    | nil => rfl
    | cons u ts =>
      have htwo : peekTwo.run stop (t :: u :: ts) = .ok ([t, u], t :: u :: ts) := rfl
      rw [argument, run_bind_of_ok _ htwo]
      dsimp only
      split
      · next name ht hu => exact absurd (.key ht (Token.isSymbol_iff.1 hu)) h
      · rfl

/-- An argument begins as an expression does, since a name may begin one. -/
theorem begins_of_argument (hg : g.Accepts L) {xs : List Token} {a : Grammar.Argument}
    (h : Language.Argument L xs a) : ∃ t ts, xs = t :: ts ∧ t.kind.beginsExpr = true := by
  cases h with
  | named ht _ _ => exact ⟨_, _, rfl, by rw [ht]; rfl⟩
  | positional he _ => exact (hg.shaped he).begins

/-- Arguments are read, with a name or without. -/
theorem reads_argument (hg : g.Accepts L) :
    Reads g.argument (Language.Argument L) (Looser 1) where
  sound {stop ts rest a} h := by
    by_cases hn : BeginsNamed ts
    · obtain ⟨ht, hu⟩ := hn
      rw [run_argument_of_named ht hu] at h
      obtain ⟨xs, e, _, rfl, he, h₁⟩ := hg.expr.bind_eq_ok h
      cases h₁
      exact ⟨_ :: _ :: xs, rfl, .named ht hu he⟩
    · rw [run_argument_of_not_named hn] at h
      obtain ⟨xs, e, _, rfl, he, h₁⟩ := hg.expr.bind_eq_ok h
      cases h₁
      refine ⟨xs, rfl, .positional he fun hxs ↦ hn ?_⟩
      obtain ⟨ht, hu⟩ := hxs
      exact .key ht hu
  complete {stop xs rest a} h hrest := by
    cases h with
    | named ht hu he =>
      rw [List.cons_append, List.cons_append, run_argument_of_named ht hu,
        hg.expr.run_bind _ he hrest]
      rfl
    | positional he hn =>
      have hxs : ¬ BeginsNamed (xs ++ rest) := by
        obtain ⟨t, ts, rfl, -⟩ := (hg.shaped he).begins
        intro hb
        cases ts with
        | nil =>
          -- A single identifier is not followed by `=` here.
          generalize hys : [t] ++ rest = ys at hb
          obtain ⟨-, hu⟩ := hb
          cases hys
          exact hrest.not_begins (k := .symbol .equal) (Nat.le_refl 1) ⟨_, rfl, hu⟩
        | cons u ts =>
          obtain ⟨ht, hu⟩ := hb
          exact hn (.key ht hu)
      rw [run_argument_of_not_named hxs, hg.expr.run_bind _ he hrest]
      rfl

/-! ### Suffixes -/

/-- What ends with another token than an identifier does not end with the name of a method. -/
theorem not_endsInMethod_append (xs : List Token) {t : Token} (ht : ∀ name, t.kind ≠ .ident name) :
    ¬ EndsInMethod (xs ++ [t]) := by
  intro h
  generalize hys : xs ++ [t] = ys at h
  obtain @⟨u, v, name, zs, -, hv⟩ := h
  have hlast : xs ++ [t] = (zs ++ [u]) ++ [v] := by simp [hys]
  obtain ⟨-, htv⟩ := List.append_inj' hlast rfl
  cases htv
  exact ht name hv

/-- The name of a method stands behind an arrow. -/
theorem arrow_of_endsInMethod {xs : List Token} {t u : Token} (h : EndsInMethod (xs ++ [t, u])) :
    t.kind = .symbol .arrow := by
  generalize hys : xs ++ [t, u] = ys at h
  obtain ⟨hk, -⟩ := h
  obtain ⟨-, ht⟩ := List.append_inj' hys rfl
  cases ht
  exact hk

/-- A single token is no arrow with a name. -/
theorem not_endsInMethod_singleton (t : Token) : ¬ EndsInMethod [t] := by
  intro h
  generalize hys : [t] = ys at h
  obtain ⟨-, -⟩ := h
  simpa using congrArg List.length hys

/-- A primary expression does not end in a method. -/
theorem not_endsInMethod_of_primary {xs : List Token} {e : Expr} (h : Primary L xs e) :
    ¬ EndsInMethod xs := by
  cases h with
  | literal _ | ident _ => exact not_endsInMethod_singleton _
  | @group left right xs _ _ _ hr | @list left right xs _ _ _ hr =>
    exact not_endsInMethod_append (left :: xs) (by simp [hr])

/-- What the loop of suffixes took: a suffixed expression, behind which no argument of a method is
left. -/
def SuffixesTaken (L : Language) (xs rest : List Token) (e : Expr) : Prop :=
  Suffixed L xs e ∧ (EndsInMethod xs → ¬ Begins rest (.symbol .leftParen))

/-- The arguments are read up to the parenthesis that closes them. -/
theorem reads_arguments (hg : g.Accepts L) :
    Reads (items .rightParen g.argument) (Items (Language.Argument L))
      fun rest ↦ Begins rest (.symbol .rightParen) :=
  reads_items (reads_argument hg) (begins_of_argument hg) (.inl rfl)

/-- A method takes its arguments, if there are any. -/
theorem suffixesTaken_methodCall (hg : g.Accepts L) {xs : List Token} {e e' : Expr}
    {arrow : Token} (hx : Suffixed L xs e) (harrow : arrow.kind = .symbol .arrow)
    (h : (g.methodCall e).run stop ts = .ok (e', rest)) :
    ∃ ys, ts = ys ++ rest ∧ SuffixesTaken L (xs ++ arrow :: ys) rest e' := by
  rw [methodCall, run_peek_bind] at h
  obtain ⟨t, name, _, rfl, ht, h₁⟩ := ident_bind_eq_ok h
  obtain ⟨found, between, hfound, h₂⟩ := run_bind_eq_ok h₁
  rcases symbol?_eq_ok hfound with ⟨rfl, left, rfl, hl⟩ | ⟨rfl, rfl, hn⟩
  · obtain ⟨ys, args, _, rfl, hargs, h₃⟩ := (reads_arguments hg).bind_eq_ok h₂
    obtain ⟨right, _, rfl, hr, h₄⟩ := symbol_bind_eq_ok h₃
    cases h₄
    have hend := not_endsInMethod_append (xs ++ arrow :: t :: left :: ys) (t := right)
      (by simp [hr])
    refine ⟨t :: left :: (ys ++ [right]), by simp, .methodArgs hx harrow ht hl hargs hr, ?_⟩
    exact fun hm ↦ absurd (by simpa using hm) hend
  · cases h₂
    exact ⟨[t], rfl, .method hx harrow ht, fun _ ↦ hn⟩

/-- One more suffix keeps the invariant of the loop. -/
theorem suffixesTaken_round (hg : g.Accepts L) {xs : List Token} {e e' : Expr} {t : Token}
    {p : Parser Expr} (hx : SuffixesTaken L xs (t :: ts) e) (hp : g.suffix? e t = some p)
    (h : p.run stop ts = .ok (e', rest)) :
    ∃ ys, ts = ys ++ rest ∧ SuffixesTaken L (xs ++ t :: ys) rest e' := by
  obtain ⟨hx, hm⟩ := hx
  unfold suffix? at hp
  split at hp
  · next hdot =>
    cases hp
    rw [propertyOf, run_peek_bind] at h
    obtain ⟨u, name, _, rfl, hu, h₁⟩ := ident_bind_eq_ok h
    cases h₁
    refine ⟨[u], rfl, .property hx hdot hu, fun hm ↦ ?_⟩
    rw [arrow_of_endsInMethod hm] at hdot
    cases hdot
  · next harrow =>
    cases hp
    exact suffixesTaken_methodCall hg hx harrow h
  · next hl =>
    cases hp
    obtain ⟨ys, args, _, rfl, hargs, h₁⟩ := (hg.items (.inl rfl)).bind_eq_ok h
    obtain ⟨right, _, rfl, hr, h₂⟩ := symbol_bind_eq_ok h₁
    cases h₂
    -- The parenthesis would have been taken by the method, if there were one before it.
    have hcall : ¬ EndsInMethod xs := fun he ↦ hm he ⟨t, rfl, hl⟩
    have hend := not_endsInMethod_append (xs ++ t :: ys) (t := right) (by simp [hr])
    refine ⟨ys ++ [right], by simp, .call hx hcall hl hargs hr, ?_⟩
    exact fun he ↦ absurd (by simpa using he) hend
  · cases hp

/-- The suffixes of an expression are taken one by one, and the loop goes on behind them. -/
theorem run_suffixed (hg : g.Accepts L) {xs : List Token} {e : Expr} (h : Suffixed L xs e)
    (hm : EndsInMethod xs → ¬ Begins rest (.symbol .leftParen)) :
    g.suffixed.run stop (xs ++ rest) = loopRun g.suffix? stop e rest := by
  induction h generalizing rest with
  | primary h =>
    exact (reads_primary hg).run_bind _ h trivial
  | @property xs e dot t name _ hdot ht ih =>
    have hround : g.suffix? e dot = some (propertyOf e) := by simp [suffix?, hdot]
    have hrun : (propertyOf e).run stop (t :: rest) = .ok (.property e name t.span, rest) := by
      rw [propertyOf, run_peek_bind, run_ident_bind _ ht]
      rfl
    rw [List.append_assoc, List.cons_append, List.cons_append, List.nil_append,
      ih fun _ ↦ not_begins_cons _ hdot (by simp), loopRun_of_round hround hrun]
  | @method xs e arrow t name _ harrow ht ih =>
    -- The only suffix that what follows could still change: `(` would be its arguments.
    have hround : g.suffix? e arrow = some (g.methodCall e) := by simp [suffix?, harrow]
    have hrun : (g.methodCall e).run stop (t :: rest) =
        .ok (.method e name [] [] t.span, rest) := by
      rw [methodCall, run_peek_bind, run_ident_bind _ ht,
        run_bind_of_ok _ (run_symbol?_of_not_begins (hm (.name harrow ht)))]
      rfl
    rw [List.append_assoc, List.cons_append, List.cons_append, List.nil_append,
      ih fun _ ↦ not_begins_cons _ harrow (by simp), loopRun_of_round hround hrun]
  | @methodArgs xs ys e arrow t left right name args _ harrow ht hl hargs hr ih =>
    have hround : g.suffix? e arrow = some (g.methodCall e) := by simp [suffix?, harrow]
    have hrun : (g.methodCall e).run stop (t :: left :: (ys ++ right :: rest)) =
        .ok (.method e name (positionalArgs args) (namedArgs args) t.span, rest) := by
      rw [methodCall, run_peek_bind, run_ident_bind _ ht,
        run_bind_of_ok _ (run_symbol?_of_begins hl), if_pos rfl,
        (reads_arguments hg).run_bind _ hargs ⟨right, rfl, hr⟩, run_symbol_bind _ hr]
      rfl
    simp only [List.append_assoc, List.cons_append, List.nil_append]
    rw [ih fun _ ↦ not_begins_cons _ harrow (by simp), loopRun_of_round hround hrun]
  | @call xs ys e left right args _ hcall hl hargs hr ih =>
    have hround : g.suffix? e left = some (g.callOf e) := by simp [suffix?, hl]
    have hrun : (g.callOf e).run stop (ys ++ right :: rest) =
        .ok (.call e args e.span, rest) := by
      rw [callOf, (hg.items (.inl rfl)).run_bind _ hargs ⟨right, rfl, hr⟩, run_symbol_bind _ hr]
      rfl
    simp only [List.append_assoc, List.cons_append, List.nil_append]
    -- `(` may follow the callee, since the callee does not end with the name of a method.
    rw [ih fun he ↦ absurd he hcall, loopRun_of_round hround hrun]

/-- A token that binds more loosely is no suffix. -/
theorem suffix?_eq_none {e : Expr} {t : Token} (h : t.kind.strength < 8) :
    g.suffix? e t = none := by
  unfold suffix?
  split
  · next hk => rw [hk] at h; exact absurd h (Nat.lt_irrefl 8)
  · next hk => rw [hk] at h; exact absurd h (Nat.lt_irrefl 8)
  · next hk => rw [hk] at h; exact absurd h (Nat.lt_irrefl 8)
  · rfl

/-- A primary expression is read with all of its suffixes. -/
theorem reads_suffixed (hg : g.Accepts L) : Reads g.suffixed (Suffixed L) (Looser 8) where
  sound {stop ts rest e} h := by
    obtain ⟨xs, first, between, rfl, hfirst, h₁⟩ := (reads_primary hg).bind_eq_ok h
    have htaken : SuffixesTaken L xs between first :=
      ⟨.primary hfirst, fun hm ↦ absurd hm (not_endsInMethod_of_primary hfirst)⟩
    obtain ⟨ys, rfl, hys, -⟩ :=
      loopRun_sound (I := SuffixesTaken L) (suffixesTaken_round hg) h₁ htaken
    exact ⟨xs ++ ys, by simp, hys⟩
  complete {stop xs rest e} h hrest := by
    have hm : ¬ Begins rest (.symbol .leftParen) := hrest.not_begins (Nat.le_refl 8)
    rw [run_suffixed hg h fun _ ↦ hm]
    exact loopRun_of_stops fun t ht ↦ suffix?_eq_none (hrest t ht)

/-! ### Operators -/

theorem unaryOp?_eq_some {t : Token} {op : UnaryOp} :
    unaryOp? t = some op ↔ UnaryOperator t.kind op := by
  unfold unaryOp?
  constructor
  · intro h
    split at h
    · next hk => cases h; rw [hk]; exact .neg
    · next hk => cases h; rw [hk]; exact .not
    · cases h
  · intro h
    generalize t.kind = k at h
    cases h <;> rfl

/-- Operators before an operand are read, and what they apply to is an operand further in. -/
theorem reads_unary (hg : g.Accepts L) : Reads g.unary (Unary L) (Looser 8) where
  sound {stop ts rest e} h := by
    rw [unary, run_peek_bind] at h
    obtain ⟨found, between, hfound, h₁⟩ := run_bind_eq_ok h
    rcases take?_eq_ok hfound with ⟨t, op, rfl, rfl, hop⟩ | ⟨rfl, rfl, -⟩
    · obtain ⟨xs, e, _, rfl, he, h₂⟩ := hg.operand.bind_eq_ok h₁
      cases h₂
      exact ⟨t :: xs, rfl, .operator (unaryOp?_eq_some.1 hop) he⟩
    · obtain ⟨xs, rfl, he⟩ := (reads_suffixed hg).sound h₁
      exact ⟨xs, rfl, .suffixed he⟩
  complete {stop xs rest e} h hrest := by
    rw [unary, run_peek_bind]
    cases h with
    | operator hop he =>
      rw [List.cons_append, run_bind_of_ok _ (run_take?_of_some (unaryOp?_eq_some.2 hop))]
      exact hg.operand.run_bind _ he hrest
    | suffixed he =>
      obtain ⟨t, ts, rfl, ht⟩ := he.unaryOp?_eq_none
      have hnone : ∀ u ∈ (t :: ts ++ rest).head?, unaryOp? u = none := by
        rintro u ⟨⟩
        exact ht
      rw [run_bind_of_ok _ (run_take?_of_none hnone)]
      exact (reads_suffixed hg).complete he hrest

/-- The operators of a level. -/
def operator? : Level → Token → Option (Expr → Expr → Span → Expr)
  | .disjunction => orOp?
  | .conjunction => andOp?
  | .equality => equalityOp?
  | .comparison => comparisonOp?
  | .sum => sumOp?
  | .product => productOp?

theorem operator?_eq_some {level : Level} {t : Token} {build : Expr → Expr → Span → Expr} :
    operator? level t = some build ↔ Operator level t.kind build := by
  constructor
  · intro h
    cases level with
    | disjunction =>
      simp only [operator?, orOp?] at h
      split at h
      · next hk => cases h; rw [hk]; exact .or
      · cases h
    | conjunction =>
      simp only [operator?, andOp?] at h
      split at h
      · next hk => cases h; rw [hk]; exact .and
      · cases h
    | equality =>
      simp only [operator?, equalityOp?] at h
      split at h
      · next hk => cases h; rw [hk]; exact .eq
      · next hk => cases h; rw [hk]; exact .notEq
      · cases h
    | comparison =>
      simp only [operator?, comparisonOp?] at h
      split at h
      · next hk => cases h; rw [hk]; exact .lt
      · next hk => cases h; rw [hk]; exact .ltEq
      · next hk => cases h; rw [hk]; exact .gt
      · next hk => cases h; rw [hk]; exact .gtEq
      · cases h
    | sum =>
      simp only [operator?, sumOp?] at h
      split at h
      · next hk => cases h; rw [hk]; exact .add
      · next hk => cases h; rw [hk]; exact .sub
      · cases h
    | product =>
      simp only [operator?, productOp?] at h
      split at h
      · next hk => cases h; rw [hk]; exact .mul
      · next hk => cases h; rw [hk]; exact .div
      · next hk => cases h; rw [hk]; exact .mod
      · cases h
  · intro h
    obtain ⟨k, lexeme, position⟩ := t
    cases h <;> rfl

/-- The operators of a level bind as the level does. -/
theorem strength_of_operator {level : Level} {k : Token.Kind} {build : Expr → Expr → Span → Expr}
    (h : Operator level k build) : k.strength = level.strength := by
  cases h <;> rfl

section LeftAssoc

variable {level : Level} {operand : Parser Expr} {R : List Token → Expr → Prop} {n : Nat}

/-- How an operator of the level continues the expression before it. -/
def nextOperand (level : Level) (operand : Parser Expr) (left : Expr) (t : Token) :
    Option (Parser Expr) :=
  (operator? level t).map fun build ↦ operand >>= fun right ↦ pure (build left right t.span)

theorem leftAssoc_eq (level : Level) (operand : Parser Expr) :
    leftAssoc (operator? level) operand = operand >>= fun first ↦
      loop (nextOperand level operand) first :=
  rfl

/-- A token that binds more loosely ends the loop. -/
theorem nextOperand_eq_none {left : Expr} {t : Token} (h : t.kind.strength < level.strength) :
    nextOperand level operand left t = none := by
  refine Option.map_eq_none_iff.2 (Option.eq_none_iff_forall_ne_some.2 fun build hb ↦ ?_)
  rw [strength_of_operator (operator?_eq_some.1 hb)] at h
  exact Nat.lt_irrefl _ h

/-- Operands and the operators between them are taken one by one, and the loop goes on behind
them. -/
theorem run_leftAssoc (hR : Reads operand R (Looser n)) (hn : level.strength < n)
    {xs : List Token} {e : Expr} (h : LeftAssoc level R xs e) (hrest : Looser n rest) :
    (leftAssoc (operator? level) operand).run stop (xs ++ rest) =
      loopRun (nextOperand level operand) stop e rest := by
  induction h generalizing rest with
  | operand h => exact hR.run_bind _ h hrest
  | @operator xs ys left right t build _ hop hy ih =>
    have hround : nextOperand level operand left t = some _ :=
      Option.map_eq_some_iff.2 ⟨build, operator?_eq_some.2 hop, rfl⟩
    have hrun : (operand >>= fun right ↦ pure (build left right t.span)).run stop (ys ++ rest) =
        .ok (build left right t.span, rest) :=
      hR.run_bind _ hy hrest
    -- Behind the left side stands an operator of this level, which no operand takes.
    have hstop : Looser n (t :: (ys ++ rest)) :=
      looser_cons _ rfl (by rwa [strength_of_operator hop])
    rw [List.append_assoc, List.cons_append, ih hstop, loopRun_of_round hround hrun]

/-- A level reads its phrases, when its operators bind more loosely than those in its operands. -/
theorem reads_leftAssoc (level : Level) (hR : Reads operand R (Looser n))
    (hn : level.strength < n) :
    Reads (leftAssoc (operator? level) operand) (LeftAssoc level R) (Looser level.strength) where
  sound {stop ts rest e} h := by
    rw [leftAssoc_eq] at h
    obtain ⟨xs, first, _, rfl, hfirst, h₁⟩ := hR.bind_eq_ok h
    have hround : ∀ {xs : List Token} {t : Token} {ts rest : List Token} {a b : Expr}
        {p : Parser Expr}, LeftAssoc level R xs a → nextOperand level operand a t = some p →
        p.run stop ts = .ok (b, rest) →
          ∃ ys, ts = ys ++ rest ∧ LeftAssoc level R (xs ++ t :: ys) b := by
      intro xs t ts rest a b p ha hp hb
      obtain ⟨build, hbuild, rfl⟩ := Option.map_eq_some_iff.1 hp
      obtain ⟨ys, right, _, rfl, hright, h₂⟩ := hR.bind_eq_ok hb
      cases h₂
      exact ⟨ys, rfl, .operator ha (operator?_eq_some.1 hbuild) hright⟩
    obtain ⟨ys, rfl, hys⟩ :=
      loopRun_sound (I := fun xs _ e ↦ LeftAssoc level R xs e) hround h₁ (.operand hfirst)
    exact ⟨xs ++ ys, by simp, hys⟩
  complete {stop xs rest e} h hrest := by
    rw [run_leftAssoc hR hn h (hrest.mono (Nat.le_of_lt hn))]
    exact loopRun_of_stops fun t ht ↦ nextOperand_eq_none (hrest t ht)

end LeftAssoc

/-- The levels of operators, from the closest to the loosest. -/
theorem reads_disjunction (hg : g.Accepts L) : Reads g.disjunction (Disjunction L) (Looser 2) := by
  have hproduct := reads_leftAssoc .product (reads_unary hg) (by decide)
  have hsum := reads_leftAssoc .sum hproduct (by decide)
  have hcomparison := reads_leftAssoc .comparison hsum (by decide)
  have hequality := reads_leftAssoc .equality hcomparison (by decide)
  have hconjunction := reads_leftAssoc .conjunction hequality (by decide)
  exact reads_leftAssoc .disjunction hconjunction (by decide)

/-! ### Assignments -/

theorem isTarget_iff {e : Expr} : isTarget e = true ↔ Target e := by
  constructor
  · intro h
    cases e with
    | ident name span => exact .ident name span
    | property object name span => exact .property object name span
    | _ => cases h
  · rintro (⟨name, span⟩ | ⟨object, name, span⟩) <;> rfl

/-- An assignment is read as far as its right side goes, and that is one level further in. -/
theorem reads_assignment (hg : g.Accepts L) : Reads g.assignment (Assignment L) (Looser 1) where
  sound {stop ts rest e} h := by
    obtain ⟨xs, target, _, rfl, htarget, h₁⟩ := (reads_disjunction hg).bind_eq_ok h
    obtain ⟨found, between, hfound, h₂⟩ := run_bind_eq_ok h₁
    rcases take?_eq_ok hfound with ⟨t, u, rfl, rfl, hu⟩ | ⟨rfl, rfl, -⟩
    · obtain ⟨hs, rfl⟩ : t.isSymbol .equal = true ∧ t = u := by simpa using hu
      obtain ⟨ys, value, _, rfl, hvalue, h₃⟩ := hg.expr.bind_eq_ok h₂
      split at h₃
      · next ht =>
        cases h₃
        refine ⟨xs ++ t :: ys, by simp, ?_⟩
        exact .assign htarget (isTarget_iff.1 ht) (Token.isSymbol_iff.1 hs) hvalue
      · cases h₃
    · cases h₂
      exact ⟨xs, rfl, .plain htarget⟩
  complete {stop xs rest e} h hrest := by
    rw [assignment]
    cases h with
    | plain h =>
      have hnone : ∀ t ∈ rest.head?, (if t.isSymbol .equal then some t else none) = none := by
        intro t ht
        refine if_neg fun hs ↦ hrest.not_begins (k := .symbol .equal) (Nat.le_refl 1) ?_
        exact ⟨t, ht, Token.isSymbol_iff.1 hs⟩
      rw [(reads_disjunction hg).run_bind _ h (hrest.mono (by decide)),
        run_bind_of_ok _ (run_take?_of_none hnone)]
      rfl
    | @assign xs ys target value t htarget ht heq hvalue =>
      have hsome : (if t.isSymbol .equal then some t else none) = some t :=
        if_pos (Token.isSymbol_iff.2 heq)
      rw [List.append_assoc, List.cons_append,
        (reads_disjunction hg).run_bind _ htarget (looser_cons _ heq (by decide)),
        run_bind_of_ok _ (run_take?_of_some hsome)]
      show (g.expr >>= fun value ↦ _).run stop (ys ++ rest) = _
      rw [hg.expr.run_bind _ hvalue hrest, if_pos (isTarget_iff.2 ht)]
      rfl

end Grammar

end SafariScript
