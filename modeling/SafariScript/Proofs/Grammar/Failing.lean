import SafariScript.Proofs.Grammar.Reading

/-!
# Where parsers fail

A parser fails at a token. Here it is shown that this is always one of the tokens that it **was
given**, the mark of the end included (`Parser.Points`): parsers never make up a token. Some of them
hand a token on, to fail at it later, so what a parser gives is part of the statement. It is closed
under sequence and repetition, and therefore holds of all parsers of the grammar.
-/

namespace SafariScript

/-! ### Parsers that point at their tokens -/

/-- Given tokens of `S`, the parser only fails at such a token. If it succeeds, then its result
satisfies `Q`, and it leaves such tokens. -/
structure Parser.Points {α : Type} (S : Token → Prop) (Q : α → Prop) (p : Parser α) : Prop where
  error : ∀ {stop : Token} {ts : List Token} {e : ParseError}, S stop → (∀ t ∈ ts, S t) →
    p.run stop ts = .error e → S e.token
  ok : ∀ {stop : Token} {ts rest : List Token} {a : α}, S stop → (∀ t ∈ ts, S t) →
    p.run stop ts = .ok (a, rest) → Q a ∧ ∀ t ∈ rest, S t

namespace Parser.Points

variable {α β : Type} {S : Token → Prop} {Q : α → Prop} {R : β → Prop} {p : Parser α}

/-- A result of which nothing is known. -/
def any (_ : α) : Prop := True

theorem pure {a : α} (ha : Q a) : Points S Q (Pure.pure a : Parser α) where
  error _ _ h := by cases h
  ok _ hts h := by
    cases h
    exact ⟨ha, hts⟩

/-- What the first parser gives and leaves is what the second one starts with. -/
theorem bind {f : α → Parser β} (hp : Points S Q p) (hf : ∀ a, Q a → Points S R (f a)) :
    Points S R (p >>= f) where
  error {stop ts e} hstop hts h := by
    rw [run_bind] at h
    cases hrun : p.run stop ts with
    | error e' =>
      rw [hrun] at h
      cases h
      exact hp.error hstop hts hrun
    | ok result =>
      rw [hrun] at h
      obtain ⟨ha, hrest⟩ := hp.ok hstop hts hrun
      exact (hf _ ha).error hstop hrest h
  ok hstop hts h := by
    obtain ⟨a, between, hrun, h⟩ := run_bind_eq_ok h
    obtain ⟨ha, hbetween⟩ := hp.ok hstop hts hrun
    exact (hf a ha).ok hstop hbetween h

/-! #### Single tokens -/

/-- A parser may fail at a token that was handed on to it. -/
theorem fail (cause : ParseError.Cause) {t : Token} (ht : S t) :
    Points S Q (fail cause t : Parser α) where
  error _ _ h := by
    cases h
    exact ht
  ok _ _ h := by cases h

/-- The next token, which may be the mark of the end. -/
theorem of_headD {stop : Token} {ts : List Token} (hstop : S stop) (hts : ∀ t ∈ ts, S t) :
    S (ts.headD stop) := by
  cases ts with
  | nil => exact hstop
  | cons t ts => exact hts t List.mem_cons_self

/-- The token that is seen is given or the mark. -/
theorem peek : Points S S peek where
  error _ _ h := by cases h
  ok hstop hts h := by
    cases h
    exact ⟨of_headD hstop hts, hts⟩

theorem atEnd : Points S any atEnd where
  error _ _ h := by cases h
  ok _ hts h := by
    cases h
    exact ⟨trivial, hts⟩

theorem peekTwo : Points S any Grammar.peekTwo where
  error _ _ h := by cases h
  ok _ hts h := by
    cases h
    exact ⟨trivial, hts⟩

/-- To fail here is to see the next token and fail at it. -/
theorem failHere (cause : ParseError.Cause) : Points S Q (failHere cause : Parser α) :=
  .bind .peek fun _ ht ↦ .fail cause ht

/-- What is accepted came from a token, and the others are left. -/
theorem of_split? {accepts : Token → Option α} (hQ : ∀ t a, accepts t = some a → S t → Q a)
    {ts rest : List Token} {a : α} (hts : ∀ t ∈ ts, S t) (h : split? accepts ts = some (a, rest)) :
    Q a ∧ ∀ t ∈ rest, S t := by
  cases ts with
  | nil => cases h
  | cons t ts =>
    obtain ⟨b, hb, heq⟩ := Option.map_eq_some_iff.1 h
    cases heq
    obtain ⟨ht, hts⟩ := List.forall_mem_cons.1 hts
    exact ⟨hQ t _ hb ht, hts⟩

/-- A token that is not accepted is the one at which the parser fails. -/
theorem take {accepts : Token → Option α} (hQ : ∀ t a, accepts t = some a → S t → Q a)
    (cause : ParseError.Cause) : Points S Q (take accepts cause) where
  error hstop hts h := by
    dsimp only [Parser.take] at h
    split at h
    · cases h
    · cases h
      exact of_headD hstop hts
  ok _ hts h := by
    dsimp only [Parser.take] at h
    split at h
    · next hsplit =>
      cases h
      exact of_split? hQ hts hsplit
    · cases h

/-- A token that is not accepted stays. -/
theorem take? {accepts : Token → Option α} (hQ : ∀ t a, accepts t = some a → S t → Q a) :
    Points S (fun found ↦ ∀ a ∈ found, Q a) (take? accepts) where
  error _ _ h := by
    dsimp only [Parser.take?] at h
    split at h <;> cases h
  ok _ hts h := by
    dsimp only [Parser.take?] at h
    split at h
    · next hsplit =>
      cases h
      obtain ⟨ha, hrest⟩ := of_split? hQ hts hsplit
      exact ⟨fun _ hb ↦ Option.some.inj hb ▸ ha, hrest⟩
    · cases h
      exact ⟨fun a ha ↦ (by cases ha), hts⟩

/-- A token that is taken as it is. -/
theorem of_accepted {accepts : Token → Bool} (t u : Token)
    (h : (if accepts t then some t else none) = some u) (ht : S t) : S u := by
  split at h
  · exact Option.some.inj h ▸ ht
  · cases h

/-- The symbol is handed on. -/
theorem symbol (s : Symbol) : Points S S (symbol s) := .take of_accepted _

/-- The keyword is handed on. -/
theorem keyword (k : Keyword) : Points S S (keyword k) := .take of_accepted _

theorem ident : Points S any ident := .take (fun _ _ _ _ ↦ trivial) _

theorem symbol? (s : Symbol) : Points S any (symbol? s) :=
  .bind (.take? (Q := any) fun _ _ _ _ ↦ trivial) fun _ _ ↦ .pure trivial

/-! #### Repetition -/

section Repetition

variable {stop : Token} {ts rest : List Token} {e : ParseError}

/-- A loop fails where one of its rounds does. The induction is on the loop. -/
theorem of_loopRun_error {round : α → Token → Option (Parser α)}
    (hround : ∀ a t q, round a t = some q → Q a → S t → Points S Q q) {a : α} (ha : Q a)
    (hstop : S stop) (hts : ∀ t ∈ ts, S t) (h : loopRun round stop a ts = .error e) :
    S e.token := by
  fun_induction loopRun round stop a ts with
  | case1 | case2 => cases h
  | case3 a t ts' q hq e' hrun =>
    cases h
    obtain ⟨ht, hts⟩ := List.forall_mem_cons.1 hts
    exact (hround a t q hq ha ht).error hstop hts hrun
  | case4 a t ts' q hq b rest hrun _ ih =>
    obtain ⟨ht, hts⟩ := List.forall_mem_cons.1 hts
    obtain ⟨hb, hrest⟩ := (hround a t q hq ha ht).ok hstop hts hrun
    exact ih hb hrest h

/-- A loop gives what its last round gives. -/
theorem of_loopRun_ok {round : α → Token → Option (Parser α)}
    (hround : ∀ a t q, round a t = some q → Q a → S t → Points S Q q) {a b : α} (ha : Q a)
    (hstop : S stop) (hts : ∀ t ∈ ts, S t) (h : loopRun round stop a ts = .ok (b, rest)) :
    Q b ∧ ∀ t ∈ rest, S t := by
  fun_induction loopRun round stop a ts with
  | case1 | case2 =>
    cases h
    exact ⟨ha, hts⟩
  | case3 => cases h
  | case4 a t ts' q hq b' rest' hrun _ ih =>
    obtain ⟨ht, hts⟩ := List.forall_mem_cons.1 hts
    obtain ⟨hb, hrest⟩ := (hround a t q hq ha ht).ok hstop hts hrun
    exact ih hb hrest h

/-- A repetition fails where one of its items does. -/
theorem of_manyRun_error {ends : Token → Bool} (hp : Points S Q p) (hstrict : p.Strict)
    {found : List α} (hstop : S stop) (hts : ∀ t ∈ ts, S t)
    (h : manyRun ends p hstrict stop found ts = .error e) : S e.token := by
  fun_induction manyRun ends p hstrict stop found ts with
  | case1 | case2 => cases h
  | case3 found t ts' _ e' hrun =>
    cases h
    exact hp.error hstop hts hrun
  | case4 found t ts' _ a rest hrun _ ih => exact ih (hp.ok hstop hts hrun).2 h

/-- A repetition leaves what its last item leaves. -/
theorem of_manyRun_ok {ends : Token → Bool} (hp : Points S Q p) (hstrict : p.Strict)
    {found as : List α} (hstop : S stop) (hts : ∀ t ∈ ts, S t)
    (h : manyRun ends p hstrict stop found ts = .ok (as, rest)) : ∀ t ∈ rest, S t := by
  fun_induction manyRun ends p hstrict stop found ts with
  | case1 | case2 =>
    cases h
    exact hts
  | case3 => cases h
  | case4 found t ts' _ a rest' hrun _ ih => exact ih (hp.ok hstop hts hrun).2 h

end Repetition

theorem loop {round : α → Token → Option (Parser α)}
    (hround : ∀ a t q, round a t = some q → Q a → S t → Points S Q q) {a : α} (ha : Q a) :
    Points S Q (loop round a) :=
  ⟨of_loopRun_error hround ha, of_loopRun_ok hround ha⟩

theorem many {ends : Token → Bool} (hp : Points S Q p) (hstrict : p.Strict) :
    Points S any (many ends p hstrict) :=
  ⟨of_manyRun_error hp hstrict, fun hstop hts h ↦ ⟨trivial, of_manyRun_ok hp hstrict hstop hts h⟩⟩

/-- Whether a list is closed is seen without taking a token. -/
theorem whenClosed {close : Symbol} {x y : Parser β} (hx : Points S R x) (hy : Points S R y) :
    Points S R (whenClosed close x y) := by
  refine .bind .atEnd fun ended _ ↦ .bind .peek fun t _ ↦ ?_
  split
  · exact hx
  · exact hy

/-- Items with commas between them. -/
theorem items {close : Symbol} {item : Parser α} (h : Points S Q item) :
    Points S any (items close item) := by
  rw [items_eq]
  refine .whenClosed (.pure trivial) (.bind h fun first _ ↦ ?_)
  refine .bind (.loop (Q := any) ?_ trivial) fun _ _ ↦ .pure trivial
  intro found comma q hq _ _
  unfold nextItem at hq
  split at hq
  · cases hq
    exact .whenClosed (.pure trivial) (.bind h fun _ _ ↦ .pure trivial)
  · cases hq

end Parser.Points

/-! ### The grammar -/

namespace Grammar

open SafariScript.Parser

/-- What lies one level further in is read by parsers that point at their tokens. -/
structure Points (S : Token → Prop) (g : Grammar) : Prop where
  expr : Parser.Points S Points.any g.expr
  operand : Parser.Points S Points.any g.operand
  block : ∀ control, Parser.Points S Points.any (g.block control)

variable {S : Token → Prop} {g : Grammar} (hg : g.Points S)

theorem points_propertyOf (e : Expr) : Parser.Points S Points.any (propertyOf e) :=
  .bind .peek fun _ _ ↦ .bind .ident fun _ _ ↦ .pure trivial

include hg

/-! #### Expressions -/

/-- The first token decides, and a token that begins no expression is the one of the error. -/
theorem points_primary : Parser.Points S Points.any g.primary := by
  refine .bind .peek fun t ht ↦ ?_
  have htake : Parser.Points S Points.any (take some .expectedExpression) :=
    .take (fun _ _ _ _ ↦ trivial) _
  split
  · exact htake.bind fun _ _ ↦ .pure trivial
  · exact htake.bind fun _ _ ↦ .pure trivial
  · exact .bind (.symbol _) fun _ _ ↦ hg.expr.bind fun _ _ ↦ .bind (.symbol _) fun _ _ ↦
      .pure trivial
  · exact .bind (.symbol _) fun _ _ ↦ hg.expr.items.bind fun _ _ ↦ .bind (.symbol _) fun _ _ ↦
      .pure trivial
  · exact .fail _ ht

/-- An argument, with a name before it or without. -/
theorem points_argument : Parser.Points S Points.any g.argument := by
  have hpositional : Parser.Points S Points.any (do return Argument.positional (← g.expr)) :=
    hg.expr.bind fun _ _ ↦ .pure trivial
  refine .bind .peekTwo fun next _ ↦ ?_
  split
  · split
    · exact .bind .ident fun _ _ ↦ .bind (.symbol _) fun _ _ ↦ hg.expr.bind fun _ _ ↦ .pure trivial
    · exact hpositional
  · exact hpositional

/-- A method, perhaps with its arguments. -/
theorem points_methodCall (e : Expr) : Parser.Points S Points.any (g.methodCall e) := by
  refine .bind .peek fun t _ ↦ .bind .ident fun name _ ↦ .bind (.symbol? _) fun found _ ↦ ?_
  split
  · exact (points_argument hg).items.bind fun _ _ ↦ .bind (.symbol _) fun _ _ ↦ .pure trivial
  · exact .pure trivial

theorem points_callOf (e : Expr) : Parser.Points S Points.any (g.callOf e) :=
  hg.expr.items.bind fun _ _ ↦ .bind (.symbol _) fun _ _ ↦ .pure trivial

/-- Suffixes as long as there are any. -/
theorem points_suffixed : Parser.Points S Points.any g.suffixed := by
  refine (points_primary hg).bind fun e _ ↦ .loop (fun e t q hq _ _ ↦ ?_) trivial
  unfold suffix? at hq
  split at hq <;> cases hq
  · exact points_propertyOf e
  · exact points_methodCall hg e
  · exact points_callOf hg e

/-- Unary operators, and what they apply to. -/
theorem points_unary : Parser.Points S Points.any g.unary := by
  refine .bind .peek fun t _ ↦ .bind (.take? (Q := Points.any) fun _ _ _ _ ↦ trivial) fun op _ ↦ ?_
  split
  · exact hg.operand.bind fun _ _ ↦ .pure trivial
  · exact points_suffixed hg

omit hg in
/-- Operands with operators between them. -/
theorem points_leftAssoc {operator? : Token → Option (Expr → Expr → Span → Expr)}
    {operand : Parser Expr} (h : Parser.Points S Points.any operand) :
    Parser.Points S Points.any (leftAssoc operator? operand) := by
  refine h.bind fun e _ ↦ .loop (fun left t q hq _ _ ↦ ?_) trivial
  obtain ⟨build, -, rfl⟩ := Option.map_eq_some_iff.1 hq
  exact h.bind fun _ _ ↦ .pure trivial

theorem points_disjunction : Parser.Points S Points.any g.disjunction :=
  points_leftAssoc (points_leftAssoc (points_leftAssoc (points_leftAssoc (points_leftAssoc
    (points_leftAssoc (points_unary hg))))))

/-- The token `=` is kept until the value behind it is read. -/
theorem points_assignment : Parser.Points S Points.any g.assignment := by
  refine (points_disjunction hg).bind fun target _ ↦
    .bind (.take? (Q := S) Points.of_accepted) fun found hfound ↦ ?_
  cases found with
  | none => exact .pure trivial
  | some t =>
    refine hg.expr.bind fun value _ ↦ ?_
    split
    · exact .pure trivial
    · exact .fail _ (hfound t rfl)

/-! #### Statements -/

/-- A declaration with or without a value. -/
theorem points_varStmt : Parser.Points S Points.any g.varStmt := by
  refine .bind (.keyword _) fun t _ ↦ .bind .ident fun name _ ↦ .bind (.symbol? _) fun found _ ↦ ?_
  have hend : ∀ init : Option Expr, Points.any init → Parser.Points S Points.any
      (symbol .semicolon >>= fun _ ↦ pure (Stmt.var name init t.span)) :=
    fun _ _ ↦ .bind (.symbol _) fun _ _ ↦ .pure trivial
  split
  · exact .bind (hg.expr.bind fun _ _ ↦ .pure trivial) hend
  · exact .bind (.pure trivial) hend

theorem points_printStmt : Parser.Points S Points.any g.printStmt :=
  .bind (.keyword _) fun _ _ ↦ hg.expr.bind fun _ _ ↦ .bind (.symbol _) fun _ _ ↦ .pure trivial

theorem points_arm : Parser.Points S Points.any g.arm :=
  .bind (.keyword _) fun _ _ ↦ hg.expr.bind fun _ _ ↦ (hg.block true).bind fun _ _ ↦ .pure trivial

/-- A condition with its branches. -/
theorem points_ifStmt : Parser.Points S Points.any g.ifStmt := by
  refine (points_arm hg).bind fun first _ ↦
    .bind (.loop (Q := Points.any) (fun tail t q hq _ _ ↦ ?_) trivial) fun _ _ ↦ .pure trivial
  unfold else? at hq
  split at hq <;> cases hq
  refine .bind .peek fun t _ ↦ ?_
  split
  · exact (points_arm hg).bind fun _ _ ↦ .pure trivial
  · exact (hg.block true).bind fun _ _ ↦ .pure trivial

theorem points_repeatStmt : Parser.Points S Points.any g.repeatStmt :=
  .bind (.keyword _) fun _ _ ↦ hg.expr.bind fun _ _ ↦ (hg.block true).bind fun _ _ ↦ .pure trivial

theorem points_defineStmt : Parser.Points S Points.any g.defineStmt :=
  .bind (.keyword _) fun _ _ ↦ .bind .ident fun _ _ ↦ .bind (.symbol _) fun _ _ ↦
    .bind (.items .ident) fun _ _ ↦ .bind (.symbol _) fun _ _ ↦ (hg.block false).bind fun _ _ ↦
      .pure trivial

theorem points_throwBallStmt : Parser.Points S Points.any g.throwBallStmt :=
  .bind (.keyword _) fun _ _ ↦ .bind (.symbol _) fun _ _ ↦ hg.expr.bind fun _ _ ↦
    .bind (.symbol _) fun _ _ ↦ hg.expr.bind fun _ _ ↦ .bind (.symbol _) fun _ _ ↦
      .bind (.symbol _) fun _ _ ↦ .pure trivial

omit hg in
/-- Where nothing may be left, the statement that leaves fails at its first token. -/
theorem points_runStmt (control : Bool) : Parser.Points S Points.any (runStmt control) := by
  cases control with
  | true => exact .bind (.keyword _) fun _ _ ↦ .bind (.symbol _) fun _ _ ↦ .pure trivial
  | false => exact .failHere _

/-- The first token is kept until the expression is read. -/
theorem points_exprStmt : Parser.Points S Points.any g.exprStmt := by
  refine .bind .peek fun first hfirst ↦ hg.expr.bind fun value _ ↦ ?_
  split
  · exact .fail _ hfirst
  · exact .bind (.symbol _) fun _ _ ↦ .pure trivial

/-- The first token decides which statement it is. -/
theorem points_stmt (control : Bool) : Parser.Points S Points.any (g.stmt control) := by
  refine .bind .peek fun t _ ↦ ?_
  unfold stmtOf
  split
  · exact points_varStmt hg
  · exact points_printStmt hg
  · exact points_ifStmt hg
  · exact points_repeatStmt hg
  · exact points_defineStmt hg
  · exact points_throwBallStmt hg
  · exact points_runStmt control
  · exact .bind .peek fun _ _ ↦ (hg.block control).bind fun _ _ ↦ .pure trivial
  · exact points_exprStmt hg

/-! #### Levels -/

/-- If what lies further in points at its tokens, so does this level. -/
theorem Points.deeper : g.deeper.Points S where
  expr := points_assignment hg
  operand := points_unary hg
  block control := .bind (.symbol _) fun _ _ ↦ ((points_stmt hg control).many _).bind fun _ _ ↦
    .bind (.symbol _) fun _ _ ↦ .pure trivial

omit hg in
/-- Every level points at its tokens, by induction on the levels. -/
theorem points_withRoom (room : Nat) : (withRoom room).Points S := by
  induction room with
  | zero => exact ⟨.failHere _, .failHere _, fun _ ↦ .failHere _⟩
  | succ room ih => exact ih.deeper

omit hg in
/-- So a program that is none is so at one of its tokens. -/
theorem points_program : Parser.Points S Points.any program :=
  (points_stmt (points_withRoom maxNesting) false).many _

end Grammar

/-- The mark of the end is one of the tokens, if they have one. -/
theorem endOfTokens_mem {ts : List Token} (h : ∃ t ∈ ts, t.kind = .endOfInput) :
    endOfTokens ts ∈ ts := by
  obtain ⟨t, ht, hkind⟩ := h
  have hend : t.kind.isEnd = true := by rw [hkind]; rfl
  unfold endOfTokens
  cases hfind : ts.find? fun t ↦ t.kind.isEnd with
  | some u => exact List.mem_of_find?_eq_some hfind
  | none => exact absurd hend (List.find?_eq_none.1 hfind t ht)

/-- **A parse error is at one of the tokens**, if the tokens have a mark of the end. -/
theorem token_mem_of_ofTokens {ts : List Token} (hend : ∃ t ∈ ts, t.kind = .endOfInput)
    {e : ParseError} (h : Program.ofTokens ts = .error e) : e.token ∈ ts := by
  unfold Program.ofTokens at h
  cases hrun : Grammar.program.run (endOfTokens ts) (ts.takeWhile fun t ↦ !t.kind.isEnd) with
  | ok result =>
    rw [hrun] at h
    cases h
  | error e' =>
    rw [hrun] at h
    cases h
    exact (Grammar.points_program (S := (· ∈ ts))).error (endOfTokens_mem hend)
      (fun t ht ↦ (List.takeWhile_prefix _).subset ht) hrun

end SafariScript
