import SafariScript.Proofs.Grammar.Expressions

/-!
# Reading statements and programs

A statement is known by its first token, so the parser of statements reads a phrase when the parser
that the first token chooses does. Only a condition looks behind its end: it goes on with `else`,
so `else` must not follow it. No statement begins with `else`, which is why statements may follow
each other.

A chain of conditions is **one phrase inside the other** in the language and a flat loop in the
parser. The loop is read from its end: whatever it takes completes every condition before it to a
whole chain (`conditions_sound`), and it takes what the language says of the rest of a chain
(`run_conditions`).

From one level to the next this gives that `Grammar.withRoom n` reads `Language.within n`, by
induction on `n`; and so a program is accepted just when its tokens form it.
-/

namespace SafariScript

open SafariScript.Parser SafariScript.Language

namespace Grammar

variable {g : Grammar} {L : Language} {control : Bool} {stop : Token} {ts rest : List Token}

/-! ### Statements with one form -/

/-- A declaration with or without a value. -/
theorem varStmt_sound (hg : g.Accepts L) {s : Stmt} (h : g.varStmt.run stop ts = .ok (s, rest)) :
    ∃ xs, ts = xs ++ rest ∧ Statement L control xs s := by
  obtain ⟨word, _, rfl, hw, h₁⟩ := keyword_bind_eq_ok h
  obtain ⟨t, name, _, rfl, ht, h₂⟩ := ident_bind_eq_ok h₁
  obtain ⟨found, between, hfound, h₃⟩ := run_bind_eq_ok h₂
  rcases symbol?_eq_ok hfound with ⟨rfl, equal, rfl, heq⟩ | ⟨rfl, rfl, -⟩
  · obtain ⟨init, between, hinit, h₄⟩ := run_bind_eq_ok h₃
    obtain ⟨xs, e, _, rfl, he, h₅⟩ := hg.expr.bind_eq_ok hinit
    cases h₅
    obtain ⟨semicolon, _, rfl, hs, h₆⟩ := symbol_bind_eq_ok h₄
    cases h₆
    exact ⟨word :: t :: equal :: (xs ++ [semicolon]), by simp, .varInit hw ht heq he hs⟩
  · obtain ⟨semicolon, _, rfl, hs, h₄⟩ := symbol_bind_eq_ok h₃
    cases h₄
    exact ⟨[word, t, semicolon], rfl, .var hw ht hs⟩

theorem printStmt_sound (hg : g.Accepts L) {s : Stmt}
    (h : g.printStmt.run stop ts = .ok (s, rest)) :
    ∃ xs, ts = xs ++ rest ∧ Statement L control xs s := by
  obtain ⟨word, _, rfl, hw, h₁⟩ := keyword_bind_eq_ok h
  obtain ⟨xs, e, _, rfl, he, h₂⟩ := hg.expr.bind_eq_ok h₁
  obtain ⟨semicolon, _, rfl, hs, h₃⟩ := symbol_bind_eq_ok h₂
  cases h₃
  exact ⟨word :: (xs ++ [semicolon]), by simp, .print hw he hs⟩

/-- A repetition with its count and its body. -/
theorem repeatStmt_sound (hg : g.Accepts L) {s : Stmt}
    (h : g.repeatStmt.run stop ts = .ok (s, rest)) :
    ∃ xs, ts = xs ++ rest ∧ Statement L control xs s := by
  obtain ⟨word, _, rfl, hw, h₁⟩ := keyword_bind_eq_ok h
  obtain ⟨xs, count, _, rfl, hcount, h₂⟩ := hg.expr.bind_eq_ok h₁
  obtain ⟨ys, body, _, rfl, hbody, h₃⟩ := (hg.block true).bind_eq_ok h₂
  cases h₃
  exact ⟨word :: (xs ++ ys), by simp, .loop hw hcount hbody⟩

/-- The names of parameters. -/
theorem reads_params :
    Reads (items .rightParen ident) (Items Name) fun rest ↦ Begins rest (.symbol .rightParen) := by
  refine reads_items ⟨reads_ident.sound, fun h _ ↦ reads_ident.complete h trivial⟩ ?_ (.inl rfl)
  rintro xs name ⟨ht⟩
  exact ⟨_, [], rfl, by rw [ht]; rfl⟩

theorem defineStmt_sound (hg : g.Accepts L) {s : Stmt}
    (h : g.defineStmt.run stop ts = .ok (s, rest)) :
    ∃ xs, ts = xs ++ rest ∧ Statement L control xs s := by
  obtain ⟨word, _, rfl, hw, h₁⟩ := keyword_bind_eq_ok h
  obtain ⟨t, name, _, rfl, ht, h₂⟩ := ident_bind_eq_ok h₁
  obtain ⟨left, _, rfl, hl, h₃⟩ := symbol_bind_eq_ok h₂
  obtain ⟨xs, params, _, rfl, hparams, h₄⟩ := reads_params.bind_eq_ok h₃
  obtain ⟨right, _, rfl, hr, h₅⟩ := symbol_bind_eq_ok h₄
  obtain ⟨ys, body, _, rfl, hbody, h₆⟩ := (hg.block false).bind_eq_ok h₅
  cases h₆
  exact ⟨word :: t :: left :: (xs ++ right :: ys), by simp, .define hw ht hl hparams hr hbody⟩

/-- A throw with its zone and its target. -/
theorem throwBallStmt_sound (hg : g.Accepts L) {s : Stmt}
    (h : g.throwBallStmt.run stop ts = .ok (s, rest)) :
    ∃ xs, ts = xs ++ rest ∧ Statement L control xs s := by
  obtain ⟨word, _, rfl, hw, h₁⟩ := keyword_bind_eq_ok h
  obtain ⟨left, _, rfl, hl, h₂⟩ := symbol_bind_eq_ok h₁
  obtain ⟨xs, zone, _, rfl, hzone, h₃⟩ := hg.expr.bind_eq_ok h₂
  obtain ⟨comma, _, rfl, hc, h₄⟩ := symbol_bind_eq_ok h₃
  obtain ⟨ys, target, _, rfl, htarget, h₅⟩ := hg.expr.bind_eq_ok h₄
  obtain ⟨right, _, rfl, hr, h₆⟩ := symbol_bind_eq_ok h₅
  obtain ⟨semicolon, _, rfl, hs, h₇⟩ := symbol_bind_eq_ok h₆
  cases h₇
  exact ⟨word :: left :: (xs ++ comma :: (ys ++ [right, semicolon])), by simp,
    .throwBall hw hl hzone hc htarget hr hs⟩

/-- The statement that leaves is accepted only where that is allowed. -/
theorem runStmt_sound {s : Stmt} (h : (runStmt control).run stop ts = .ok (s, rest)) :
    ∃ xs, ts = xs ++ rest ∧ Statement L control xs s := by
  cases control with
  | true =>
    obtain ⟨word, _, rfl, hw, h₁⟩ := keyword_bind_eq_ok h
    obtain ⟨semicolon, _, rfl, hs, h₂⟩ := symbol_bind_eq_ok h₁
    cases h₂
    exact ⟨[word, semicolon], rfl, .run rfl hw hs⟩
  | false => cases h

theorem blockStmt_sound (hg : g.Accepts L) {s : Stmt}
    (h : (g.blockStmt control).run stop ts = .ok (s, rest)) :
    ∃ xs, ts = xs ++ rest ∧ Statement L control xs s := by
  rw [blockStmt, run_peek_bind] at h
  obtain ⟨xs, body, _, rfl, hbody, h₁⟩ := (hg.block control).bind_eq_ok h
  obtain ⟨left, ys, rfl, -⟩ := hg.begins_block hbody
  cases h₁
  exact ⟨left :: ys, rfl, .block hbody⟩

/-! ### Expressions as statements -/

/-- The parser turns down just the expressions that are a single identifier. -/
theorem bareName?_eq_none_iff {t : Token} {xs : List Token} {e : Expr} (h : Shaped (t :: xs) e) :
    bareName? t e = none ↔ ∀ name, ¬ Name (t :: xs) name := by
  rw [← not_exists, h.name_iff]
  unfold bareName?
  split
  · next name name' span hk =>
    refine ⟨fun hn ↦ ?_, fun hn ↦ absurd ⟨⟨t, xs, name, rfl, hk⟩, name', span, rfl⟩ hn⟩
    cases hn
  · next hno =>
    refine ⟨fun _ ↦ ?_, fun _ ↦ rfl⟩
    rintro ⟨⟨u, us, name, hu, hk⟩, name', span, rfl⟩
    cases hu
    exact hno name name' span hk rfl

/-- An expression as a statement, which a single name is not. -/
theorem exprStmt_sound (hg : g.Accepts L) {s : Stmt}
    (h : g.exprStmt.run stop ts = .ok (s, rest)) :
    ∃ xs, ts = xs ++ rest ∧ Statement L control xs s := by
  rw [exprStmt, run_peek_bind] at h
  obtain ⟨xs, e, _, rfl, he, h₁⟩ := hg.expr.bind_eq_ok h
  obtain ⟨t, us, rfl, -⟩ := (hg.shaped he).begins
  split at h₁
  · cases h₁
  · next hbare =>
    obtain ⟨semicolon, _, rfl, hs, h₂⟩ := symbol_bind_eq_ok h₁
    cases h₂
    have hname := (bareName?_eq_none_iff (hg.shaped he)).1 hbare
    exact ⟨t :: us ++ [semicolon], by simp, .expr he hname hs⟩

/-! ### Conditions -/

/-- A guarded body was read from its keyword, its guard and its body. -/
theorem arm_eq_ok (hg : g.Accepts L) {a : Arm} (h : g.arm.run stop ts = .ok (a, rest)) :
    ∃ word xs e ys body, ts = word :: (xs ++ (ys ++ rest)) ∧ word.kind = .keyword .ifWord ∧
      L.expr xs e ∧ L.block true ys body ∧ a = ⟨e, body, word.span⟩ := by
  obtain ⟨word, _, rfl, hw, h₁⟩ := keyword_bind_eq_ok h
  obtain ⟨xs, e, _, rfl, he, h₂⟩ := hg.expr.bind_eq_ok h₁
  obtain ⟨ys, body, _, rfl, hbody, h₃⟩ := (hg.block true).bind_eq_ok h₂
  cases h₃
  exact ⟨word, xs, e, ys, body, rfl, hw, he, hbody, rfl⟩

/-- A guarded body is read from its keyword, its guard and its body. -/
theorem run_arm (hg : g.Accepts L) {word : Token} {xs ys : List Token} {e : Expr}
    {body : List Stmt} (hw : word.kind = .keyword .ifWord) (he : L.expr xs e)
    (hbody : L.block true ys body) :
    g.arm.run stop (word :: (xs ++ (ys ++ rest))) = .ok (⟨e, body, word.span⟩, rest) := by
  obtain ⟨brace, zs, rfl, hb⟩ := hg.begins_block hbody
  have hnext : Looser 1 (brace :: zs ++ rest) := looser_cons _ hb Nat.zero_lt_one
  rw [arm, run_keyword_bind _ hw, hg.expr.run_bind _ he hnext,
    (hg.block true).run_bind _ hbody trivial]
  rfl

/-- What follows `else`: a further condition, or the last body. -/
def afterElse (g : Grammar) (tail : Tail) : Parser Tail := do
  if (← peek).isWord .ifWord then return { tail with arms := (← g.arm) :: tail.arms }
  else return { tail with otherwise := some (← g.block true) }

/-- The loop goes on with `else`, unless there was a last body. -/
theorem else?_eq_some {tail : Tail} {t : Token} {p : Parser Tail} :
    g.else? tail t = some p ↔
      tail.otherwise = none ∧ t.kind = .keyword .elseWord ∧ g.afterElse tail = p := by
  unfold else?
  split
  · next ho hw => simp [ho, Token.isWord_iff.1 hw, afterElse]
  · next hno =>
    refine ⟨fun h ↦ ?_, fun ⟨ho, hk, _⟩ ↦ absurd (Token.isWord_iff.2 hk) (hno ho)⟩
    cases h

/-- Behind `else` a further guarded body was read, or the last body. -/
theorem afterElse_eq_ok (hg : g.Accepts L) {tail tail' : Tail}
    (h : (g.afterElse tail).run stop ts = .ok (tail', rest)) :
    (∃ word xs e ys body, ts = word :: (xs ++ (ys ++ rest)) ∧ word.kind = .keyword .ifWord ∧
      L.expr xs e ∧ L.block true ys body ∧
      tail' = { tail with arms := ⟨e, body, word.span⟩ :: tail.arms }) ∨
    ∃ xs body, ts = xs ++ rest ∧ L.block true xs body ∧
      tail' = { tail with otherwise := some body } := by
  rw [afterElse, run_peek_bind] at h
  split at h
  · obtain ⟨a, between, ha, h₁⟩ := run_bind_eq_ok h
    cases h₁
    obtain ⟨word, xs, e, ys, body, hts, hw, he, hbody, rfl⟩ := arm_eq_ok hg ha
    exact .inl ⟨word, xs, e, ys, body, hts, hw, he, hbody, rfl⟩
  · obtain ⟨xs, body, _, rfl, hbody, h₁⟩ := (hg.block true).bind_eq_ok h
    cases h₁
    exact .inr ⟨xs, body, rfl, hbody, rfl⟩

/-- A chain with a last body is complete. -/
theorem loopRun_else?_of_otherwise {arms : List Arm} {body : List Stmt} (ts : List Token) :
    loopRun g.else? stop ⟨arms, some body⟩ ts = .ok (⟨arms, some body⟩, ts) := by
  refine loopRun_of_stops fun t _ ↦ Option.eq_none_iff_forall_ne_some.2 fun p hp ↦ ?_
  obtain ⟨ho, -⟩ := else?_eq_some.1 hp
  cases ho

/-- What the loop takes completes every condition before it to a chain. -/
theorem conditions_sound (hg : g.Accepts L) {tail tail' : Tail} (htail : tail.otherwise = none)
    (h : loopRun g.else? stop tail ts = .ok (tail', rest)) :
    ∃ arms ys, ts = ys ++ rest ∧ tail'.arms = arms.reverse ++ tail.arms ∧
      ∀ {word : Token} {xs zs : List Token} {e : Expr} {body : List Stmt},
        word.kind = .keyword .ifWord → L.expr xs e → L.block true zs body →
        Condition L (word :: (xs ++ (zs ++ ys)))
          (chain ⟨e, body, word.span⟩ tail'.otherwise arms) := by
  fun_induction loopRun g.else? stop tail ts with
  | case1 tail | case2 tail t ts hr =>
    cases h
    refine ⟨[], [], rfl, rfl, fun hw he hbody ↦ ?_⟩
    rw [List.append_nil, chain, htail]
    exact .single hw he hbody
  | case3 tail t ts p hr e hp => cases h
  | case4 tail t ts p hr next between hp hlt ih =>
    obtain ⟨-, ht, rfl⟩ := else?_eq_some.1 hr
    rcases afterElse_eq_ok hg hp with ⟨word', xs', e', ys', body', rfl, hw', he', hbody', rfl⟩ |
      ⟨zs, last, rfl, hlast, rfl⟩
    · -- What the loop takes from here on completes the condition behind `else` as well.
      obtain ⟨arms, ys, rfl, harms, hchain⟩ := ih htail h
      refine ⟨⟨e', body', word'.span⟩ :: arms, t :: word' :: (xs' ++ (ys' ++ ys)), by simp,
        by simp [harms], fun hw he hbody ↦ ?_⟩
      exact .further hw he hbody ht (hchain hw' he' hbody')
    · rw [loopRun_else?_of_otherwise] at h
      cases h
      exact ⟨[], t :: zs, rfl, rfl, fun hw he hbody ↦ .otherwise hw he hbody ht hlast⟩

/-- A whole chain is one condition. -/
theorem ifStmt_sound (hg : g.Accepts L) {s : Stmt} (h : g.ifStmt.run stop ts = .ok (s, rest)) :
    ∃ xs, ts = xs ++ rest ∧ Statement L control xs s := by
  obtain ⟨first, between, hfirst, h₁⟩ := run_bind_eq_ok h
  obtain ⟨tail, between', hloop, h₂⟩ := run_bind_eq_ok h₁
  cases h₂
  obtain ⟨word, xs, e, zs, body, rfl, hw, he, hbody, rfl⟩ := arm_eq_ok hg hfirst
  obtain ⟨arms, ys, rfl, harms, hchain⟩ := conditions_sound hg rfl hloop
  refine ⟨word :: (xs ++ (zs ++ ys)), by simp, .cond ?_⟩
  rw [harms, List.append_nil, List.reverse_reverse]
  exact hchain hw he hbody

/-- A condition begins with its keyword. -/
theorem begins_of_condition {xs : List Token} {s : Stmt} (h : Condition L xs s) :
    ∃ t ts, xs = t :: ts ∧ t.kind = .keyword .ifWord := by
  cases h with
  | single hw _ _ | otherwise hw _ _ _ _ | further hw _ _ _ _ => exact ⟨_, _, rfl, hw⟩

/-- A chain is taken condition by condition: the first one, then the others by the loop, behind
whatever the loop found before. -/
theorem run_conditions (hg : g.Accepts L) {xs : List Token} {s : Stmt} (h : Condition L xs s)
    (hrest : ¬ Begins rest (.keyword .elseWord)) :
    ∃ first between arms otherwise, g.arm.run stop (xs ++ rest) = .ok (first, between) ∧
      s = chain first otherwise arms ∧
      ∀ found, loopRun g.else? stop ⟨found, none⟩ between =
        .ok (⟨arms.reverse ++ found, otherwise⟩, rest) := by
  induction h with
  | @single word xs ys e body hw he hbody =>
    refine ⟨⟨e, body, word.span⟩, rest, [], none, ?_, rfl, fun found ↦ ?_⟩
    · have harm : g.arm.run stop (word :: (xs ++ (ys ++ rest))) = _ := run_arm hg hw he hbody
      simpa using harm
    · refine loopRun_of_stops fun t ht ↦ Option.eq_none_iff_forall_ne_some.2 fun p hp ↦ hrest ?_
      exact ⟨t, ht, (else?_eq_some.1 hp).2.1⟩
  | @otherwise word other xs ys zs e body last hw he hbody hother hlast =>
    refine ⟨⟨e, body, word.span⟩, other :: (zs ++ rest), [], some last, ?_, rfl, fun found ↦ ?_⟩
    · have harm : g.arm.run stop (word :: (xs ++ (ys ++ other :: (zs ++ rest)))) = _ :=
        run_arm hg hw he hbody
      simpa using harm
    · have hrun : (g.afterElse ⟨found, none⟩).run stop (zs ++ rest) =
          .ok (⟨found, some last⟩, rest) := by
        obtain ⟨brace, us, rfl, hb⟩ := hg.begins_block hlast
        have hif : ¬ brace.isWord .ifWord = true := by simp [Token.isWord_iff, hb]
        rw [afterElse, run_peek_bind]
        show (if brace.isWord .ifWord = true then _ else _ : Parser Tail).run stop _ = _
        rw [if_neg hif, (hg.block true).run_bind _ hlast trivial]
        rfl
      rw [loopRun_of_round (else?_eq_some.2 ⟨rfl, hother, rfl⟩) hrun, loopRun_else?_of_otherwise]
      rfl
  | @further word other xs ys zs e body next hw he hbody hother hnext ih =>
    -- The loop reads the further condition as one that it finds, and goes on as behind a first one.
    obtain ⟨first, between, arms, otherwise, hfirst, rfl, hloop⟩ := ih
    refine ⟨⟨e, body, word.span⟩, other :: (zs ++ rest), first :: arms, otherwise, ?_, rfl,
      fun found ↦ ?_⟩
    · have harm : g.arm.run stop (word :: (xs ++ (ys ++ other :: (zs ++ rest)))) = _ :=
        run_arm hg hw he hbody
      simpa using harm
    · have hrun : (g.afterElse ⟨found, none⟩).run stop (zs ++ rest) =
          .ok (⟨first :: found, none⟩, between) := by
        obtain ⟨t, us, rfl, ht⟩ := begins_of_condition hnext
        rw [afterElse, run_peek_bind]
        show (if t.isWord .ifWord = true then _ else _ : Parser Tail).run stop _ = _
        rw [if_pos (Token.isWord_iff.2 ht), run_bind_of_ok _ hfirst]
        rfl
      rw [loopRun_of_round (else?_eq_some.2 ⟨rfl, hother, rfl⟩) hrun, hloop, List.reverse_cons,
        List.append_assoc, List.singleton_append]

/-- A condition is read as a whole chain, if no `else` follows. -/
theorem run_ifStmt (hg : g.Accepts L) {xs : List Token} {s : Stmt} (h : Condition L xs s)
    (hrest : ¬ Begins rest (.keyword .elseWord)) :
    g.ifStmt.run stop (xs ++ rest) = .ok (s, rest) := by
  obtain ⟨first, between, arms, otherwise, hfirst, rfl, hloop⟩ := run_conditions hg h hrest
  rw [ifStmt, run_bind_of_ok _ hfirst, run_bind_of_ok _ (hloop [])]
  show Except.ok (chain first otherwise (arms.reverse ++ []).reverse, rest) = _
  rw [List.append_nil, List.reverse_reverse]

/-! ### All statements -/

/-- Whichever parser the first token chose, it read a statement. -/
theorem stmtOf_sound (hg : g.Accepts L) {s : Stmt} {first : Token.Kind}
    (h : (g.stmtOf control first).run stop ts = .ok (s, rest)) :
    ∃ xs, ts = xs ++ rest ∧ Statement L control xs s := by
  unfold stmtOf at h
  split at h
  · exact varStmt_sound hg h
  · exact printStmt_sound hg h
  · exact ifStmt_sound hg h
  · exact repeatStmt_sound hg h
  · exact defineStmt_sound hg h
  · exact throwBallStmt_sound hg h
  · exact runStmt_sound h
  · exact blockStmt_sound hg h
  · exact exprStmt_sound hg h

/-- What begins as an expression is read as an expression. -/
theorem stmtOf_eq_exprStmt {first : Token.Kind} (h : first.beginsExpr = true) :
    g.stmtOf control first = g.exprStmt := by
  unfold stmtOf
  split
  · cases h
  · cases h
  · cases h
  · cases h
  · cases h
  · cases h
  · cases h
  · cases h
  · rfl

/-- An expression is read as a statement, if it is no single name. -/
theorem run_exprStmt (hg : g.Accepts L) {xs : List Token} {e : Expr} {semicolon : Token}
    (he : L.expr xs e) (hname : ∀ name, ¬ Name xs name)
    (hs : semicolon.kind = .symbol .semicolon) :
    g.exprStmt.run stop (xs ++ semicolon :: rest) = .ok (.expr e, rest) := by
  obtain ⟨t, ts, rfl, -⟩ := (hg.shaped he).begins
  have hbare : bareName? t e = none := (bareName?_eq_none_iff (hg.shaped he)).2 hname
  rw [exprStmt, run_peek_bind, hg.expr.run_bind _ he (looser_cons _ hs Nat.zero_lt_one)]
  simp only [List.cons_append, List.headD_cons, hbare]
  rw [run_symbol_bind _ hs]
  rfl

theorem run_varStmt_init (hg : g.Accepts L) {word t equal semicolon : Token} {name : String}
    {xs : List Token} {e : Expr} (hw : word.kind = .keyword .var) (ht : t.kind = .ident name)
    (heq : equal.kind = .symbol .equal) (he : L.expr xs e)
    (hs : semicolon.kind = .symbol .semicolon) :
    g.varStmt.run stop (word :: t :: equal :: (xs ++ semicolon :: rest)) =
      .ok (.var name (some e) word.span, rest) := by
  have hinit : (some <$> g.expr).run stop (xs ++ semicolon :: rest) =
      .ok (some e, semicolon :: rest) :=
    hg.expr.run_bind _ he (looser_cons _ hs Nat.zero_lt_one)
  rw [varStmt, run_keyword_bind _ hw, run_ident_bind _ ht,
    run_bind_of_ok _ (run_symbol?_of_begins heq), if_pos rfl, run_bind_of_ok _ hinit,
    run_symbol_bind _ hs]
  rfl

/-- Every statement is read, up to what does not go on with `else`. -/
theorem run_stmt (hg : g.Accepts L) {xs : List Token} {s : Stmt} (h : Statement L control xs s)
    (hrest : ¬ Begins rest (.keyword .elseWord)) :
    (g.stmt control).run stop (xs ++ rest) = .ok (s, rest) := by
  rw [stmt, run_peek_bind]
  -- In each case the first token chooses the parser, and the parts are read one after the other.
  cases h with
  | @var word t semicolon name hw ht hs =>
    have hno : ¬ Begins (semicolon :: rest) (.symbol .equal) := not_begins_cons _ hs (by simp)
    simp only [List.cons_append, List.nil_append, List.headD_cons, hw, stmtOf]
    rw [varStmt, run_keyword_bind _ hw, run_ident_bind _ ht,
      run_bind_of_ok _ (run_symbol?_of_not_begins hno), if_neg Bool.false_ne_true,
      run_bind_of_ok _ rfl, run_symbol_bind _ hs]
    rfl
  | varInit hw ht heq he hs =>
    simp only [List.cons_append, List.append_assoc, List.nil_append, List.headD_cons, hw, stmtOf]
    exact run_varStmt_init hg hw ht heq he hs
  | print hw he hs =>
    simp only [List.cons_append, List.append_assoc, List.nil_append, List.headD_cons, hw, stmtOf]
    rw [printStmt, run_keyword_bind _ hw,
      hg.expr.run_bind _ he (looser_cons _ hs Nat.zero_lt_one), run_symbol_bind _ hs]
    rfl
  | cond h =>
    obtain ⟨t, ts, rfl, ht⟩ := begins_of_condition h
    simp only [List.cons_append, List.headD_cons, ht, stmtOf]
    exact run_ifStmt hg h hrest
  | @loop word xs ys count body hw hcount hbody =>
    obtain ⟨brace, zs, rfl, hb⟩ := hg.begins_block hbody
    have hnext : Looser 1 (brace :: zs ++ rest) := looser_cons _ hb Nat.zero_lt_one
    simp only [List.cons_append, List.append_assoc, List.headD_cons, hw, stmtOf]
    rw [repeatStmt, run_keyword_bind _ hw, ← List.cons_append, hg.expr.run_bind _ hcount hnext,
      (hg.block true).run_bind _ hbody trivial]
    rfl
  | define hw ht hl hparams hr hbody =>
    simp only [List.cons_append, List.append_assoc, List.headD_cons, hw, stmtOf]
    rw [defineStmt, run_keyword_bind _ hw, run_ident_bind _ ht, run_symbol_bind _ hl,
      reads_params.run_bind _ hparams ⟨_, rfl, hr⟩, run_symbol_bind _ hr,
      (hg.block false).run_bind _ hbody trivial]
    rfl
  | throwBall hw hl hzone hc htarget hr hs =>
    simp only [List.cons_append, List.append_assoc, List.nil_append, List.headD_cons, hw, stmtOf]
    rw [throwBallStmt, run_keyword_bind _ hw, run_symbol_bind _ hl,
      hg.expr.run_bind _ hzone (looser_cons _ hc Nat.zero_lt_one), run_symbol_bind _ hc,
      hg.expr.run_bind _ htarget (looser_cons _ hr Nat.zero_lt_one), run_symbol_bind _ hr,
      run_symbol_bind _ hs]
    rfl
  | run hcontrol hw hs =>
    subst hcontrol
    simp only [List.cons_append, List.nil_append, List.headD_cons, hw, stmtOf]
    rw [runStmt, if_pos rfl, run_keyword_bind _ hw, run_symbol_bind _ hs]
    rfl
  | @block left xs body hbody =>
    obtain ⟨t, ts, hts, ht⟩ := hg.begins_block hbody
    cases hts
    simp only [List.cons_append, List.headD_cons, ht, stmtOf]
    rw [blockStmt, run_peek_bind, ← List.cons_append, (hg.block control).run_bind _ hbody trivial]
    rfl
  | expr he hname hs =>
    obtain ⟨t, ts, rfl, ht⟩ := (hg.shaped he).begins
    simp only [List.cons_append, List.append_assoc, List.nil_append, List.headD_cons,
      stmtOf_eq_exprStmt ht]
    exact run_exprStmt hg he hname hs

/-- Statements are read, if no `else` follows. -/
theorem reads_stmt (hg : g.Accepts L) (control : Bool) :
    Reads (g.stmt control) (Statement L control) fun rest ↦ ¬ Begins rest (.keyword .elseWord) :=
  ⟨fun h ↦ stmtOf_sound hg h, fun h hrest ↦ run_stmt hg h hrest⟩

/-- No statement begins with `else` or with a closing brace. -/
theorem begins_of_statement (hg : g.Accepts L) {xs : List Token} {s : Stmt}
    (h : Statement L control xs s) :
    ∃ t ts, xs = t :: ts ∧ t.kind ≠ .keyword .elseWord ∧ t.kind ≠ .symbol .rightBrace := by
  cases h with
  | var hw _ _ | varInit hw _ _ _ _ | print hw _ _ | loop hw _ _ | define hw _ _ _ _ _
  | throwBall hw _ _ _ _ _ _ | run _ hw _ =>
    exact ⟨_, _, rfl, by simp [hw], by simp [hw]⟩
  | cond h =>
    obtain ⟨t, ts, rfl, ht⟩ := begins_of_condition h
    exact ⟨t, ts, rfl, by simp [ht], by simp [ht]⟩
  | block h =>
    obtain ⟨t, ts, hts, ht⟩ := hg.begins_block h
    exact ⟨t, ts, hts, by simp [ht], by simp [ht]⟩
  | expr he _ _ =>
    obtain ⟨t, ts, rfl, ht⟩ := (hg.shaped he).begins
    refine ⟨t, _, rfl, fun hk ↦ ?_, fun hk ↦ ?_⟩
    · rw [hk] at ht
      cases ht
    · rw [hk] at ht
      cases ht

/-- No statement begins with `else`. -/
theorem not_begins_else_of_statement (hg : g.Accepts L) {xs : List Token} {s : Stmt}
    (h : Statement L control xs s) (ts : List Token) :
    ¬ Begins (xs ++ ts) (.keyword .elseWord) := by
  obtain ⟨t, us, rfl, ht, -⟩ := begins_of_statement hg h
  exact not_begins_cons _ rfl ht

/-! ### Levels -/

/-- Statements one after the other are read up to the brace that closes them. -/
theorem reads_stmts (hg : g.Accepts L) (control : Bool) :
    Reads (g.stmts control) (Many (Statement L control)) fun rest ↦
      (∀ t ∈ rest.head?, t.isSymbol .rightBrace = true) ∧
        ¬ Begins rest (.keyword .elseWord) := by
  refine (reads_stmt hg control).many _ (fun h ↦ ?_) fun ts h ↦ not_begins_else_of_statement hg h ts
  obtain ⟨t, ts, rfl, -, ht⟩ := begins_of_statement hg h
  exact ⟨t, ts, rfl, Bool.eq_false_iff.2 (mt Token.isSymbol_iff.1 ht)⟩

theorem reads_braces (hg : g.Accepts L) (control : Bool) :
    Reads (g.braces control) (Braces L control) fun _ ↦ True where
  sound {stop ts rest body} h := by
    obtain ⟨left, _, rfl, hl, h₁⟩ := symbol_bind_eq_ok h
    obtain ⟨xs, body, _, rfl, hbody, h₂⟩ := (reads_stmts hg control).bind_eq_ok h₁
    obtain ⟨right, _, rfl, hr, h₃⟩ := symbol_bind_eq_ok h₂
    cases h₃
    exact ⟨left :: (xs ++ [right]), by simp, .braces hl hbody hr⟩
  complete {stop xs rest body} h _ := by
    obtain @⟨left, right, xs, _, hl, hbody, hr⟩ := h
    have hend : ∀ t ∈ (right :: rest).head?, t.isSymbol .rightBrace = true := by
      rintro t ⟨⟩
      exact Token.isSymbol_iff.2 hr
    simp only [List.cons_append, List.append_assoc, List.nil_append]
    rw [braces, run_symbol_bind _ hl,
      (reads_stmts hg control).run_bind _ hbody ⟨hend, not_begins_cons _ hr (by simp)⟩,
      run_symbol_bind _ hr]
    rfl

/-- If what lies further in is read as the language says, so is this level. -/
theorem Accepts.deeper (hg : g.Accepts L) : g.deeper.Accepts L.deeper where
  expr := reads_assignment hg
  operand := reads_unary hg
  block := reads_braces hg
  shaped := Assignment.shaped
  begins_block h := by
    obtain ⟨hl, -, -⟩ := h
    exact ⟨_, _, rfl, hl⟩

/-- With room for so many levels, what is nested at most so deep is read. -/
theorem accepts_withRoom (n : Nat) : (withRoom n).Accepts (Language.within n) := by
  induction n with
  | zero =>
    exact ⟨reads_failHere _ _, reads_failHere _ _, fun _ ↦ reads_failHere _ _, False.elim,
      False.elim⟩
  | succ n ih => exact ih.deeper

/-! ### Programs -/

/-- Statements with room for so many levels are read up to the end of the tokens. -/
theorem run_stmts_iff {n : Nat} {program : Program} :
    (many (fun _ ↦ false) ((withRoom n).stmt false) (strict_stmt _ _)).run stop ts =
      .ok (program, rest) ↔ rest = [] ∧ Many (Statement (Language.within n) false) ts program := by
  have hg := accepts_withRoom n
  constructor
  · intro h
    obtain ⟨⟨xs, bs, rfl, rfl, hxs⟩, hend⟩ := manyRun_sound _ (reads_stmt hg false) h
    cases rest with
    | nil =>
      rw [List.append_nil]
      exact ⟨rfl, hxs⟩
    | cons t rest => exact absurd (hend t rfl) Bool.false_ne_true
  · rintro ⟨rfl, h⟩
    have hmany : Reads (many (fun _ ↦ false) ((withRoom n).stmt false) (strict_stmt _ _))
        (Many (Statement (Language.within n) false)) fun rest ↦
        (∀ t ∈ rest.head?, false = true) ∧ ¬ Begins rest (.keyword .elseWord) := by
      refine (reads_stmt hg false).many _ (fun h ↦ ?_) fun ts h ↦
        not_begins_else_of_statement hg h ts
      obtain ⟨t, us, hxs, -⟩ := begins_of_statement hg h
      exact ⟨t, us, hxs, rfl⟩
    -- At the end of the tokens no `else` can follow.
    have hend : ¬ Begins [] (.keyword .elseWord) := by
      rintro ⟨t, ht, -⟩
      cases ht
    have hrun : (many _ _ _).run stop (ts ++ []) = _ :=
      hmany.complete h ⟨fun t ht ↦ (by cases ht), hend⟩
    rwa [List.append_nil] at hrun

/-- The statements of a program are read up to the end of the tokens. -/
theorem run_program_iff {program : Program} :
    Grammar.program.run stop ts = .ok (program, rest) ↔
      rest = [] ∧ Program.Derives ts program :=
  run_stmts_iff

end Grammar

theorem Token.Kind.isEnd_iff {k : Token.Kind} : k.isEnd = true ↔ k = .endOfInput := by
  cases k <;> simp [Token.Kind.isEnd]

/-- The tokens before the mark of the end are those that are looked at. -/
theorem takeWhile_not_isEnd {ts : List Token} {last : Token}
    (hts : ∀ t ∈ ts, t.kind ≠ .endOfInput) (hlast : last.kind = .endOfInput) :
    (ts ++ [last]).takeWhile (fun t ↦ !t.kind.isEnd) = ts := by
  have hbefore : ∀ t ∈ ts, (!t.kind.isEnd) = true := by
    intro t ht
    simpa using mt Token.Kind.isEnd_iff.1 (hts t ht)
  have hend : (!last.kind.isEnd) = false := by simp [Token.Kind.isEnd_iff.2 hlast]
  rw [List.takeWhile_append_of_pos hbefore, List.takeWhile_cons_of_neg (by simp [hend]),
    List.append_nil]

/-- **The parser accepts exactly its grammar.** Tokens that end with the only mark of the end are
read as a program just when the tokens before the mark form that program: with the tree that the
rules give, and with nothing nested more than `maxNesting` levels deep. -/
theorem ofTokens_eq_ok_iff_derives {ts : List Token} {last : Token} {program : Program}
    (hts : ∀ t ∈ ts, t.kind ≠ .endOfInput) (hlast : last.kind = .endOfInput) :
    Program.ofTokens (ts ++ [last]) = .ok program ↔ Program.Derives ts program := by
  rw [Program.ofTokens, takeWhile_not_isEnd hts hlast]
  constructor
  · intro h
    cases hrun : Grammar.program.run (endOfTokens (ts ++ [last])) ts with
    | error e =>
      rw [hrun] at h
      cases h
    | ok result =>
      obtain ⟨program', rest⟩ := result
      rw [hrun] at h
      cases h
      exact (Grammar.run_program_iff.1 hrun).2
  · intro h
    rw [Grammar.run_program_iff.2 ⟨rfl, h⟩]
    rfl

/-- The tokens of `if a { run; }` are a condition with its body, which may hold `run`. -/
theorem ofTokens_if_run :
    let word : Token := ⟨.keyword .ifWord, "if", ⟨1, 1, 0⟩⟩
    let name : Token := ⟨.ident "a", "a", ⟨1, 4, 3⟩⟩
    let left : Token := ⟨.symbol .leftBrace, r"{", ⟨1, 6, 5⟩⟩
    let exit : Token := ⟨.keyword .run, "run", ⟨1, 8, 7⟩⟩
    let semicolon : Token := ⟨.symbol .semicolon, ";", ⟨1, 11, 10⟩⟩
    let right : Token := ⟨.symbol .rightBrace, r"}", ⟨1, 13, 12⟩⟩
    let last : Token := ⟨.endOfInput, "", ⟨1, 14, 13⟩⟩
    Program.ofTokens [word, name, left, exit, semicolon, right, last] =
      .ok [.cond (.ident "a" name.span) [.run exit.span] none word.span] := by
  intro word name left exit semicolon right last
  have hcondition : (within maxNesting).expr [name] (.ident "a" name.span) :=
    .plain (.operand (.operand (.operand (.operand (.operand (.operand
      (.suffixed (.primary (.ident rfl)))))))))
  have hexit : Statement (within (maxNesting - 1)) true [exit, semicolon] (.run exit.span) :=
    .run rfl rfl rfl
  have hblock := Braces.braces (rfl : left.kind = _) (.cons hexit .nil) (rfl : right.kind = _)
  have hsingle := Condition.single (rfl : word.kind = _) hcondition hblock
  have hstatement : Statement (within maxNesting) false _ _ := .cond hsingle
  have hderives := Many.cons hstatement .nil
  refine (ofTokens_eq_ok_iff_derives ?_ rfl).2 hderives
  simp [word, name, left, exit, semicolon, right]

end SafariScript
