import SafariScript.Proofs.Grammar.Statements

/-!
# Less room for nesting

Two grammars that differ only in the room for nesting read the same tokens alike, **except that the
narrower one may find them nested too deep**. `Parser.Narrows p q` says this of two parsers. It is
closed under sequence and repetition, so a level narrows another one if the next level does; and
where nothing is read at all, every attempt is refused as nested too deep, which narrows everything.
Hence tokens that form a program at any depth are read as that program or refused for their nesting
(`ofTokens_of_many`).
-/

namespace SafariScript

/-! ### Parsers that differ in their room -/

/-- The first parser does what the second does, or finds the tokens nested too deep. -/
def Parser.Narrows {α : Type} (p q : Parser α) : Prop :=
  ∀ stop ts, p.run stop ts = q.run stop ts ∨ ∃ t, p.run stop ts = .error ⟨.nestingTooDeep, t⟩

namespace Parser.Narrows

variable {α β : Type} {p q : Parser α}

theorem refl (p : Parser α) : Narrows p p := fun _ _ ↦ .inl rfl

/-- A parser that refuses everything. -/
theorem failHere (q : Parser α) : Narrows (failHere .nestingTooDeep) q :=
  fun stop ts ↦ .inr ⟨ts.headD stop, rfl⟩

/-- If the first parser of the narrower sequence is refused, the whole sequence is. -/
theorem bind {f g : α → Parser β} (hp : Narrows p q) (hf : ∀ a, Narrows (f a) (g a)) :
    Narrows (p >>= f) (q >>= g) := by
  intro stop ts
  rw [run_bind, run_bind]
  obtain heq | ⟨t, ht⟩ := hp stop ts
  · rw [heq]
    cases q.run stop ts with
    | error e => exact .inl rfl
    | ok result => exact hf result.1 stop result.2
  · rw [ht]
    exact .inr ⟨t, rfl⟩

/-- What comes behind the same first part. -/
theorem after (p : Parser α) {f g : α → Parser β} (hf : ∀ a, Narrows (f a) (g a)) :
    Narrows (p >>= f) (p >>= g) := (refl p).bind hf

/-- What comes before the same last part. -/
theorem before (hp : Narrows p q) (f : α → Parser β) : Narrows (p >>= f) (q >>= f) :=
  hp.bind fun a ↦ refl (f a)

/-! #### Repetition -/

/-- Rounds that differ in their room. -/
theorem loop {round round' : α → Token → Option (Parser α)}
    (hround : ∀ a t, Option.Rel Narrows (round a t) (round' a t)) (a : α) :
    Narrows (loop round a) (loop round' a) := by
  intro stop ts
  show loopRun round stop a ts = loopRun round' stop a ts ∨ ∃ t, loopRun round stop a ts = _
  -- The rounds of the narrower loop decide; the wider one has the same rounds until one is refused.
  fun_induction loopRun round stop a ts with
  | case1 a => exact .inl (loopRun_of_stops (by simp)).symm
  | case2 a t ts hstops =>
    have hrel := hround a t
    rw [hstops] at hrel
    generalize hround' : round' a t = next at hrel
    cases hrel with
    | none => exact .inl (loopRun_of_stops (by simp [hround'])).symm
  | case3 a t ts p hp e hrun =>
    have hrel := hround a t
    rw [hp] at hrel
    generalize hround' : round' a t = next at hrel
    cases hrel with
    | some hnarrows =>
      obtain heq | ⟨u, hu⟩ := hnarrows stop ts
      · exact .inl (loopRun_of_error hround' (heq ▸ hrun)).symm
      · exact .inr ⟨u, hrun.symm.trans hu⟩
  | case4 a t ts p hp b rest hrun _ ih =>
    have hrel := hround a t
    rw [hp] at hrel
    generalize hround' : round' a t = next at hrel
    cases hrel with
    | some hnarrows =>
      obtain heq | ⟨u, hu⟩ := hnarrows stop ts
      · rw [loopRun_of_round hround' (heq ▸ hrun)]
        exact ih
      · rw [hrun] at hu
        cases hu

/-- Items are taken alike until one is refused. The induction is on the tokens that are left. -/
theorem many {ends : Token → Bool} (hpq : Narrows p q) (hp : p.Strict) (hq : q.Strict) :
    Narrows (many ends p hp) (many ends q hq) := by
  intro stop ts
  show manyRun ends p hp stop [] ts = manyRun ends q hq stop [] ts ∨
    ∃ t, manyRun ends p hp stop [] ts = _
  fun_induction manyRun ends p hp stop [] ts with
  | case1 found =>
    rw [manyRun]
    exact .inl rfl
  | case2 found t ts hends =>
    rw [manyRun, if_pos hends]
    exact .inl rfl
  | case3 found t ts hends e hrun =>
    obtain heq | ⟨u, hu⟩ := hpq stop (t :: ts)
    · exact .inl (manyRun_of_error hends (heq ▸ hrun)).symm
    · rw [hrun] at hu
      cases hu
      exact .inr ⟨u, rfl⟩
  | case4 found t ts hends a rest hrun _ ih =>
    obtain heq | ⟨u, hu⟩ := hpq stop (t :: ts)
    · rw [manyRun_of_ok hends (heq ▸ hrun)]
      exact ih
    · rw [hrun] at hu
      cases hu

/-- Whether a list is closed does not depend on the room. -/
theorem whenClosed {close : Symbol} {x x' y y' : Parser β} (hx : Narrows x x')
    (hy : Narrows y y') : Narrows (whenClosed close x y) (whenClosed close x' y') := by
  refine .after _ fun ended ↦ .after _ fun t ↦ ?_
  split
  · exact hx
  · exact hy

/-- Items with commas between them. -/
theorem items {close : Symbol} (h : Narrows p q) : Narrows (items close p) (items close q) := by
  rw [items_eq, items_eq]
  refine .whenClosed (.refl _) (h.bind fun first ↦ .before (.loop (fun found comma ↦ ?_) _) _)
  unfold nextItem
  split
  · exact .some (.whenClosed (.refl _) (h.before _))
  · exact .none

end Parser.Narrows

/-! ### The grammar -/

namespace Grammar

open SafariScript.Parser

/-- What lies one level further in is read by parsers that narrow those of the other grammar. -/
structure Narrows (g h : Grammar) : Prop where
  expr : g.expr.Narrows h.expr
  operand : g.operand.Narrows h.operand
  block : ∀ control, (g.block control).Narrows (h.block control)

variable {g h : Grammar} (hgh : g.Narrows h)

/-! #### Expressions -/

/-- Operands with operators between them. -/
theorem narrows_leftAssoc {operator? : Token → Option (Expr → Expr → Span → Expr)}
    {p q : Parser Expr} (hpq : p.Narrows q) :
    (leftAssoc operator? p).Narrows (leftAssoc operator? q) := by
  refine hpq.bind fun e ↦ .loop (fun left t ↦ ?_) e
  cases operator? t with
  | none => exact .none
  | some build => exact .some (hpq.before _)

include hgh

/-- Lists and parentheses have expressions further in. -/
theorem narrows_primary : g.primary.Narrows h.primary := by
  refine .after _ fun t ↦ ?_
  split
  · exact .refl _
  · exact .refl _
  · exact .after _ fun _ ↦ hgh.expr.before _
  · exact .after _ fun _ ↦ hgh.expr.items.before _
  · exact .refl _

/-- An argument, with a name before it or without. -/
theorem narrows_argument : g.argument.Narrows h.argument := by
  refine .after _ fun next ↦ ?_
  split
  · split
    · exact .after _ fun _ ↦ .after _ fun _ ↦ hgh.expr.before _
    · exact hgh.expr.before _
  · exact hgh.expr.before _

theorem narrows_methodCall (e : Expr) : (g.methodCall e).Narrows (h.methodCall e) := by
  refine .after _ fun t ↦ .after _ fun name ↦ .after _ fun found ↦ ?_
  split
  · exact (narrows_argument hgh).items.before _
  · exact .refl _

/-- Suffixes as long as there are any. -/
theorem narrows_suffixed : g.suffixed.Narrows h.suffixed := by
  refine (narrows_primary hgh).bind fun e ↦ .loop (fun e t ↦ ?_) e
  unfold suffix?
  split
  · exact .some (.refl _)
  · exact .some (narrows_methodCall hgh e)
  · exact .some (hgh.expr.items.before _)
  · exact .none

/-- What a unary operator applies to is further in. -/
theorem narrows_unary : g.unary.Narrows h.unary := by
  refine .after _ fun t ↦ .after _ fun op ↦ ?_
  split
  · exact hgh.operand.before _
  · exact narrows_suffixed hgh

theorem narrows_disjunction : g.disjunction.Narrows h.disjunction :=
  narrows_leftAssoc (narrows_leftAssoc (narrows_leftAssoc (narrows_leftAssoc (narrows_leftAssoc
    (narrows_leftAssoc (narrows_unary hgh))))))

/-- The right side of an assignment is further in. -/
theorem narrows_assignment : g.assignment.Narrows h.assignment := by
  refine (narrows_disjunction hgh).bind fun target ↦ .after _ fun found ↦ ?_
  split
  · exact .refl _
  · exact hgh.expr.before _

/-! #### Statements -/

/-- A declaration with or without a value. -/
theorem narrows_varStmt : g.varStmt.Narrows h.varStmt := by
  refine .after _ fun t ↦ .after _ fun name ↦ .after _ fun found ↦ ?_
  split
  · exact (hgh.expr.before _).before _
  · exact .refl _

theorem narrows_arm : g.arm.Narrows h.arm :=
  .after _ fun _ ↦ hgh.expr.bind fun _ ↦ (hgh.block true).before _

/-- A condition with its branches. -/
theorem narrows_ifStmt : g.ifStmt.Narrows h.ifStmt := by
  refine (narrows_arm hgh).bind fun first ↦ .before (.loop (fun tail t ↦ ?_) _) _
  unfold else?
  split
  · refine .some (.after _ fun next ↦ ?_)
    split
    · exact (narrows_arm hgh).before _
    · exact (hgh.block true).before _
  · exact .none

theorem narrows_throwBallStmt : g.throwBallStmt.Narrows h.throwBallStmt :=
  .after _ fun _ ↦ .after _ fun _ ↦ hgh.expr.bind fun _ ↦ .after _ fun _ ↦ hgh.expr.before _

theorem narrows_exprStmt : g.exprStmt.Narrows h.exprStmt :=
  .after _ fun _ ↦ hgh.expr.before _

/-- The first token decides which statement it is, with any room. -/
theorem narrows_stmt (control : Bool) : (g.stmt control).Narrows (h.stmt control) := by
  refine .after _ fun t ↦ ?_
  unfold stmtOf
  split
  · exact narrows_varStmt hgh
  · exact .after _ fun _ ↦ hgh.expr.before _
  · exact narrows_ifStmt hgh
  · exact .after _ fun _ ↦ hgh.expr.bind fun _ ↦ (hgh.block true).before _
  · exact .after _ fun _ ↦ .after _ fun _ ↦ .after _ fun _ ↦ .after _ fun _ ↦ .after _ fun _ ↦
      (hgh.block false).before _
  · exact narrows_throwBallStmt hgh
  · exact .refl _
  · exact .after _ fun _ ↦ (hgh.block control).before _
  · exact narrows_exprStmt hgh

/-! #### Levels -/

/-- A level narrows another one if what lies further in does. -/
theorem Narrows.deeper : g.deeper.Narrows h.deeper where
  expr := narrows_assignment hgh
  operand := narrows_unary hgh
  block control := .after _ fun _ ↦ ((narrows_stmt hgh control).many _ _).before _

omit hgh in
/-- **Less room narrows.** -/
theorem narrows_withRoom {m n : Nat} (hmn : m ≤ n) : (withRoom m).Narrows (withRoom n) := by
  induction m generalizing n with
  | zero => exact ⟨.failHere _, .failHere _, fun _ ↦ .failHere _⟩
  | succ m ih =>
    cases n with
    | zero => exact absurd hmn (Nat.not_succ_le_zero m)
    | succ n => exact (ih (Nat.le_of_succ_le_succ hmn)).deeper

omit hgh in
/-- With less room statements are read alike or refused. -/
theorem narrows_stmts {m n : Nat} (hmn : m ≤ n) :
    (many (fun _ ↦ false) ((withRoom m).stmt false) (strict_stmt _ _)).Narrows
      (many (fun _ ↦ false) ((withRoom n).stmt false) (strict_stmt _ _)) :=
  (narrows_stmt (narrows_withRoom hmn) false).many _ _

end Grammar

/-- **Nesting is the only thing that the room decides.** Tokens that form a program at whatever
depth are read as that program, or found nested too deep. -/
theorem ofTokens_of_many {n : Nat} {ts : List Token} {program : Program}
    (h : Language.Many (Language.Statement (Language.within n) false)
      (ts.takeWhile fun t ↦ !t.kind.isEnd) program) :
    Program.ofTokens ts = .ok program ∨ ∃ t, Program.ofTokens ts = .error ⟨.nestingTooDeep, t⟩ := by
  have hwide : (Parser.many _ _ _).run (endOfTokens ts) _ = _ :=
    Grammar.run_stmts_iff.2 ⟨rfl, h⟩
  suffices hrun : Grammar.program.run (endOfTokens ts) (ts.takeWhile fun t ↦ !t.kind.isEnd) =
      .ok (program, []) ∨ ∃ t, Grammar.program.run (endOfTokens ts)
        (ts.takeWhile fun t ↦ !t.kind.isEnd) = .error ⟨.nestingTooDeep, t⟩ by
    rw [Program.ofTokens]
    obtain hrun | ⟨t, hrun⟩ := hrun
    · rw [hrun]
      exact .inl rfl
    · rw [hrun]
      exact .inr ⟨t, rfl⟩
  obtain hless | hmore := Nat.le_total n maxNesting
  · obtain heq | ⟨t, ht⟩ := Grammar.narrows_stmts hless (endOfTokens ts) _
    · exact .inl (heq.symm.trans hwide)
    · rw [hwide] at ht
      cases ht
  · obtain heq | ⟨t, ht⟩ := Grammar.narrows_stmts hmore (endOfTokens ts) _
    · exact .inl (heq.trans hwide)
    · exact .inr ⟨t, ht⟩

end SafariScript
