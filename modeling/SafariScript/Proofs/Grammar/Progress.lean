import SafariScript.Proofs.Grammar.Ended
import SafariScript.Proofs.Grammar.Following

/-!
# Progress of the descent

Productions call one another before they have taken a token, `run` is taken without a look at it,
and no mark of the end is passed if it is the last token: a descent could go round in circles there.
**It never does.** From whatever registers, every production comes to an end, with as many tokens
taken as it has to take (`Production.least`) and both counters as they were (`Descent.settled_run`).

The argument has two parts. Every call that takes no token first is one of a closer level of
operators, or else it is one level further in, of which there are only as many as there is room for:
so the productions of a level are followed one after the other (`Descent.FollowsLevel`), and the
levels by induction on the room. What is repeated takes a token in each round: operators, suffixes,
commas and statements, and `else` in a chain of conditions, which is a recursion here and a loop of
the cursor (`Cursor.Level.elses_of_if`).
-/

namespace SafariScript

open Grammar (operator? unaryOp? productOp? sumOp? comparisonOp? equalityOp? andOp?)

/-- What the operators of a level stand between. -/
def Cursor.Level.between (l : Level) : Language.Level → Cursor Expr
  | .product => l.unary
  | .sum => leftAssoc productOp? l.unary
  | .comparison => leftAssoc sumOp? <| leftAssoc productOp? l.unary
  | .equality => leftAssoc comparisonOp? <| leftAssoc sumOp? <| leftAssoc productOp? l.unary
  | .conjunction =>
    leftAssoc equalityOp? <| leftAssoc comparisonOp? <| leftAssoc sumOp? <|
      leftAssoc productOp? l.unary
  | .disjunction =>
    leftAssoc andOp? <| leftAssoc equalityOp? <| leftAssoc comparisonOp? <| leftAssoc sumOp? <|
      leftAssoc productOp? l.unary

/-! ### Chains of conditions -/

namespace Cursor

variable {α β : Type}

theorem map_apply (f : α → β) (c : Cursor α) (tokens : Array Token) (i : Nat) :
    (f <$> c) tokens i = (c tokens i).map fun p ↦ (f p.1, p.2) := by
  show (c tokens i >>= fun r ↦ .ok (f r.1, r.2)) = _
  cases c tokens i with
  | error halt => rfl
  | ok p => rfl

/-- Rounds that are the same up to a change of the state come to the same up to this change. -/
theorem roundsFrom_map {round : α → Cursor (α ⊕ β)} {f : α → α} {g : β → β}
    (hround : ∀ a, round (f a) = Sum.map f g <$> round a) (tokens : Array Token) (i : Nat) (a : α) :
    roundsFrom round tokens i (f a) =
      (roundsFrom round tokens i a).map fun p ↦ (g p.1, p.2) := by
  fun_induction roundsFrom round tokens i a with
  | case1 i a halt hrun =>
    rw [roundsFrom, hround, map_apply, hrun]
    rfl
  | case2 i a b j hrun =>
    rw [roundsFrom, hround, map_apply, hrun]
    rfl
  | case3 i a b j hrun hless ih =>
    rw [roundsFrom, hround, map_apply, hrun]
    exact (if_pos hless).trans ih
  | case4 i a b j hrun hless =>
    rw [roundsFrom, hround, map_apply, hrun]
    exact if_neg hless

namespace Level

open Grammar (Arm Tail chain)

/-- What follows the first guarded body of a chain. -/
def elses (l : Level) (first : Arm) : Cursor Stmt := do
  let tail ← loop l.else? ⟨[], none⟩
  return chain first tail.otherwise tail.arms.reverse

theorem ifStmt_eq (l : Level) : l.ifStmt = l.arm >>= l.elses := rfl

variable {l : Level} {first : Arm} {s : Stream} {i : Nat} {t : Token} (h : s.tokens[i]? = some t)

include h

/-- Without `else` there is one guarded body. -/
theorem elses_of_not_isWord (ht : t.isWord .elseWord = false) :
    l.elses first s.tokens i = .ok (.cond first.condition first.body none first.span, i) := by
  have hround : continuing l.else? ⟨[], none⟩ s.tokens i = .ok (.inr ⟨[], none⟩, i) := by
    rw [continuing, bind_of_ok (peek_of_getElem? h), else?, ht]
    rfl
  have hloop : loop l.else? ⟨[], none⟩ s.tokens i = .ok (⟨[], none⟩, i) := by
    rw [loop, rounds, roundsFrom, hround]
  rw [elses, bind_of_ok hloop]
  rfl

variable {u : Token} (hu : s.tokens[i + 1]? = some u) (ht : t.isWord .elseWord = true)

include hu ht

omit h hu in
/-- A keyword is no mark of the end. -/
theorem isEnd_of_isWord : t.kind.isEnd = false := by
  rw [Token.isWord_iff.1 ht]
  rfl

/-- The round that begins with `else`. -/
theorem continuing_else :
    continuing l.else? ⟨[], none⟩ s.tokens i =
      (if u.isWord .ifWord then (fun a ↦ .inl ⟨[a], none⟩) <$> l.arm
        else (fun body ↦ .inl ⟨[], some body⟩) <$> l.block true : Cursor (Tail ⊕ Tail))
        s.tokens (i + 1) := by
  rw [continuing, bind_of_ok (peek_of_getElem? h), else?, ht]
  dsimp only
  rw [bind_of_ok (advance_of_getElem? h (isEnd_of_isWord ht)), bind_assoc,
    bind_of_ok (peek_of_getElem? hu)]
  split
  · rw [bind_assoc]
    rfl
  · rw [bind_assoc]
    rfl

omit h hu ht in
/-- Arms that were found before the others stand in front of them. -/
theorem loop_else_found (a : Arm) (tokens : Array Token) (i : Nat) :
    loop l.else? ⟨[a], none⟩ tokens i = (loop l.else? ⟨[], none⟩ tokens i).map fun p ↦
      ({ p.1 with arms := p.1.arms ++ [a] }, p.2) := by
  let behind : Tail → Tail := fun tail ↦ { tail with arms := tail.arms ++ [a] }
  refine roundsFrom_map (f := behind) (g := behind) (fun tail ↦ ?_) tokens i ⟨[], none⟩
  obtain ⟨arms, otherwise⟩ := tail
  rw [continuing, continuing, map_bind]
  refine bind_congr fun t ↦ ?_
  rw [else?, else?]
  cases otherwise with
  | some body => rfl
  | none =>
    cases t.isWord .elseWord with
    | false => rfl
    | true =>
      simp only [behind, map_bind, bind_assoc]
      refine bind_congr fun _ ↦ bind_congr fun next ↦ ?_
      split
      · simp only [bind_assoc, pure_bind, map_pure]
        rfl
      · simp only [bind_assoc, pure_bind, map_pure]
        rfl

/-- Behind `else if` the chain goes on with a chain of its own. -/
theorem elses_of_if (hif : u.isWord .ifWord = true) {k : Arm → Nat}
    (harm : Takes s (i + 1) k (l.arm s.tokens (i + 1))) :
    l.elses first s.tokens i = (l.ifStmt >>= fun inner ↦
      pure (.cond first.condition first.body (some [inner]) first.span) : Cursor Stmt)
        s.tokens (i + 1) := by
  have hround := continuing_else (l := l) h hu ht
  rw [hif, if_pos rfl, map_apply] at hround
  show (loop l.else? ⟨[], none⟩ s.tokens i >>= fun p ↦ _) =
    ((l.arm s.tokens (i + 1) >>= fun p ↦ l.elses p.1 s.tokens p.2) >>= fun p ↦ _)
  rw [loop, rounds, roundsFrom, hround]
  generalize l.arm s.tokens (i + 1) = found at harm
  cases harm with
  | failed e => rfl
  | @ok a j hj hsize =>
    have hless : s.tokens.size - j < s.tokens.size - i := by omega
    have hrest : roundsFrom (continuing l.else?) s.tokens j ⟨[a], none⟩ = _ :=
      loop_else_found a s.tokens j
    simp only [Except.map, if_pos hless, hrest]
    show _ = ((loop l.else? ⟨[], none⟩ s.tokens j >>= fun p ↦ _) >>= fun p ↦ _)
    cases loop l.else? ⟨[], none⟩ s.tokens j with
    | error halt => rfl
    | ok p =>
      obtain ⟨tail, k⟩ := p
      show Except.ok (chain first tail.otherwise (tail.arms ++ [a]).reverse, k) = .ok (_, k)
      rw [List.reverse_append]
      rfl

/-- Behind any other `else` there is the last body. -/
theorem elses_of_not_if (hif : u.isWord .ifWord = false) {k : List Stmt → Nat}
    (hblock : Takes s (i + 1) k (l.block true s.tokens (i + 1))) :
    l.elses first s.tokens i = (l.block true >>= fun body ↦
      pure (.cond first.condition first.body (some body) first.span) : Cursor Stmt)
        s.tokens (i + 1) := by
  have hround := continuing_else (l := l) h hu ht
  rw [hif, if_neg Bool.false_ne_true, map_apply] at hround
  show (loop l.else? ⟨[], none⟩ s.tokens i >>= fun p ↦ _) =
    (l.block true s.tokens (i + 1) >>= fun p ↦ _)
  rw [loop, rounds, roundsFrom, hround]
  generalize l.block true s.tokens (i + 1) = found at hblock
  cases hblock with
  | failed e => rfl
  | @ok body j hj hsize =>
    obtain ⟨v, hv⟩ := s.exists_token hsize
    have hless : s.tokens.size - j < s.tokens.size - i := by omega
    have hlast : continuing l.else? ⟨[], some body⟩ s.tokens j = .ok (.inr ⟨[], some body⟩, j) := by
      rw [continuing, bind_of_ok (peek_of_getElem? hv)]
      rfl
    have hrest : roundsFrom (continuing l.else?) s.tokens j ⟨[], some body⟩ =
        .ok (⟨[], some body⟩, j) := by
      rw [roundsFrom, hlast]
    simp only [Except.map, if_pos hless, hrest]
    rfl

end Level

end Cursor

/-! ### Productions -/

namespace Production

/-- How many tokens a production takes at least. A list may have no items, and a loop no rounds. -/
def least {α : Type} : Production α → Nat
  | .stmts _ _ | .operators _ _ | .suffixes _ | .items _ _ _ => 0
  | _ => 1

open Cursor in
/-- The production of a cursor, on a level and where `run` is allowed or not. -/
def atCursor (l : Level) (control : Bool) {α : Type} : Production α → Cursor α
  | .stmt => l.stmt control
  | .varStmt => l.varStmt
  | .printStmt => l.printStmt
  | .ifStmt => l.ifStmt
  | .repeatStmt => l.repeatStmt
  | .defineStmt => l.defineStmt
  | .throwBallStmt => l.throwBallStmt
  | .runStmt => Level.runStmt control
  | .exprStmt => l.exprStmt
  | .block => l.block control
  | .controlBlock => l.block true
  | .functionBlock => l.block false
  | .braces => l.braces control
  | .stmts ends found => rounds (oneMore ends (l.stmt control)) found
  | .expr => l.expr
  | .assignment => l.assignment
  | .operation level => Level.leftAssoc (operator? level) (l.between level)
  | .operators level left =>
    loop (fun left t ↦ (operator? level t).map fun build ↦ do
      return build left (← l.between level) t.span) left
  | .operand => l.operand
  | .unary => l.unary
  | .suffixed => l.suffixed
  | .suffixes e => loop l.suffix? e
  | .primary => l.primary
  | .name => ident
  | .argument => l.argument
  | .items close item found => rounds (oneItem close (item.atCursor l control)) found

end Production

namespace Descent

open Cursor (Level)
open Production (run run_name)

variable {α : Type} {s : Stream} {room : Nat} {control : Bool} {l : Level}

/-- What lies one level further in is read as the cursor reads it. -/
structure FollowsLevel (s : Stream) (room : Nat) (l : Level) : Prop where
  expr : ∀ control, Follows s room control (fun _ ↦ 1) (run .expr) l.expr
  operand : ∀ control, Follows s room control (fun _ ↦ 1) (run .operand) l.operand
  block : ∀ control, Follows s room control (fun _ ↦ 1) (run .block) (l.block control)

/-! ### Lists -/

/-- Each further item takes a comma, so the list comes to an end. -/
theorem follows_items {item : Production α} {c : Cursor α}
    (h : Follows s room control (fun _ ↦ 0) (run item) c) (close : Symbol) (found : List α) :
    Follows s room control (fun _ ↦ 0) (run (.items close item found))
      (Cursor.rounds (Cursor.oneItem close c) found) := by
  refine .rounds (fun found ↦ by rw [run]) (fun found ↦ ?_) found
  refine .bind .peek fun t ↦ .bind .atEnd fun ended ↦ ?_
  split
  · exact .pure rfl
  · refine h.bind fun a ↦ .bind (.symbol? _) fun comma ↦ ?_
    cases comma with
    | true => exact .pure rfl
    | false => exact .pure rfl

/-- Each statement takes a token, so the list comes to an end. -/
theorem follows_stmts {c : Cursor Stmt} (h : Follows s room control (fun _ ↦ 1) (run .stmt) c)
    (ends : Token → Bool) (found : List Stmt) :
    Follows s room control (fun _ ↦ 0) (run (.stmts ends found))
      (Cursor.rounds (Cursor.oneMore ends c) found) := by
  refine .rounds (fun found ↦ by rw [run]) (fun found ↦ ?_) found
  refine .bind .peek fun t ↦ .bind .atEnd fun ended ↦ ?_
  split
  · exact .pure rfl
  · exact h.bind fun _ ↦ .pure rfl

/-! ### Expressions -/

/-- An operator is no mark of the end. -/
theorem isEnd_of_operator? {level : Language.Level} {t : Token}
    {build : Expr → Expr → Span → Expr} (h : operator? level t = some build) :
    t.kind.isEnd = false := by
  have hop := Grammar.operator?_eq_some.1 h
  generalize t.kind = kind at hop ⊢
  cases hop <;> rfl

/-- Further operators and operands of a level: no mark of the end is an operator. -/
theorem follows_operators {level : Language.Level} {c : Cursor Expr}
    (h : Follows s room control (fun _ ↦ 1) (run (operandOf level)) c) (left : Expr) :
    Follows s room control (fun _ ↦ 0) (run (.operators level left))
      (Cursor.loop (fun left t ↦ (operator? level t).map fun build ↦ do
        return build left (← c) t.span) left) := by
  refine .rounds (fun left ↦ by rw [run]) (fun left ↦ .peek_bind fun t ↦ ?_) left
  dsimp only
  cases hop : operator? level t with
  | none => exact .pure rfl
  | some build =>
    simp only [Option.map_some, bind_assoc, pure_bind]
    exact .bind (.advance_of_not_isEnd (isEnd_of_operator? hop)) fun _ ↦ h.bind fun _ ↦ .pure rfl

/-- Each further operand takes an operator, so the operation comes to an end. -/
theorem follows_operation {level : Language.Level} {c : Cursor Expr}
    (h : Follows s room control (fun _ ↦ 1) (run (operandOf level)) c) :
    Follows s room control (fun _ ↦ 1) (run (.operation level))
      (Level.leftAssoc (operator? level) c) := by
  rw [run]
  exact h.bind fun left ↦ follows_operators h left

variable (h : FollowsLevel s room l)

include h

/-- The first token decides, and it is taken. -/
theorem follows_primary : Follows s room control (fun _ ↦ 1) (run .primary) l.primary := by
  rw [run]
  refine .peek_bind fun t ↦ ?_
  cases hkind : t.kind with
  | literal value =>
    exact .bind (.advance_of_not_isEnd (by rw [hkind]; rfl)) fun _ ↦ .pure rfl
  | ident name => exact .bind (.advance_of_not_isEnd (by rw [hkind]; rfl)) fun _ ↦ .pure rfl
  | symbol mark =>
    cases mark with
    | leftParen =>
      exact .bind (.advance_of_not_isEnd (by rw [hkind]; rfl)) fun _ ↦ (h.expr _).bind fun e ↦
        .bind (.symbol _) fun _ ↦ .pure rfl
    | leftBracket =>
      exact .bind (.advance_of_not_isEnd (by rw [hkind]; rfl)) fun _ ↦
        (follows_items ((h.expr _).weaken fun _ ↦ Nat.zero_le _) _ _).bind fun es ↦
          .bind (.symbol _) fun _ ↦ .pure rfl
    | _ => exact .fail _ t
  | keyword | endOfInput => exact .fail _ t

/-- An argument, with a name before it or without. -/
theorem follows_argument : Follows s room control (fun _ ↦ 1) (run .argument) l.argument := by
  rw [run]
  refine .bind .atKey fun key ↦ ?_
  split
  · exact .bind .ident fun _ ↦ .bind (.symbol _) fun _ ↦ (h.expr _).bind fun _ ↦ .pure rfl
  · exact (h.expr _).bind fun _ ↦ .pure rfl

theorem follows_methodCall (e : Expr) :
    Follows s room control (fun _ ↦ 1) (methodCall run e) (l.methodCall e) := by
  refine .bind .peek fun t ↦ .bind .ident fun name ↦ .bind (.symbol? _) fun paren ↦ ?_
  cases paren with
  | true =>
    exact (follows_items ((follows_argument h).weaken fun _ ↦ Nat.zero_le _) _ _).bind fun args ↦
      .bind (.symbol _) fun _ ↦ .pure rfl
  | false => exact .pure rfl

theorem follows_callOf (e : Expr) :
    Follows s room control (fun _ ↦ 1) (callOf run e) (l.callOf e) :=
  (follows_items ((h.expr _).weaken fun _ ↦ Nat.zero_le _) _ _).bind fun _ ↦
    .bind (.symbol _) fun _ ↦ .pure rfl

/-- Each suffix takes a token, so there is a last one. -/
theorem follows_suffixes (e : Expr) :
    Follows s room control (fun _ ↦ 0) (run (.suffixes e)) (Cursor.loop l.suffix? e) := by
  refine .rounds (fun e ↦ by rw [run]) (fun e ↦ .peek_bind fun t ↦ ?_) e
  rw [Level.suffix?]
  cases hkind : t.kind with
  | symbol mark =>
    have hend : t.kind.isEnd = false := by rw [hkind]; rfl
    cases mark with
    | dot =>
      exact .bind (.advance_of_not_isEnd hend) fun _ ↦
        .bind (.step fun _ _ hj _ ↦ Cursor.takes_propertyOf hj e) fun _ ↦ .pure rfl
    | arrow =>
      exact .bind (.advance_of_not_isEnd hend) fun _ ↦ (follows_methodCall h e).bind fun _ ↦
        .pure rfl
    | leftParen =>
      exact .bind (.advance_of_not_isEnd hend) fun _ ↦ (follows_callOf h e).bind fun _ ↦ .pure rfl
    | _ => exact .pure rfl
  | _ => exact .pure rfl

theorem follows_suffixed : Follows s room control (fun _ ↦ 1) (run .suffixed) l.suffixed := by
  rw [run]
  exact (follows_primary h).bind fun e ↦ follows_suffixes h e

/-- What a unary operator applies to is one level further in. -/
theorem follows_unary : Follows s room control (fun _ ↦ 1) (run .unary) l.unary := by
  rw [run]
  refine .bind .peek fun t ↦ .bind (.take? fun t ht ↦ ?_) fun op ↦ ?_
  · rw [unaryOp?, Token.kind_of_isEnd ht]
  · cases op with
    | none => exact follows_suffixed h
    | some op => exact (h.operand _).bind fun _ ↦ .pure rfl

/-- The levels of operators, from the closest to the loosest. -/
theorem follows_operandOf (level : Language.Level) :
    Follows s room control (fun _ ↦ 1) (run (operandOf level)) (l.between level) := by
  have hproduct : Follows s room control (fun _ ↦ 1) (run (operandOf .product))
    (l.between .product) := follows_unary h
  have hsum : Follows s room control (fun _ ↦ 1) (run (operandOf .sum))
    (l.between .sum) := follows_operation hproduct
  have hcomparison : Follows s room control (fun _ ↦ 1) (run (operandOf .comparison))
    (l.between .comparison) := follows_operation hsum
  have hequality : Follows s room control (fun _ ↦ 1) (run (operandOf .equality))
    (l.between .equality) := follows_operation hcomparison
  have hconjunction : Follows s room control (fun _ ↦ 1) (run (operandOf .conjunction))
    (l.between .conjunction) := follows_operation hequality
  cases level with
  | product => exact hproduct
  | sum => exact hsum
  | comparison => exact hcomparison
  | equality => exact hequality
  | conjunction => exact hconjunction
  | disjunction => exact follows_operation hconjunction

/-- The right side of an assignment is one level further in. -/
theorem follows_assignment :
    Follows s room control (fun _ ↦ 1) (run .assignment) l.assignment := by
  rw [run]
  refine .bind (c := l.disjunction) (follows_operation (follows_operandOf h .disjunction))
    fun target ↦ .bind (.take? fun t ht ↦ ?_) fun equal ↦ ?_
  · rw [Token.isSymbol_of_isEnd ht, if_neg Bool.false_ne_true]
  · cases equal with
    | none => exact .pure rfl
    | some t =>
      refine (h.expr _).bind fun value ↦ ?_
      split
      · exact .pure rfl
      · exact .fail _ t

/-! ### Statements -/

/-- A declaration takes its keyword first. -/
theorem follows_varStmt : Follows s room control (fun _ ↦ 1) (run .varStmt) l.varStmt := by
  rw [run]
  refine .bind (.keyword _) fun t ↦ .bind .ident fun name ↦ .bind (.symbol? _) fun equal ↦ ?_
  cases equal with
  | true =>
    exact .bind (k := fun _ ↦ 1) ((h.expr _).bind fun _ ↦ .pure rfl) fun _ ↦
      .bind (.symbol _) fun _ ↦ .pure rfl
  | false =>
    exact .bind (k := fun _ ↦ 0) (.pure rfl) fun _ ↦ .bind (.symbol _) fun _ ↦ .pure rfl

theorem follows_printStmt : Follows s room control (fun _ ↦ 1) (run .printStmt) l.printStmt := by
  rw [run]
  exact .bind (.keyword _) fun _ ↦ (h.expr _).bind fun _ ↦ .bind (.symbol _) fun _ ↦ .pure rfl

/-- One body of a condition or a repetition more is open: now `run` is allowed. -/
theorem follows_controlBlock :
    Follows s room control (fun _ ↦ 1) (run .controlBlock) (l.block true) := by
  rw [run]
  intro r t ht _ hroom _
  exact .within rfl (fun j ↦ rfl) (h.block true _ t ht trivial hroom (by simp))

/-- No such body is open any more: now `run` is not allowed. -/
theorem follows_functionBlock :
    Follows s room control (fun _ ↦ 1) (run .functionBlock) (l.block false) := by
  rw [run]
  intro r t ht _ hroom _
  show Outcome s r _ (within (fun r ↦ { r with control := 0 })
    (fun r' ↦ { r' with control := r.control }) (run .block) s.tokens r) _
  exact .within rfl (fun j ↦ rfl) (h.block false { r with control := 0 } t ht trivial hroom rfl)

theorem follows_repeatStmt :
    Follows s room control (fun _ ↦ 1) (run .repeatStmt) l.repeatStmt := by
  rw [run]
  exact .bind (.keyword _) fun _ ↦ (h.expr _).bind fun _ ↦ (follows_controlBlock h).bind fun _ ↦
    .pure rfl

theorem follows_defineStmt :
    Follows s room control (fun _ ↦ 1) (run .defineStmt) l.defineStmt := by
  have hname : Follows s room control (fun _ ↦ 0) (run .name) Cursor.ident := by
    rw [run_name]
    exact FollowsOn.ident.weaken fun _ ↦ Nat.zero_le _
  rw [run]
  exact .bind (.keyword _) fun _ ↦ .bind .ident fun _ ↦ .bind (.symbol _) fun _ ↦
    (follows_items hname _ _).bind fun _ ↦ .bind (.symbol _) fun _ ↦
      (follows_functionBlock h).bind fun _ ↦ .pure rfl

/-- A throw takes its keyword first. -/
theorem follows_throwBallStmt :
    Follows s room control (fun _ ↦ 1) (run .throwBallStmt) l.throwBallStmt := by
  rw [run]
  exact .bind (.keyword _) fun _ ↦ .bind (.symbol _) fun _ ↦ (h.expr _).bind fun _ ↦
    .bind (.symbol _) fun _ ↦ (h.expr _).bind fun _ ↦ .bind (.symbol _) fun _ ↦
      .bind (.symbol _) fun _ ↦ .pure rfl

omit h in
/-- The token under the cursor is taken without a look at it. It may be the last one; but then no
semicolon follows. -/
theorem follows_runStmt :
    Follows s room control (fun _ ↦ 1) (run .runStmt) (Level.runStmt control) := by
  rw [run]
  intro r t ht _ hroom hcontrol
  show Outcome s r _ ((if r.control = 0 then step (Cursor.failHere .exitOutsideControl)
    else step Cursor.advance >>= fun t ↦ step (Cursor.symbol .semicolon) >>= fun _ ↦
      pure (Stmt.run t.span)) s.tokens r) _
  cases control with
  | false =>
    rw [if_pos (Nat.eq_zero_of_not_pos (of_decide_eq_false hcontrol))]
    exact FollowsOn.failHere (P := fun _ ↦ True) _ r t ht trivial hroom hcontrol
  | true =>
    rw [if_neg (Nat.ne_of_gt (of_decide_eq_true hcontrol))]
    exact FollowsOn.bind (P := fun _ ↦ True) .advance (fun _ ↦ .bind (.symbol _) fun _ ↦ .pure rfl)
      r t ht trivial hroom hcontrol

/-- An expression as a statement takes what the expression takes. -/
theorem follows_exprStmt : Follows s room control (fun _ ↦ 1) (run .exprStmt) l.exprStmt := by
  rw [run]
  refine .bind .peek fun first ↦ (h.expr _).bind fun value ↦ ?_
  cases Grammar.bareName? first value with
  | none => exact .bind (.symbol _) fun _ ↦ .pure rfl
  | some name => exact .fail _ first

/-- A guarded body takes its keyword. -/
theorem takes_arm {i : Nat} {t : Token} {r : Registers} (ht : s.tokens[i]? = some t)
    (hroom : maxNesting - r.nesting = room) :
    Cursor.Takes s i (fun _ ↦ 1) (l.arm s.tokens i) := by
  refine (Cursor.takes_keyword ht _).bind fun word j u hu ↦ ?_
  have hexpr := h.expr (decide (0 < r.control)) { r with index := j } u hu trivial hroom rfl
  refine hexpr.takes.bind fun condition k v hv ↦ ?_
  have hblock := follows_controlBlock h { r with index := k } v hv trivial hroom rfl
  exact hblock.takes.bind fun body m w hw ↦ .pure hw rfl

/-- Behind the body of a condition, where the next condition is known to be read as the cursor does
it. -/
theorem outcome_elses {first : Grammar.Arm} {r : Registers} {t : Token}
    (ht : s.tokens[r.index]? = some t) (hroom : maxNesting - r.nesting = room)
    (hnext : ∀ u, s.tokens[r.index + 1]? = some u →
      Outcome s { r with index := r.index + 1 } (fun _ ↦ 1)
        (run .ifStmt s.tokens { r with index := r.index + 1 }) (l.ifStmt s.tokens (r.index + 1))) :
    Outcome s r (fun _ ↦ 0) (elses run first s.tokens r) (l.elses first s.tokens r.index) := by
  cases helse : t.isWord .elseWord with
  | false =>
    have haccepts : (if t.isWord .elseWord then some t else none) = none := by
      rw [helse, if_neg Bool.false_ne_true]
    rw [elses, bind_of_ok (step_of_ok (Cursor.take?_of_eq_none ht haccepts)),
      Level.elses_of_not_isWord ht helse]
    exact .ok (Nat.le_refl _) (Stream.lt_size ht)
  | true =>
    have hend := Level.isEnd_of_isWord helse
    have haccepts : (if t.isWord .elseWord then some t else none) = some t := if_pos helse
    obtain ⟨u, hu⟩ := s.exists_token (s.succ_lt_size ht hend)
    rw [elses, bind_of_ok (step_of_ok (Cursor.take?_of_eq_some ht haccepts hend))]
    dsimp only
    rw [bind_of_ok (step_of_ok (Cursor.peek_of_getElem? hu))]
    have hblock := follows_controlBlock h { r with index := r.index + 1 } u hu trivial hroom rfl
    refine Outcome.behind (j := r.index + 1) (n := 1) ?_ (Nat.le_refl _)
    -- Behind `else` there is a further condition, which is one level of the recursion, or the last
    -- body.
    cases hif : u.isWord .ifWord with
    | true =>
      rw [Level.elses_of_if ht hu helse hif (takes_arm h hu hroom), if_pos rfl]
      exact (hnext u hu).bind fun inner j v _ hv ↦ .ok (Nat.le_refl _) (Stream.lt_size hv)
    | false =>
      rw [Level.elses_of_not_if ht hu helse hif hblock.takes, if_neg Bool.false_ne_true]
      exact hblock.bind fun body j v _ hv ↦ .ok (Nat.le_refl _) (Stream.lt_size hv)

/-- The recursion over `else` is the loop of the cursor. -/
theorem follows_ifStmt : Follows s room control (fun _ ↦ 1) (run .ifStmt) l.ifStmt := by
  intro r t ht _ hroom hcontrol
  induction hleft : s.tokens.size - r.index using Nat.strongRecOn generalizing r t with
  | ind n ih =>
    have harm : l.ifStmt = Cursor.keyword .ifWord >>= fun word ↦ l.expr >>= fun condition ↦
        l.block true >>= fun body ↦ l.elses ⟨condition, body, word.span⟩ := by
      rw [Level.ifStmt_eq, Level.arm]
      simp only [bind_assoc, pure_bind]
    rw [run, harm]
    refine .bind (FollowsOn.keyword (P := fun _ ↦ True) _ r t ht trivial hroom hcontrol)
      fun word j u hj hu ↦ ?_
    refine .bind (h.expr control { r with index := j } u hu trivial hroom hcontrol)
      fun condition k v hk hv ↦ ?_
    refine .bind (follows_controlBlock h { r with index := k } v hv trivial hroom hcontrol)
      fun body m w hm hw ↦ outcome_elses h hw hroom fun x hx ↦ ?_
    have hword : r.index + 1 ≤ j := hj
    have hcondition : j + 1 ≤ k := hk
    have hbody : k + 1 ≤ m := hm
    have hsize : m + 1 < s.tokens.size := Stream.lt_size hx
    exact ih (s.tokens.size - (m + 1)) (by omega) { r with index := m + 1 } x hx hroom hcontrol rfl

/-- The first token decides which statement it is. -/
theorem follows_stmt : Follows s room control (fun _ ↦ 1) (run .stmt) (l.stmt control) := by
  rw [run]
  refine .peek_bind fun t ↦ ?_
  cases t.kind with
  | keyword word =>
    cases word with
    | var => exact .of_follows (follows_varStmt h)
    | print => exact .of_follows (follows_printStmt h)
    | ifWord => exact .of_follows (follows_ifStmt h)
    | repeatWord => exact .of_follows (follows_repeatStmt h)
    | define => exact .of_follows (follows_defineStmt h)
    | throwBall => exact .of_follows (follows_throwBallStmt h)
    | run => exact .of_follows follows_runStmt
    | _ => exact .of_follows (follows_exprStmt h)
  | symbol mark =>
    cases mark with
    | leftBrace => exact .bind .peek fun _ ↦ (h.block control).bind fun _ ↦ .pure rfl
    | _ => exact .of_follows (follows_exprStmt h)
  | literal | ident | endOfInput => exact .of_follows (follows_exprStmt h)

/-- A block takes its braces. -/
theorem follows_braces : Follows s room control (fun _ ↦ 1) (run .braces) (l.braces control) := by
  rw [run]
  exact .bind (.symbol _) fun _ ↦ (follows_stmts (follows_stmt h) _ _).bind fun body ↦
    .bind (.symbol _) fun _ ↦ .pure rfl

/-! ### Levels -/

omit h in
/-- One level further in there is less room; the counter of levels is set back on the way out. -/
theorem follows_nested {p : Production α} {c : Cursor α} {least : α → Nat}
    (hp : Follows s room control least (run p) c) :
    Follows s (room + 1) control least (nested run p) c := by
  intro r t ht _ hroom hcontrol
  show Outcome s r least ((if maxNesting ≤ r.nesting then step (Cursor.failHere .nestingTooDeep)
    else within _ _ (run p)) s.tokens r) _
  rw [if_neg (by omega)]
  exact .within rfl (fun j ↦ rfl)
    (hp { r with nesting := r.nesting + 1 } t ht trivial (by dsimp only; omega) hcontrol)

omit h in
/-- Without room a level further in is refused. -/
theorem follows_nested_zero (p : Production α) {least : α → Nat} :
    Follows s 0 control least (nested run p) (Cursor.failHere .nestingTooDeep) := by
  intro r t ht _ hroom hcontrol
  show Outcome s r least ((if maxNesting ≤ r.nesting then step (Cursor.failHere .nestingTooDeep)
    else within _ _ (run p)) s.tokens r) _
  rw [if_pos (by omega)]
  exact FollowsOn.failHere (P := fun _ ↦ True) _ r t ht trivial hroom hcontrol

/-- If what lies further in comes to an end, so does this level. -/
theorem FollowsLevel.deeper : FollowsLevel s (room + 1) l.deeper where
  expr control := by
    rw [run]
    exact follows_nested (follows_assignment h)
  operand control := by
    rw [run]
    exact follows_nested (follows_unary h)
  block control := by
    rw [run]
    exact follows_nested (follows_braces h)

omit h in
/-- **With so much room the descent does what the cursor does.** -/
theorem followsLevel_withRoom (room : Nat) : FollowsLevel s room (Level.withRoom room) := by
  induction room with
  | zero =>
    refine ⟨fun control ↦ ?_, fun control ↦ ?_, fun control ↦ ?_⟩ <;> rw [run]
    · exact follows_nested_zero _
    · exact follows_nested_zero _
    · exact follows_nested_zero _
  | succ room ih => exact ih.deeper

/-- Every production follows that of the cursor and takes as many tokens as it has to. -/
theorem follows_production (p : Production α) :
    Follows s room control (fun _ ↦ p.least) (run p) (p.atCursor l control) := by
  induction p with
  | stmt => exact follows_stmt h
  | varStmt => exact follows_varStmt h
  | printStmt => exact follows_printStmt h
  | ifStmt => exact follows_ifStmt h
  | repeatStmt => exact follows_repeatStmt h
  | defineStmt => exact follows_defineStmt h
  | throwBallStmt => exact follows_throwBallStmt h
  | runStmt => exact follows_runStmt
  | exprStmt => exact follows_exprStmt h
  | block => exact h.block control
  | controlBlock => exact follows_controlBlock h
  | functionBlock => exact follows_functionBlock h
  | braces => exact follows_braces h
  | stmts ends found => exact follows_stmts (follows_stmt h) ends found
  | expr => exact h.expr control
  | assignment => exact follows_assignment h
  | operation level => exact follows_operation (follows_operandOf h level)
  | operators level left => exact follows_operators (follows_operandOf h level) left
  | operand => exact h.operand control
  | unary => exact follows_unary h
  | suffixed => exact follows_suffixed h
  | suffixes e => exact follows_suffixes h e
  | primary => exact follows_primary h
  | name =>
    rw [run_name]
    exact .ident
  | argument => exact follows_argument h
  | items close item found ih => exact follows_items (ih.weaken fun _ ↦ Nat.zero_le _) close found

/-- What a production may come to from the given registers: it has taken at least so many tokens, or
the tokens form no program. Either way it is still at a token, and the counters are as they were. -/
inductive Settled (tokens : Array Token) (r : Registers) (least : Nat) :
    Option (Except Halt α × Registers) → Prop
  | ok {a : α} {j : Nat} : r.index + least ≤ j → j < tokens.size →
    Settled tokens r least (some (.ok a, { r with index := j }))
  | failed {e : ParseError} {j : Nat} : r.index ≤ j → j < tokens.size →
    Settled tokens r least (some (.error (.failed e), { r with index := j }))

omit h in
/-- **Every production comes to an end**, from every index at which there is a token. -/
theorem settled_run (s : Stream) (p : Production α) {r : Registers} (hr : r.index < s.tokens.size) :
    Settled s.tokens r p.least (run p s.tokens r) := by
  obtain ⟨t, ht⟩ := s.exists_token hr
  have hfollows := follows_production (followsLevel_withRoom (maxNesting - r.nesting)) p r t ht
    trivial rfl rfl
  generalize run p s.tokens r = result at hfollows ⊢
  generalize p.atCursor _ _ s.tokens r.index = found at hfollows
  cases hfollows with
  | ok hj hsize => exact .ok hj hsize
  | failed hj hsize => exact .failed hj hsize

end Descent

/-! ### Programs -/

/-- Tokens with a mark of the end behind them end with one. -/
theorem terminated_ended (ts : List Token) :
    ((terminated ts).toArray.back?.any fun t ↦ t.kind.isEnd) = true := by
  rw [List.back?_toArray, terminated]
  split
  · next hended => exact hended
  · rw [List.getLast?_concat, Option.any_some, isEnd_endBehind]

/-- The tokens of a program, with a mark of the end behind them. -/
def Stream.ofTokens (ts : List Token) : Stream := ⟨(terminated ts).toArray, terminated_ended ts⟩

/-- The descent reads programs as the cursor does. -/
theorem byDescent_eq (ts : List Token) : Program.byDescent ts = some (Program.byCursor ts) := by
  obtain ⟨t, ht⟩ := (Stream.ofTokens ts).exists_token (Stream.ofTokens ts).size_pos
  have hfollows := Descent.follows_production (Descent.followsLevel_withRoom maxNesting)
    (.stmts (fun _ ↦ false) []) ⟨0, 0, 0⟩ t ht trivial rfl rfl
  change Descent.Outcome _ _ _ (Production.run _ (terminated ts).toArray _)
    (Cursor.Level.program (terminated ts).toArray 0) at hfollows
  rw [Program.byDescent, Program.byCursor]
  generalize Production.run _ _ _ = result at hfollows ⊢
  generalize Cursor.Level.program _ 0 = found at hfollows ⊢
  cases hfollows with
  | ok hj hsize => rfl
  | failed hj hsize => rfl

/-- **The descent makes progress and comes to an end.** From whatever registers at a token, every
production ends; if it succeeds it has taken a token, unless it is a list or a loop, which may be
empty; it never leaves the tokens, and both counters are as they were. So whatever the tokens are,
the descent comes to the program that they form, or to what is wrong with them. -/
theorem descent_progress :
    (∀ (s : Stream) {α : Type} (p : Production α) (r : Registers), r.index < s.tokens.size →
      Descent.Settled s.tokens r p.least (Production.run p s.tokens r)) ∧
    ∀ ts, Program.byDescent ts = some ((Program.ofTokens ts).mapError .failed) :=
  ⟨fun s _ p _ hr ↦ Descent.settled_run s p hr, fun ts ↦ by rw [byDescent_eq, byCursor_eq]⟩

/-- A block without statements, with two bodies open and room for one level more. -/
theorem descent_progress_block :
    let brace : Token := ⟨.symbol .leftBrace, r"{", .start⟩
    let closing : Token := ⟨.symbol .rightBrace, r"}", ⟨1, 2, 1⟩⟩
    let last : Token := ⟨.endOfInput, "", ⟨1, 3, 2⟩⟩
    let r : Registers := ⟨0, 2, 255⟩
    r.index < 3 ∧ Descent.Settled #[brace, closing, last] r 1
      (Production.run .block #[brace, closing, last] r) := by
  intro brace closing last r
  have hindex : r.index < 3 := by decide
  exact ⟨hindex, descent_progress.1 ⟨#[brace, closing, last], rfl⟩ .block r hindex⟩

end SafariScript
