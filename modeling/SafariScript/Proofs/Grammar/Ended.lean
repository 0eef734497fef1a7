import SafariScript.Proofs.Grammar.Agreement
import SafariScript.Proofs.Grammar.Expressions

/-!
# Nothing behind the first mark of the end

What a cursor on an array of tokens could do, and a parser of the tokens before the first mark of
the end could not, is this: take that mark, look at what stands behind it, leave the array, or go
round a loop without moving. **It does none of this** (`byCursor_eq`), whatever the tokens are: each
production agrees with that of the grammar, since no production accepts a mark of the end, and hence
each level does (`Level.agrees_withRoom`).

Therefore nothing behind the first mark of the end matters for what a program is
(`nothing_behind_end`).
-/

namespace SafariScript

/-- An argument that begins as a named one is read as such. -/
theorem Grammar.run_argument_of_beginsNamed {g : Grammar} {stop : Token} {ts : List Token}
    (h : Language.BeginsNamed ts) :
    g.argument.run stop ts = (Parser.ident >>= fun key ↦ Parser.symbol .equal >>= fun _ ↦
      g.expr >>= fun e ↦ pure (Argument.named key e)).run stop ts := by
  cases h with
  | key hkey hequal =>
    rw [run_argument_of_named hkey hequal, Parser.run_ident_bind _ hkey,
      Parser.run_symbol_bind _ hequal]

namespace Cursor

namespace Level

open Grammar (unaryOp? productOp? sumOp? comparisonOp? equalityOp? andOp? orOp?)

/-- What lies one level further in is read as the grammar reads it. -/
structure Agrees (l : Level) (g : Grammar) : Prop where
  expr : l.expr.Agrees g.expr
  operand : l.operand.Agrees g.operand
  block : ∀ control, (l.block control).Agrees (g.block control)

variable {l : Level} {g : Grammar}

/-! #### Expressions -/

/-- Operands with operators between them, none of which is a mark of the end. -/
theorem agrees_leftAssoc {operator? : Token → Option (Expr → Expr → Span → Expr)}
    (hends : ∀ t, t.kind.isEnd = true → operator? t = none) {c : Cursor Expr} {p : Parser Expr}
    (h : c.Agrees p) : (leftAssoc operator? c).Agrees (Grammar.leftAssoc operator? p) := by
  refine h.bind fun e ↦ .loop (fun left t ↦ ?_) (fun left t ht ↦ ?_) e
  · cases operator? t with
    | none => exact .none
    | some build => exact .some (h.bind fun right ↦ .pure _)
  · rw [hends t ht, Option.map_none]

variable (h : l.Agrees g)

include h

/-- The kind of the first token decides, and a mark of the end is an error in both. -/
theorem agrees_primary : l.primary.Agrees g.primary := by
  refine .peek_bind fun t ↦ ?_
  cases hkind : t.kind with
  | literal value => exact .bind (.advance _ (by rw [hkind]; rfl) rfl) fun _ ↦ .pure _
  | ident name => exact .bind (.advance _ (by rw [hkind]; rfl) rfl) fun _ ↦ .pure _
  | symbol mark =>
    cases mark with
    | leftParen =>
      exact .bind (.advance_symbol hkind) fun _ ↦ h.expr.bind fun e ↦ .bind (.symbol _) fun _ ↦
        .pure e
    | leftBracket =>
      exact .bind (.advance_symbol hkind) fun _ ↦ .bind (.items .rightBracket (by decide) h.expr)
        fun es ↦ .bind (.symbol _) fun _ ↦ .pure _
    | _ => exact .fail _ t
  | keyword | endOfInput => exact .fail _ t

omit h in
/-- The look at the token behind the cursor finds a key where the tokens before the mark of the end
begin with one. -/
theorem atKey_array (s : EndedTokens) {i : Nat} (hi : i ≤ s.front.length) :
    ∃ found, atKey s.array i = .ok (found, i) ∧
      (found = true ↔ Language.BeginsNamed (s.left i)) := by
  rw [atKey, bind_of_ok (peek_array s hi)]
  cases hkind : (s.next i).kind with
  | ident name =>
    have hlt := s.lt_of_isEnd_next hi (by rw [hkind]; rfl)
    refine ⟨_, nextIs_array s hlt .equal, ?_⟩
    rw [s.left_of_lt hlt, Token.isSymbol_iff]
    constructor
    · intro hequal
      rw [s.left_of_lt (s.lt_of_isEnd_next hlt (by rw [hequal]; rfl))]
      exact .key hkind hequal
    · intro hnamed
      generalize hleft : s.left (i + 1) = ts at hnamed
      cases hnamed with
      | key _ hequal => rw [← s.eq_next_of_mem_head? (by rw [hleft]; rfl), hequal]
  | _ =>
    refine ⟨false, rfl, iff_of_false Bool.false_ne_true fun hnamed ↦ ?_⟩
    generalize hleft : s.left i = ts at hnamed
    cases hnamed with
    | @key t u name ts hident hequal =>
      have heq : t = s.next i := s.eq_next_of_mem_head? (by rw [hleft]; rfl)
      rw [heq, hkind] at hident
      cases hident

/-- An argument, with a name before it or without. -/
theorem agrees_argument : l.argument.Agrees g.argument := by
  -- The parser looks at two tokens at once, the cursor at one after the other.
  intro s i hi _
  obtain ⟨found, hfound, hiff⟩ := atKey_array s hi
  rw [argument, bind_of_ok hfound]
  by_cases hkey : Language.BeginsNamed (s.left i)
  · rw [hiff.2 hkey, if_pos rfl, Grammar.run_argument_of_beginsNamed hkey]
    exact AgreesOn.bind (P := fun _ ↦ True) .ident
      (fun _ ↦ .bind (.symbol _) fun _ ↦ h.expr.bind fun _ ↦ .pure _) s i hi trivial
  · rw [if_neg (mt hiff.1 hkey), Grammar.run_argument_of_not_named hkey]
    exact h.expr.bind (fun _ ↦ .pure _) s i hi trivial

/-- A method with its arguments. -/
theorem agrees_methodCall (e : Expr) : (l.methodCall e).Agrees (g.methodCall e) := by
  refine .bind .peek fun t ↦ .bind .ident fun name ↦ .bind (.symbol? _) fun found ↦ ?_
  split
  · exact .bind (.items .rightParen (by decide) (agrees_argument h)) fun args ↦
      .bind (.symbol _) fun _ ↦ .pure _
  · exact .pure _

theorem agrees_callOf (e : Expr) : (l.callOf e).Agrees (g.callOf e) :=
  .bind (.items .rightParen (by decide) h.expr) fun args ↦ .bind (.symbol _) fun _ ↦ .pure _

/-- Suffixes as long as there are any. -/
theorem agrees_suffixed : l.suffixed.Agrees g.suffixed := by
  refine (agrees_primary h).bind fun e ↦ .loop (fun e t ↦ ?_) (fun e t ht ↦ ?_) e
  · rw [suffix?, Grammar.suffix?]
    cases t.kind with
    | symbol mark =>
      cases mark with
      | dot => exact .some (.bind .peek fun _ ↦ .bind .ident fun _ ↦ .pure _)
      | arrow => exact .some (agrees_methodCall h e)
      | leftParen => exact .some (agrees_callOf h e)
      | _ => exact .none
    | _ => exact .none
  · rw [Grammar.suffix?, Token.kind_of_isEnd ht]

/-- Unary operators, and what they apply to. -/
theorem agrees_unary : l.unary.Agrees g.unary := by
  refine .bind .peek fun t ↦ .bind (.take? fun t ht ↦ ?_) fun op ↦ ?_
  · rw [unaryOp?, Token.kind_of_isEnd ht]
  · cases op with
    | none => exact agrees_suffixed h
    | some op => exact h.operand.bind fun e ↦ .pure _

theorem agrees_disjunction : l.disjunction.Agrees g.disjunction :=
  agrees_leftAssoc (fun t ht ↦ by rw [orOp?, Token.kind_of_isEnd ht]) <|
    agrees_leftAssoc (fun t ht ↦ by rw [andOp?, Token.kind_of_isEnd ht]) <|
    agrees_leftAssoc (fun t ht ↦ by rw [equalityOp?, Token.kind_of_isEnd ht]) <|
    agrees_leftAssoc (fun t ht ↦ by rw [comparisonOp?, Token.kind_of_isEnd ht]) <|
    agrees_leftAssoc (fun t ht ↦ by rw [sumOp?, Token.kind_of_isEnd ht]) <|
    agrees_leftAssoc (fun t ht ↦ by rw [productOp?, Token.kind_of_isEnd ht]) (agrees_unary h)

/-- An assignment, or what would be its left side. -/
theorem agrees_assignment : l.assignment.Agrees g.assignment := by
  refine (agrees_disjunction h).bind fun target ↦ .bind (.take? fun t ht ↦ ?_) fun found ↦ ?_
  · rw [Token.isSymbol_of_isEnd ht, if_neg Bool.false_ne_true]
  · cases found with
    | none => exact .pure target
    | some t =>
      refine h.expr.bind fun value ↦ ?_
      split
      · exact .pure _
      · exact .fail _ t

/-! #### Statements -/

/-- A declaration with or without a value. -/
theorem agrees_varStmt : l.varStmt.Agrees g.varStmt := by
  refine .bind (.keyword _) fun t ↦ .bind .ident fun name ↦ .bind (.symbol? _) fun found ↦ ?_
  split
  · exact .bind (.map h.expr) fun _ ↦ .bind (.symbol _) fun _ ↦ .pure _
  · exact .bind (.pure none) fun _ ↦ .bind (.symbol _) fun _ ↦ .pure _

theorem agrees_printStmt : l.printStmt.Agrees g.printStmt :=
  .bind (.keyword _) fun _ ↦ h.expr.bind fun _ ↦ .bind (.symbol _) fun _ ↦ .pure _

theorem agrees_arm : l.arm.Agrees g.arm :=
  .bind (.keyword _) fun _ ↦ h.expr.bind fun _ ↦ (h.block true).bind fun _ ↦ .pure _

/-- A condition with its branches. -/
theorem agrees_ifStmt : l.ifStmt.Agrees g.ifStmt := by
  refine (agrees_arm h).bind fun first ↦ .bind (.loop (fun tail t ↦ ?_) (fun tail t ht ↦ ?_) _)
    fun tail ↦ .pure _
  · rw [else?, Grammar.else?]
    cases tail.otherwise with
    | some body => exact .none
    | none =>
      cases t.isWord .elseWord with
      | false => exact .none
      | true =>
        refine .some (.bind .peek fun next ↦ ?_)
        split
        · exact (agrees_arm h).bind fun _ ↦ .pure _
        · exact (h.block true).bind fun _ ↦ .pure _
  · rw [Grammar.else?, Token.isWord_of_isEnd ht]
    cases tail.otherwise with
    | none => rfl
    | some body => rfl

theorem agrees_repeatStmt : l.repeatStmt.Agrees g.repeatStmt :=
  .bind (.keyword _) fun _ ↦ h.expr.bind fun _ ↦ (h.block true).bind fun _ ↦ .pure _

theorem agrees_defineStmt : l.defineStmt.Agrees g.defineStmt :=
  .bind (.keyword _) fun _ ↦ .bind .ident fun _ ↦ .bind (.symbol _) fun _ ↦
    .bind (.items .rightParen (by decide) .ident) fun _ ↦ .bind (.symbol _) fun _ ↦
      (h.block false).bind fun _ ↦ .pure _

theorem agrees_throwBallStmt : l.throwBallStmt.Agrees g.throwBallStmt :=
  .bind (.keyword _) fun _ ↦ .bind (.symbol _) fun _ ↦ h.expr.bind fun _ ↦ .bind (.symbol _)
    fun _ ↦ h.expr.bind fun _ ↦ .bind (.symbol _) fun _ ↦ .bind (.symbol _) fun _ ↦ .pure _

omit h in
/-- The statement that leaves, where its keyword is known to stand. -/
theorem agreesOn_runStmt {t : Token} (ht : t.kind = .keyword .run) (control : Bool) :
    AgreesOn (fun u ↦ u = t) (runStmt control) (Grammar.runStmt control) := by
  cases control with
  | true => exact .bind (.advance_keyword ht) fun t ↦ .bind (.symbol _) fun _ ↦ .pure _
  | false => exact .failHere _

/-- An expression as a statement. -/
theorem agrees_exprStmt : l.exprStmt.Agrees g.exprStmt := by
  refine .bind .peek fun first ↦ h.expr.bind fun value ↦ ?_
  cases Grammar.bareName? first value with
  | none => exact .bind (.symbol _) fun _ ↦ .pure _
  | some name => exact .fail _ first

theorem agrees_blockStmt (control : Bool) : (l.blockStmt control).Agrees (g.blockStmt control) :=
  .bind .peek fun _ ↦ (h.block control).bind fun _ ↦ .pure _

/-- The first token decides which statement it is. -/
theorem agrees_stmt (control : Bool) : (l.stmt control).Agrees (g.stmt control) := by
  refine .peek_bind fun t ↦ ?_
  cases hkind : t.kind with
  | keyword word =>
    cases word with
    | var => exact .of_agrees (agrees_varStmt h)
    | print => exact .of_agrees (agrees_printStmt h)
    | ifWord => exact .of_agrees (agrees_ifStmt h)
    | repeatWord => exact .of_agrees (agrees_repeatStmt h)
    | define => exact .of_agrees (agrees_defineStmt h)
    | throwBall => exact .of_agrees (agrees_throwBallStmt h)
    | run => exact agreesOn_runStmt hkind control
    | _ => exact .of_agrees (agrees_exprStmt h)
  | symbol mark =>
    cases mark with
    | leftBrace => exact .of_agrees (agrees_blockStmt h control)
    | _ => exact .of_agrees (agrees_exprStmt h)
  | literal | ident | endOfInput => exact .of_agrees (agrees_exprStmt h)

/-! #### Levels -/

/-- If what lies further in is read as the grammar reads it, so is this level. -/
theorem Agrees.deeper : l.deeper.Agrees g.deeper where
  expr := agrees_assignment h
  operand := agrees_unary h
  block control := .bind (.symbol _) fun _ ↦ .bind (.many (agrees_stmt h control) _) fun body ↦
    .bind (.symbol _) fun _ ↦ .pure body

omit h in
/-- **With the same room the cursor reads what the grammar reads.** -/
theorem agrees_withRoom (room : Nat) : (withRoom room).Agrees (Grammar.withRoom room) := by
  induction room with
  | zero => exact ⟨.failHere _, .failHere _, fun _ ↦ .failHere _⟩
  | succ room ih => exact ih.deeper

omit h in
/-- Statements up to the mark of the end. -/
theorem agrees_program : program.Agrees Grammar.program :=
  .many (agrees_stmt (agrees_withRoom maxNesting) false) _

end Level

end Cursor

/-! ### Programs -/

/-- Tokens with a mark of the end have a first one. -/
theorem exists_first_end {ts : List Token} {t : Token} (ht : t ∈ ts) (hend : t.kind.isEnd = true) :
    ∃ front stop behind, ts = front ++ stop :: behind ∧ stop.kind.isEnd = true ∧
      ∀ u ∈ front, u.kind.isEnd = false := by
  cases hfind : ts.find? fun t ↦ t.kind.isEnd with
  | none => exact absurd hend (List.find?_eq_none.1 hfind t ht)
  | some stop =>
    obtain ⟨hstop, front, behind, hts, hfront⟩ := List.find?_eq_some_iff_append.1 hfind
    exact ⟨front, stop, behind, hts, hstop, fun u hu ↦ by simpa using hfront u hu⟩

namespace EndedTokens

variable (s : EndedTokens)

/-- The tokens before the first mark are those in front. -/
theorem takeWhile_list : (s.list.takeWhile fun t ↦ !t.kind.isEnd) = s.front := by
  rw [list, List.takeWhile_append_of_pos, List.takeWhile_cons_of_neg, List.append_nil]
  · simp [s.isEnd_stop]
  · intro t ht
    simp [s.isEnd_front t ht]

/-- The first mark is the end of the tokens. -/
theorem endOfTokens_list : endOfTokens s.list = s.stop := by
  have hfind : (s.list.find? fun t ↦ t.kind.isEnd) = some s.stop :=
    List.find?_eq_some_iff_append.2 ⟨s.isEnd_stop, s.front, s.behind, rfl, fun t ht ↦ by
      simp [s.isEnd_front t ht]⟩
  rw [endOfTokens, hfind]

end EndedTokens

section Unended

variable {ts : List Token} (h : ∀ t ∈ ts, t.kind.isEnd = false)

include h

/-- Without a mark all tokens are in front. -/
theorem takeWhile_of_forall : (ts.takeWhile fun t ↦ !t.kind.isEnd) = ts := by
  have happend : ((ts ++ []).takeWhile fun t ↦ !t.kind.isEnd) = ts ++ [].takeWhile _ :=
    List.takeWhile_append_of_pos fun t ht ↦ by simp [h t ht]
  rwa [List.takeWhile_nil, List.append_nil] at happend

/-- Without a mark there is one behind the last token. -/
theorem endOfTokens_of_forall : endOfTokens ts = endBehind ts.getLast? := by
  have hfind : (ts.find? fun t ↦ t.kind.isEnd) = none :=
    List.find?_eq_none.2 fun t ht ↦ Bool.eq_false_iff.1 (h t ht)
  rw [endOfTokens, hfind]
  cases ts.getLast? with
  | none => rfl
  | some t => rfl

/-- Without a mark one is added. -/
theorem terminated_of_forall : terminated ts = ts ++ [endBehind ts.getLast?] := by
  refine if_neg (Bool.eq_false_iff.1 ((Option.any_eq_false _ _).2 fun t ht ↦ ?_))
  exact h t (List.mem_of_getLast? ht)

end Unended

/-- What is added is a mark of the end. -/
theorem isEnd_endBehind (last : Option Token) : (endBehind last).kind.isEnd = true := by
  cases last with
  | none => rfl
  | some t => rfl

theorem exists_terminated (ts : List Token) : ∃ extra, terminated ts = ts ++ extra := by
  unfold terminated
  split
  · exact ⟨[], (List.append_nil ts).symm⟩
  · exact ⟨_, rfl⟩

/-- The tokens that a program is read from, by their first mark of the end. -/
theorem exists_endedTokens (ts : List Token) : ∃ s : EndedTokens,
    s.list = terminated ts ∧ s.front = (ts.takeWhile fun t ↦ !t.kind.isEnd) ∧
      s.stop = endOfTokens ts := by
  by_cases h : ∃ t ∈ ts, t.kind.isEnd = true
  · obtain ⟨t, ht, hend⟩ := h
    obtain ⟨front, stop, behind, rfl, hstop, hfront⟩ := exists_first_end ht hend
    obtain ⟨extra, hextra⟩ := exists_terminated (front ++ stop :: behind)
    refine ⟨⟨front, stop, behind ++ extra, hstop, hfront⟩, ?_,
      (EndedTokens.takeWhile_list ⟨front, stop, behind, hstop, hfront⟩).symm,
      (EndedTokens.endOfTokens_list ⟨front, stop, behind, hstop, hfront⟩).symm⟩
    rw [hextra, List.append_assoc, List.cons_append]
    rfl
  · have hnone : ∀ t ∈ ts, t.kind.isEnd = false := fun t ht ↦
      Bool.eq_false_iff.2 fun hend ↦ h ⟨t, ht, hend⟩
    exact ⟨⟨ts, endBehind ts.getLast?, [], isEnd_endBehind _, hnone⟩,
      (terminated_of_forall hnone).symm, (takeWhile_of_forall hnone).symm,
      (endOfTokens_of_forall hnone).symm⟩

/-- **Both readers come to the same.** In particular the cursor is neither led outside of the tokens
nor stuck. -/
theorem byCursor_eq (ts : List Token) :
    Program.byCursor ts = (Program.ofTokens ts).mapError .failed := by
  obtain ⟨s, hlist, hfront, hstop⟩ := exists_endedTokens ts
  have h := Cursor.Level.agrees_program s 0 (Nat.zero_le _) trivial
  rw [EndedTokens.array, hlist, hstop, EndedTokens.left, List.drop_zero, hfront] at h
  rw [Program.byCursor, Program.ofTokens]
  generalize Grammar.program.run _ _ = given at h ⊢
  generalize Cursor.Level.program _ 0 = found at h ⊢
  cases h with
  | failed e => rfl
  | ok program => rfl

/-- Both readers read the tokens alike. -/
structure ReadAlike (ts ts' : List Token) : Prop where
  ofTokens : Program.ofTokens ts = Program.ofTokens ts'
  byCursor : Program.byCursor ts = Program.byCursor ts'

/-- Tokens are read alike if they agree up to the mark of the end. -/
theorem ReadAlike.of_front {ts ts' : List Token}
    (hfront : (ts.takeWhile fun t ↦ !t.kind.isEnd) = ts'.takeWhile fun t ↦ !t.kind.isEnd)
    (hstop : endOfTokens ts = endOfTokens ts') : ReadAlike ts ts' := by
  have h : Program.ofTokens ts = Program.ofTokens ts' := by
    rw [Program.ofTokens, hfront, hstop, Program.ofTokens]
  exact ⟨h, by rw [byCursor_eq, h, byCursor_eq]⟩

/-- What stands behind the first mark makes no difference. -/
theorem readAlike_behind {front : List Token} {stop : Token} (hstop : stop.kind.isEnd = true)
    (behind behind' : List Token) :
    ReadAlike (front ++ stop :: behind) (front ++ stop :: behind') := by
  have hmem : stop ∈ front ++ [stop] := List.mem_append_right front (List.mem_singleton_self stop)
  -- The first mark of the end may stand in `front` already.
  obtain ⟨front', stop', more, hsplit, hstop', hfront'⟩ := exists_first_end hmem hstop
  have hlist : ∀ rest, front ++ stop :: rest =
      EndedTokens.list ⟨front', stop', more ++ rest, hstop', hfront'⟩ := by
    intro rest
    calc front ++ stop :: rest = front ++ [stop] ++ rest := List.append_cons front stop rest
      _ = front' ++ stop' :: more ++ rest := by rw [hsplit]
      _ = front' ++ stop' :: (more ++ rest) := by rw [List.append_assoc, List.cons_append]
  rw [hlist, hlist]
  refine .of_front ?_ ?_
  · rw [EndedTokens.takeWhile_list, EndedTokens.takeWhile_list]
  · rw [EndedTokens.endOfTokens_list, EndedTokens.endOfTokens_list]

/-- To add the mark makes no difference. -/
theorem readAlike_endBehind {ts : List Token} (h : ∀ t ∈ ts, t.kind.isEnd = false) :
    ReadAlike ts (ts ++ [endBehind ts.getLast?]) := by
  have hend := isEnd_endBehind ts.getLast?
  refine .of_front ?_ ?_
  · exact (takeWhile_of_forall h).trans (EndedTokens.takeWhile_list ⟨ts, _, [], hend, h⟩).symm
  · exact (endOfTokens_of_forall h).trans (EndedTokens.endOfTokens_list ⟨ts, _, [], hend, h⟩).symm

/-- **Nothing behind the first mark of the end matters.** A cursor on all the tokens, whatever they
are, reads the program or fails as a parser of the tokens before the first mark of the end does.
Tokens that agree up to and including a mark of the end are read alike, and tokens without one are
read as if an empty one stood right behind the last. -/
theorem nothing_behind_end :
    (∀ ts, Program.byCursor ts = (Program.ofTokens ts).mapError .failed) ∧
    (∀ (front : List Token) (stop : Token) (behind behind' : List Token), stop.kind.isEnd = true →
      ReadAlike (front ++ stop :: behind) (front ++ stop :: behind')) ∧
    ∀ ts : List Token, (∀ t ∈ ts, t.kind.isEnd = false) →
      ReadAlike ts (ts ++ [endBehind ts.getLast?]) :=
  ⟨byCursor_eq, fun _ _ behind behind' hstop ↦ readAlike_behind hstop behind behind',
    fun _ ↦ readAlike_endBehind⟩

end SafariScript
