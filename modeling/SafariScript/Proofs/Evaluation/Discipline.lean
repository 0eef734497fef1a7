import SafariScript.Machine.Eval
import SafariScript.Proofs.Evaluation.Bounds
import SafariScript.Proofs.Store.References

/-!
# Disciplines of evaluation

Evaluation goes through expressions, statements and bodies of functions, and an argument about all
of it has to do the same. Here that is done **once**, for a relation between the computations of
two evaluations of the same program (`Discipline`). If the relation holds between the single steps
of the two and passes through the ways in which steps are put together, calls apart
(`Discipline.Stepwise`), then it holds between the evaluations of any expression and of any
statements, provided that it does between calls. If it also passes through the running of a body
(`Discipline.Closed`), then it holds between any calls.

A property of one evaluation is the case of a relation that ignores its second side; a comparison
of two runs is the case of the evaluator beside itself. A discipline also speaks of what evaluation
handles on its way:

* of **values**: those at hand satisfy `holds`. That may depend on how far evaluation has come, for
  which a `World` stands; what holds in one world holds in all later ones (`Stepwise.mono`). The
  relation says which values a result carries.
* of the **program**: it keeps to `Bounds`, which say where errors may be raised, what may be done
  to objects and where the body of a function may be left. What statements do to the body they
  stand in is said for each of them (`Allowance`): which names they bind in its frame, and where
  they leave it.

Calls are the reason for the order of the statements. Expressions and statements are treated for
any two callers that are related (`Stepwise.evalExpr`, `Stepwise.execStmt`); only then the caller
that has `room` for so many calls is related to its counterpart, by induction on `room`
(`Closed.callWith`).
-/

namespace SafariScript

open EvalM ExecM

/-! ### Iterations -/

/-- One iteration of a repetition, and what follows it. -/
def ExecM.turn {α : Type} (body : ExecM α) (line i : Nat) (next : ExecM Unit) : ExecM Unit :=
  fun m ↦
    match body { m with iterations := m.iterations + 1 } with
    | .ok _ m => next m
    | .error (.exit _) m => .ok () (m.tell (.leftRepeat i line))
    | .error (.error e) m => .error (.error e) m

/-- A repetition is one iteration and what follows it. -/
theorem ExecM.iterate_succ {α : Type} (body : ExecM α) (line i n : Nat) :
    iterate body line i (n + 1) = turn body line i (iterate body line (i + 1) n) := rfl

/-- One iteration of a repetition: whether it was left. -/
def ExecM.attempt {α : Type} (body : ExecM α) (line i : Nat) : ExecM Bool := fun m ↦
  match body { m with iterations := m.iterations + 1 } with
  | .ok _ m => .ok false m
  | .error (.exit _) m => .ok true (m.tell (.leftRepeat i line))
  | .error (.error e) m => .error (.error e) m

/-- An iteration is attempted, and what follows depends on whether it was left. -/
theorem ExecM.turn_eq {α : Type} (body : ExecM α) (line i : Nat) (next : ExecM Unit) :
    turn body line i next = attempt body line i >>= fun left ↦ if left then pure () else next := by
  funext m
  show turn body line i next m = EStateM.bind (attempt body line i) _ m
  dsimp only [turn, attempt, EStateM.bind]
  rcases body { m with iterations := m.iterations + 1 } with ⟨a, m'⟩ | ⟨span | e, m'⟩ <;> rfl

/-! ### Disciplines -/

/-- A relation between the computations of two evaluations that also says which values a result
carries: they hold in the world that is reached. -/
structure Discipline extends Bounds where
  /-- How far evaluation has come. -/
  World : Type
  /-- A world is followed by another. -/
  le : World → World → Prop
  /-- What is known of the values at hand. -/
  holds : World → Value → Prop
  /-- Between evaluations of expressions. -/
  eval : ∀ {α : Type}, World → EvalM α → EvalM α → (α → List Value) → Prop
  /-- Between executions of statements. -/
  exec : ∀ {α : Type}, World → Allowance → ExecM α → ExecM α → (α → List Value) → Prop

namespace Discipline

/-- A result that carries no value. -/
def nothing {α : Type} : α → List Value := fun _ ↦ []

/-- The relation holds between every step of evaluation and itself, and passes through the ways in
which steps are put together, calls apart. -/
structure Stepwise (D : Discipline) (limits limits' : Limits) : Prop where
  -- worlds and values
  trans : ∀ {w₁ w₂ w₃}, D.le w₁ w₂ → D.le w₂ w₃ → D.le w₁ w₃
  mono : ∀ {w w' v}, D.le w w' → D.holds w v → D.holds w' v
  plain : ∀ {w} (value : Literal), D.holds w (.ofLiteral value)
  keeps : ∀ {w} {f : Function}, D.holds w (.function f) →
    Stmt.AllKeep D.toBounds D.body f.body
  -- putting evaluations together
  pure : ∀ {α : Type} {w} {c : α → List Value} {a : α}, (∀ v ∈ c a, D.holds w v) →
    D.eval w (Pure.pure a) (Pure.pure a) c
  bind : ∀ {α β : Type} {w} {x x' : EvalM α} {f f' : α → EvalM β} {c : α → List Value}
    {d : β → List Value}, D.eval w x x' c →
    (∀ w' a, D.le w w' → (∀ v ∈ c a, D.holds w' v) → D.eval w' (f a) (f' a) d) →
    D.eval w (x >>= f) (x' >>= f') d
  raise : ∀ {α : Type} {w} {c : α → List Value} {fault : Fault} {span : Span}, D.place span →
    fault ≠ .exitOutsideLoop → D.eval w (EvalM.raise fault span) (EvalM.raise fault span) c
  -- the steps of expressions
  newList : ∀ {w vs}, (∀ v ∈ vs, D.holds w v) →
    D.eval w (onStore (Store.newList vs)) (onStore (Store.newList vs)) fun v ↦ [v]
  readVar : ∀ {w name span}, D.place span →
    D.eval w (readVar name span) (readVar name span) fun v ↦ [v]
  writeVar : ∀ {w name v line}, D.holds w v →
    D.eval w (writeVar name v line) (writeVar name v line) nothing
  applyUnary : ∀ {w span} {op : UnaryOp} {v}, D.place span → D.holds w v →
    D.eval w (check span (op.apply v)) (check span (op.apply v)) fun v ↦ [v]
  applyBinary : ∀ {w op l r span}, D.place span → D.holds w l → D.holds w r →
    D.eval w (applyBinary op l r span) (applyBinary op l r span) fun v ↦ [v]
  getProperty : ∀ {w span o name}, D.place span → D.holds w (.object o) →
    D.eval w (inStore span (Store.getProperty o name)) (inStore span (Store.getProperty o name))
      fun v ↦ [v]
  setProperty : ∀ {w span o name v}, D.place span → D.act (.write name) →
    D.holds w (.object o) → D.holds w v →
    D.eval w (inStore span (Store.setProperty o name v)) (inStore span (Store.setProperty o name v))
      nothing
  callMethod : ∀ {w span o name vs} {ks : List (String × Value)}, D.place span →
    D.act (.call name) → D.holds w (.object o) → (∀ v ∈ vs, D.holds w v) →
    (∀ v ∈ ks.map Prod.snd, D.holds w v) →
    D.eval w (inStore span (Store.callMethod o name vs ks))
      (inStore span (Store.callMethod o name vs ks)) fun v ↦ [v]
  callNative : ∀ {w span n vs}, D.place span → (∀ v ∈ vs, D.holds w v) →
    D.eval w (inStore span (Store.callNative n vs)) (inStore span (Store.callNative n vs))
      fun v ↦ [v]
  -- the steps of statements
  tick : ∀ {w span}, D.place span → D.eval w (tick limits span) (tick limits' span) nothing
  printValue : ∀ {w v span}, D.place span → D.holds w v →
    D.eval w (printValue v span) (printValue v span) nothing
  throwBall : ∀ {w zone target span}, D.place span → D.act .throwBall →
    D.holds w (.object (.zone zone)) → D.holds w (.object (.pokemon target)) →
    D.eval w (throwBall zone target span) (throwBall zone target span) nothing
  bindVar : ∀ {w} {A : Allowance} {name v}, A.binds name → D.holds w v →
    D.exec w A (bindVar name v).toExec (bindVar name v).toExec nothing
  defineFunction : ∀ {w} {A : Allowance} {name params body}, A.binds name →
    Stmt.AllKeep D.toBounds D.body body →
    D.exec w A (defineFunction name params body).toExec (defineFunction name params body).toExec
      nothing
  -- putting executions together
  toExec : ∀ {α : Type} {w A} {x x' : EvalM α} {c : α → List Value}, D.eval w x x' c →
    D.exec w A x.toExec x'.toExec c
  execBind : ∀ {α β : Type} {w A} {x x' : ExecM α} {f f' : α → ExecM β} {c : α → List Value}
    {d : β → List Value}, D.exec w A x x' c →
    (∀ w' a, D.le w w' → (∀ v ∈ c a, D.holds w' v) → D.exec w' A (f a) (f' a) d) →
    D.exec w A (x >>= f) (x' >>= f') d
  exit : ∀ {α : Type} {w} {A : Allowance} {c : α → List Value} {span : Span}, D.place span →
    A.leaves span → D.exec w A (throw (.exit span)) (throw (.exit span)) c
  inNewFrame : ∀ {α : Type} {w} {A : Allowance} {x x' : ExecM α} {c : α → List Value},
    (∀ w', D.le w w' → D.exec w' A.inBlock x x' c) →
    D.exec w A (inNewFrame x) (inNewFrame x') c
  turn : ∀ {α : Type} {w} {A : Allowance} {x x' : ExecM α} {c : α → List Value} {y y' : ExecM Unit}
    {line i : Nat}, (∀ w', D.le w w' → D.exec w' A.inLoop x x' c) →
    (∀ w', D.le w w' → D.exec w' A y y' nothing) →
    D.exec w A (turn x line i y) (turn x' line i y') nothing

/-- The relation also passes through the running of the body of a function. -/
structure Closed (D : Discipline) (limits limits' : Limits) : Prop
    extends D.Stepwise limits limits' where
  enter : ∀ {α : Type} {w} {f : Function} {args : List Value} {x x' : ExecM α}
    {c : α → List Value}, D.holds w (.function f) → (∀ v ∈ args, D.holds w v) →
    (∀ w', D.le w w' → D.exec w' D.body x x' c) →
    D.eval w (parameterFrame f args >>= fun frame ↦ inCall f.name frame x)
      (parameterFrame f args >>= fun frame ↦ inCall f.name frame x') c

namespace Stepwise

variable {D : Discipline} {limits limits' : Limits} (h : D.Stepwise limits limits')
  {w w' : D.World}

include h

/-! ### Steps made of steps -/

/-- A result of a statement carries values that hold. -/
theorem execPure {α : Type} {A : Allowance} {c : α → List Value} {a : α}
    (ha : ∀ v ∈ c a, D.holds w v) : D.exec w A (Pure.pure a) (Pure.pure a) c :=
  h.toExec (h.pure ha)

/-- The value of a statement that has none. -/
theorem execNull {A : Allowance} :
    D.exec w A (Pure.pure Value.null) (Pure.pure Value.null) fun v ↦ [v] :=
  h.execPure fun _ hv ↦ List.mem_singleton.1 hv ▸ h.plain .null

/-- The object that is asked holds, because it is the value. -/
theorem receiver (v : Value) {span : Span} (hs : D.place span) (hv : D.holds w v) :
    D.eval w (receiver v span) (receiver v span) fun o ↦ [.object o] := by
  cases v with
  | object o => exact h.pure fun u hu ↦ List.mem_singleton.1 hu ▸ hv
  | _ => exact h.raise hs nofun

/-- A count is no value any more; what is no count is an error at its place. -/
theorem countOfValue (v : Value) {span : Span} (hs : D.place span) :
    D.eval w (countOfValue v span) (countOfValue v span) nothing := by
  cases v with
  | int n => exact h.pure nofun
  | _ => exact h.raise hs nofun

/-- The zone of a throw holds, because it is the value. -/
theorem thrownIn (v : Value) {span : Span} (hs : D.place span) (hv : D.holds w v) :
    D.eval w (thrownIn v span) (thrownIn v span) fun id ↦ [.object (.zone id)] := by
  unfold SafariScript.thrownIn
  split
  · exact h.pure fun u hu ↦ List.mem_singleton.1 hu ▸ hv
  · exact h.raise hs nofun

/-- The Pokémon of a throw holds, because it is the value. -/
theorem thrownAt (v : Value) {span : Span} (hs : D.place span) (hv : D.holds w v) :
    D.eval w (thrownAt v span) (thrownAt v span) fun id ↦ [.object (.pokemon id)] := by
  unfold SafariScript.thrownAt
  split
  · exact h.pure fun u hu ↦ List.mem_singleton.1 hu ▸ hv
  · exact h.raise hs nofun

/-- A wrong number of arguments is an error at the place of the call. -/
theorem checkArity (f : Function) (args : List Value) {span : Span} (hs : D.place span) :
    D.eval w (checkArity f args span) (checkArity f args span) nothing := by
  unfold SafariScript.checkArity
  split
  · exact h.pure nofun
  · exact h.raise hs nofun

/-- A repetition is related to its counterpart: the induction is on the number of iterations. -/
theorem iterate {α : Type} {A : Allowance} {x x' : ExecM α} {c : α → List Value}
    (hx : ∀ w', D.le w w' → D.exec w' A.inLoop x x' c)
    (line i n : Nat) : D.exec w A (iterate x line i n) (iterate x' line i n) nothing := by
  induction n generalizing w i with
  | zero => exact h.execPure nofun
  | succ n ih =>
    rw [iterate_succ, iterate_succ]
    exact h.turn hx fun w₁ h₁ ↦ ih (fun w₂ h₂ ↦ hx w₂ (h.trans h₁ h₂)) (i + 1)

/-! ### Expressions -/

/-- Two callers that are related at every call of a function that holds with arguments that
hold. -/
def Callers (D : Discipline) (call call' : Caller) : Prop :=
  ∀ (w : D.World) (f : Function) (args : List Value) (span : Span), D.place span →
    D.holds w (.function f) → (∀ v ∈ args, D.holds w v) →
    D.eval w (call f args span) (call' f args span) fun v ↦ [v]

variable {call call' : Caller}

/-- A call of a function goes to the callers; a native function is a step. -/
theorem callValue (hc : Callers D call call') {callee : Value} {args : List Value} {span : Span}
    (hs : D.place span) (hcallee : D.holds w callee) (hargs : ∀ v ∈ args, D.holds w v) :
    D.eval w (callValue call callee args span) (callValue call' callee args span)
      fun v ↦ [v] := by
  cases callee with
  | function f => exact hc w f args span hs hcallee hargs
  | native n => exact h.callNative hs hargs
  | _ => exact h.raise hs nofun

omit h in
/-- What is known of the one value of a result. -/
theorem one {v : Value} (hv : ∀ u ∈ [v], D.holds w u) : D.holds w v := hv v List.mem_cons_self

mutual

/-- Every expression that keeps to the bounds is related to itself, along its structure. -/
theorem evalExpr (hc : Callers D call call') (e : Expr) (he : e.Everywhere D.toBounds)
    (w : D.World) : D.eval w (evalExpr call e) (evalExpr call' e) fun v ↦ [v] := by
  match e with
  | .literal value span =>
    exact h.pure fun v hv ↦ List.mem_singleton.1 hv ▸ h.plain value
  | .list items span =>
    exact h.bind (evalExprs hc items he.1 w) fun _ vs _ hvs ↦ h.newList hvs
  | .ident name span => exact h.readVar he
  | .unary op operand span =>
    exact h.bind (evalExpr hc operand he.1 w) fun _ v _ hv ↦ h.applyUnary he.2 (one hv)
  | .binary op left right span =>
    exact h.bind (evalExpr hc left he.1 w) fun w₁ l _ hl ↦
      h.bind (evalExpr hc right he.2.1 w₁) fun _ r h₂ hr ↦
        h.applyBinary he.2.2 (h.mono h₂ (one hl)) (one hr)
  | .logical op left right span =>
    have hbool : ∀ {w : D.World} {b : Bool}, ∀ v ∈ [Value.bool b], D.holds w v :=
      fun v hv ↦ List.mem_singleton.1 hv ▸ h.plain (.bool _)
    refine h.bind (evalExpr hc left he.1 w) fun w₁ l _ _ ↦ ?_
    split
    · exact h.pure hbool
    · exact h.bind (evalExpr hc right he.2.1 w₁) fun _ r _ _ ↦ h.pure hbool
  -- The value comes before the target, so it has to hold until the object is known.
  | .assign target value span =>
    match target with
    | .ident name _ =>
      exact h.bind (evalExpr hc value he.2.1 w) fun _ v _ hv ↦
        h.bind (h.writeVar (one hv)) fun _ _ h₂ _ ↦ h.pure fun u hu ↦ h.mono h₂ (hv u hu)
    | .property object name here =>
      exact h.bind (evalExpr hc value he.2.1 w) fun w₁ v _ hv ↦
        h.bind (evalExpr hc object he.1.1 w₁) fun _ u h₂ hu ↦
          h.bind (h.receiver u he.1.2 (one hu)) fun _ o h₃ ho ↦
            have hv' := h.mono (h.trans h₂ h₃) (one hv)
            h.bind (h.setProperty he.1.2 (he.2.2.1 name rfl) (one ho) hv') fun _ _ h₄ _ ↦
              h.pure fun u hu ↦ List.mem_singleton.1 hu ▸ h.mono h₄ hv'
    | .literal .. | .list .. | .unary .. | .binary .. | .logical .. | .assign .. | .call ..
    | .method .. =>
      exact h.bind (evalExpr hc value he.2.1 w) fun _ _ _ _ ↦ h.raise he.2.2.2 nofun
  | .call callee args span =>
    exact h.bind (evalExpr hc callee he.1 w) fun w₁ f _ hf ↦
      h.bind (evalExprs hc args he.2.1 w₁) fun _ vs h₂ hvs ↦
        h.callValue hc he.2.2 (h.mono h₂ (one hf)) hvs
  | .property object name span =>
    exact h.bind (evalExpr hc object he.1 w) fun _ v _ hv ↦
      h.bind (h.receiver v he.2 (one hv)) fun _ o _ ho ↦ h.getProperty he.2 (one ho)
  -- Each value holds from where it was made, and is carried on to where the method is called.
  | .method object name args named span =>
    exact h.bind (evalExpr hc object he.1 w) fun _ v _ hv ↦
      h.bind (h.receiver v he.2.2.2.2 (one hv)) fun w₂ o _ ho ↦
        h.bind (evalExprs hc args he.2.1 w₂) fun w₃ vs h₃ hvs ↦
          h.bind (evalNamed hc named he.2.2.1 w₃) fun _ ks h₄ hks ↦
            h.callMethod he.2.2.2.2 he.2.2.2.1 (h.mono (h.trans h₃ h₄) (one ho))
              (fun u hu ↦ h.mono h₄ (hvs u hu)) hks

/-- Expressions from left to right; the values before hold in all later worlds. -/
theorem evalExprs (hc : Callers D call call') (es : List Expr)
    (hes : Expr.AllEverywhere D.toBounds es) (w : D.World) :
    D.eval w (evalExprs call es) (evalExprs call' es) id := by
  match es with
  | [] => exact h.pure nofun
  | e :: es =>
    exact h.bind (evalExpr hc e hes.1 w) fun w₁ v _ hv ↦
      h.bind (evalExprs hc es hes.2 w₁) fun _ vs h₂ hvs ↦
        h.pure (List.forall_mem_cons.2 ⟨h.mono h₂ (one hv), hvs⟩)

theorem evalNamed (hc : Callers D call call') (es : List (String × Expr))
    (hes : Expr.NamedEverywhere D.toBounds es) (w : D.World) :
    D.eval w (evalNamed call es) (evalNamed call' es) (List.map Prod.snd) := by
  match es with
  | [] => exact h.pure nofun
  | (key, e) :: es =>
    exact h.bind (evalExpr hc e hes.1 w) fun w₁ v _ hv ↦
      h.bind (evalNamed hc es hes.2 w₁) fun _ vs h₂ hvs ↦
        h.pure (List.forall_mem_cons.2 ⟨h.mono h₂ (one hv), hvs⟩)

end

/-! ### Statements -/

mutual

/-- Every statement that keeps to its allowance is related to itself, along its structure. -/
theorem execStmt (hc : Callers D call call') {A : Allowance} (stmt : Stmt)
    (hk : stmt.Keeps D.toBounds A) (w : D.World) :
    D.exec w A (execStmt limits call stmt) (execStmt limits' call' stmt) fun v ↦ [v] := by
  -- Every statement is counted before anything else is done.
  have htick : D.exec w A (SafariScript.tick limits stmt.span).toExec
      (SafariScript.tick limits' stmt.span).toExec nothing := h.toExec (h.tick hk.span)
  match stmt with
  | .expr value =>
    exact h.execBind htick fun w₁ _ _ _ ↦ h.toExec (h.evalExpr hc value hk w₁)
  | .var name none span =>
    exact h.execBind htick fun w₁ _ _ _ ↦
      h.execBind (h.bindVar hk.1 (h.plain .null)) fun _ _ _ _ ↦ h.execNull
  | .var name (some init) span =>
    exact h.execBind htick fun w₁ _ _ _ ↦
      h.execBind (h.toExec (h.evalExpr hc init hk.2.1 w₁)) fun _ v _ hv ↦
        h.execBind (h.bindVar hk.1 (one hv)) fun _ _ _ _ ↦ h.execNull
  | .print value span =>
    exact h.execBind htick fun w₁ _ _ _ ↦
      h.execBind (h.toExec (h.evalExpr hc value hk.1 w₁)) fun _ v _ hv ↦
        h.execBind (h.toExec (h.printValue hk.2 (one hv))) fun _ _ _ _ ↦ h.execNull
  | .cond condition body (some other) span =>
    refine h.execBind htick fun w₁ _ _ _ ↦
      h.execBind (h.toExec (h.evalExpr hc condition hk.1 w₁)) fun _ v _ _ ↦ ?_
    split
    · exact h.inNewFrame fun w₃ _ ↦ execStmts hc body hk.2.1 w₃ (h.plain .null)
    · exact h.inNewFrame fun w₃ _ ↦ execStmts hc other hk.2.2.1 w₃ (h.plain .null)
  | .cond condition body none span =>
    refine h.execBind htick fun w₁ _ _ _ ↦
      h.execBind (h.toExec (h.evalExpr hc condition hk.1 w₁)) fun _ v _ _ ↦ ?_
    split
    · exact h.inNewFrame fun w₃ _ ↦ execStmts hc body hk.2.1 w₃ (h.plain .null)
    · exact h.execNull
  | .block body span =>
    exact h.execBind htick fun _ _ _ _ ↦
      h.execBind (h.inNewFrame fun w₂ _ ↦ execStmts hc body hk.1 w₂ (h.plain .null))
        fun _ _ _ _ ↦ h.execNull
  -- How often the body runs is known before the first iteration.
  | .loop count body span =>
    exact h.execBind htick fun w₁ _ _ _ ↦
      h.execBind (h.toExec (h.evalExpr hc count hk.1 w₁)) fun _ v _ _ ↦
        h.execBind (h.toExec (h.countOfValue v hk.1.span)) fun _ n _ _ ↦
          h.execBind (h.iterate (fun _ _ ↦ h.inNewFrame fun w₅ _ ↦
            execStmts hc body hk.2.1 w₅ (h.plain .null)) span.line 0 n) fun _ _ _ _ ↦ h.execNull
  | .define name params body span =>
    exact h.execBind htick fun _ _ _ _ ↦
      h.execBind (h.defineFunction hk.1 hk.2.1) fun _ _ _ _ ↦ h.execNull
  | .throwBall zone target span =>
    exact h.execBind htick fun w₁ _ _ _ ↦
      h.execBind (h.toExec (h.evalExpr hc zone hk.1 w₁)) fun _ v _ hv ↦
        h.execBind (h.toExec (h.thrownIn v hk.2.2.2 (one hv))) fun w₃ z _ hz ↦
          h.execBind (h.toExec (h.evalExpr hc target hk.2.1 w₃)) fun _ u h₄ hu ↦
            h.execBind (h.toExec (h.thrownAt u hk.2.2.2 (one hu))) fun _ p h₅ hp ↦
              have hz' := h.mono (h.trans h₄ h₅) (one hz)
              h.execBind (h.toExec (h.throwBall hk.2.2.2 hk.2.2.1 hz' (one hp))) fun _ _ _ _ ↦
                h.execNull
  | .run span => exact h.execBind htick fun _ _ _ _ ↦ h.exit hk.2 hk.1

/-- Statements in order; the value of the last one holds. -/
theorem execStmts (hc : Callers D call call') {A : Allowance} {last : Value} (stmts : List Stmt)
    (hk : Stmt.AllKeep D.toBounds A stmts) (w : D.World) (hlast : D.holds w last) :
    D.exec w A (execStmts limits call last stmts) (execStmts limits' call' last stmts)
      fun v ↦ [v] := by
  match stmts with
  | [] => exact h.execPure fun v hv ↦ List.mem_singleton.1 hv ▸ hlast
  | s :: ss =>
    exact h.execBind (execStmt hc s hk.1 w) fun w₁ v _ hv ↦
      execStmts hc ss hk.2 w₁ (one hv)

end

end Stepwise

/-! ### Calls -/

/-- Two callers with room for equally many calls, under limits that forbid the same depth, are
related: a call runs the body of the function with the callers of the next smaller room. -/
theorem Closed.callWith {D : Discipline} {limits limits' : Limits} (h : D.Closed limits limits')
    (hd : limits.maxCallDepth = limits'.maxCallDepth) (room : Nat) :
    Stepwise.Callers D (callWith limits room) (callWith limits' room) := by
  induction room with
  | zero =>
    intro w f args span hs hf hargs
    rw [SafariScript.callWith, SafariScript.callWith, hd]
    exact h.bind (h.checkArity f args hs) fun _ _ _ _ ↦ h.raise hs nofun
  | succ room ih =>
    intro w f args span hs hf hargs
    refine h.bind (h.checkArity f args hs) fun w₁ _ h₁ _ ↦ ?_
    refine h.enter (h.mono h₁ hf) (fun v hv ↦ h.mono h₁ (hargs v hv)) fun w₂ _ ↦ ?_
    exact h.execStmts ih f.body (h.keeps hf) w₂ (h.plain .null)

end Discipline

end SafariScript
