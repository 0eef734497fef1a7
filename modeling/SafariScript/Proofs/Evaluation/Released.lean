import SafariScript.Proofs.Evaluation.Beside

/-!
# Evaluation does not notice that frames are given back

Evaluation that gives frames back (`Hosted.evaluate`) and evaluation that keeps all frames
(`evaluate`) come to the same. Whatever frames are gone, **any number of programs, one after the
other, end in the same errors, write the same and leave the same global variables**
(`Host.observations_eq`).

Each expression and each statement accompanies its counterpart (`Accompanies.evalExpr`,
`Accompanies.execStmt`): the rules for computations beside a host are put together as evaluation is.
What a single step does, every discipline of evaluation says of it.
-/

namespace SafariScript

open EvalM

/-! ### Expressions -/

namespace Accompanies

open Discipline (nothing)

/-- Two callers that have the same outcome at every call, with the function and the arguments at
hand. -/
def Callers (call : Hosted.Caller) (call' : Caller) : Prop :=
  ∀ f args span,
    Accompanies (.function f :: args) (fun v ↦ [v]) (call f args span) (call' f args span)

section Expressions

variable {call : Hosted.Caller} {call' : Caller}

/-- The object that is asked comes out of the value at hand. -/
theorem receiver (v : Value) (span : Span) : Accompanies [v] (fun o ↦ [.object o])
    (Hosted.onMachine (receiver v span)) (SafariScript.receiver v span) :=
  step _ _ (fun _ hD h _ hvs ↦ h.receiver v (hD.place span) (hvs v List.mem_cons_self)) fun _ ↦
    List.subset_append_right _ _

/-- A function stays held during its call, though all that is needed afterwards is its value. -/
theorem callValue (hc : Callers call call') (callee : Value) (args : List Value) (span : Span) :
    Accompanies (callee :: args) (fun v ↦ [v]) (Hosted.callValue call callee args span)
      (callValue call' callee args span) := by
  cases callee with
  | function f =>
    refine (holding [.function f] (hc f args span)).mono ?_ fun v ↦ List.subset_append_right _ _
    exact List.cons_subset.2 ⟨List.mem_cons_self, List.Subset.refl _⟩
  | native n =>
    exact value fun _ hD h _ hvs ↦
      h.callNative (hD.place span) fun v hv ↦ hvs v (List.mem_cons_of_mem _ hv)
  | _ => exact raise _ span

mutual

/-- An expression, along its structure. What is evaluated first is held while the rest is. -/
theorem evalExpr (hc : Callers call call') (e : Expr) :
    Accompanies [] (fun v ↦ [v]) (Hosted.evalExpr call e) (evalExpr call' e) := by
  match e with
  | .literal value span =>
    exact literal value
  | .list items span =>
    refine (evalExprs hc items).bind fun vs ↦ ?_
    exact value fun D _ h w hvs ↦ h.newList hvs
  | .ident name span =>
    exact value fun D hD h w _ ↦ h.readVar (hD.place span)
  | .unary op operand span =>
    refine (evalExpr hc operand).bind fun v ↦ ?_
    exact value fun D hD h w hvs ↦ h.applyUnary (hD.place span) (hvs v List.mem_cons_self)
  -- While the right side is evaluated the host has to hold the left value.
  | .binary op left right span =>
    refine (evalExpr hc left).bind fun l ↦ (holding [l] (evalExpr hc right)).bind fun r ↦ ?_
    exact value fun D hD h w hvs ↦
      h.applyBinary (hD.place span) (hvs l (by simp)) (hvs r (by simp))
  | .logical op left right span =>
    refine (evalExpr hc left).bind fun l ↦ ?_
    split
    · exact literal (.bool _)
    · have hright := (evalExpr hc right).mono (List.nil_subset [l]) fun _ ↦ List.Subset.refl _
      exact hright.bind fun r ↦ literal (.bool _)
  | .assign target value span =>
    match target with
    | .ident name _ =>
      refine (evalExpr hc value).bind fun v ↦ ?_
      refine (step nothing (fun _ ↦ [v]) (fun D hD h w hvs ↦
        h.writeVar (hvs v List.mem_cons_self)) (by simp)).bind fun _ ↦ ?_
      exact .pure (List.Subset.refl _)
    | .property object name here =>
      refine (evalExpr hc value).bind fun v ↦ (holding [v] (evalExpr hc object)).bind fun u ↦ ?_
      refine (step (fun o ↦ [.object o]) (fun o ↦ [v, .object o]) (fun D hD h w hvs ↦
        h.receiver u (hD.place here) (hvs u (by simp))) (by simp)).bind fun o ↦ ?_
      refine (step nothing (fun _ ↦ [v]) (fun D hD h w hvs ↦
        h.setProperty (hD.place here) (hD.act _) (hvs _ (by simp)) (hvs v (by simp)))
        (by simp)).bind fun _ ↦ ?_
      exact .pure (List.Subset.refl _)
    | .literal .. | .list .. | .unary .. | .binary .. | .logical .. | .assign .. | .call ..
    | .method .. =>
      exact (evalExpr hc value).bind fun _ ↦ raise _ span
  | .call callee args span =>
    refine (evalExpr hc callee).bind fun f ↦ (holding [f] (evalExprs hc args)).bind fun vs ↦ ?_
    exact callValue hc f vs span
  | .property object name span =>
    refine (evalExpr hc object).bind fun u ↦ ?_
    refine (receiver u span).bind fun o ↦ ?_
    exact value fun D hD h w hvs ↦ h.getProperty (hD.place span) (hvs _ List.mem_cons_self)
  -- What a method is called with is held while the rest of it is evaluated.
  | .method object name args named span =>
    refine (evalExpr hc object).bind fun u ↦ ?_
    refine (receiver u span).bind fun o ↦ ?_
    refine (holding [.object o] (evalExprs hc args)).bind fun vs ↦ ?_
    refine ((holding (.object o :: vs) (evalNamed hc named)).mono (by simp) fun _ ↦
      List.Subset.refl _).bind fun ks ↦ ?_
    exact value fun D hD h w hvs ↦
      h.callMethod (hD.place span) (hD.act _) (hvs _ List.mem_cons_self)
        (fun v hv ↦ hvs v (by simp [hv])) fun v hv ↦ hvs v (List.mem_append_right _ hv)

theorem evalExprs (hc : Callers call call') (es : List Expr) :
    Accompanies [] id (Hosted.evalExprs call es) (evalExprs call' es) := by
  match es with
  | [] => exact .pure (List.Subset.refl _)
  | e :: es =>
    exact (evalExpr hc e).bind fun v ↦ (holding [v] (evalExprs hc es)).bind fun vs ↦
      .pure (List.Subset.refl _)

theorem evalNamed (hc : Callers call call') (es : List (String × Expr)) :
    Accompanies [] (List.map Prod.snd) (Hosted.evalNamed call es) (evalNamed call' es) := by
  match es with
  | [] => exact .pure (List.Subset.refl _)
  | (key, e) :: es =>
    exact (evalExpr hc e).bind fun v ↦ (holding [v] (evalNamed hc es)).bind fun vs ↦
      .pure (List.Subset.refl _)

end

end Expressions

/-! ### Statements -/

/-- A statement is counted. -/
theorem tick (limits : Limits) (span : Span) :
    Accompanies [] nothing (Hosted.onMachine (tick limits span).toExec)
      (SafariScript.tick limits span).toExec := by
  have hstep : SafeStep [] nothing (SafariScript.tick limits span) :=
    ⟨fun _ _ ↦ .tick limits span, fun _ _ ↦ .tick limits span, .tick limits span⟩
  exact onMachine hstep.toExec

/-- A step of evaluation as part of a statement. -/
theorem execStep {α : Type} {vs : List Value} (c us : α → List Value) {x : EvalM α}
    (hx : ∀ D : Discipline, D.Free → D.Stepwise {} {} → ∀ w, (∀ v ∈ vs, D.holds w v) →
      D.eval w x x c) (hus : ∀ a, us a ⊆ vs ++ c a) :
    Accompanies vs us (Hosted.onMachine x.toExec) x.toExec :=
  (onMachine (SafeStep.of_discipline hx).toExec).mono (List.Subset.refl _) hus

/-- A value at hand is bound in the current frame. -/
theorem bindVar (name : String) (v : Value) :
    Accompanies [v] nothing (Hosted.onMachine (bindVar name v).toExec)
      (SafariScript.bindVar name v).toExec := by
  have hstep : SafeStep [v] nothing (SafariScript.bindVar name v) :=
    ⟨fun _ hv ↦ .bindVar name (hv v List.mem_cons_self),
      fun _ hv ↦ .bindVar (hv v List.mem_cons_self), .modify fun _ ↦ rfl⟩
  exact (onMachine hstep.toExec).mono (List.Subset.refl _) fun _ ↦ List.nil_subset _

theorem defineFunction (name : String) (params : List String) (body : List Stmt) :
    Accompanies [] nothing (Hosted.onMachine (defineFunction name params body).toExec)
      (SafariScript.defineFunction name params body).toExec := by
  have hstep : SafeStep [] nothing (SafariScript.defineFunction name params body) :=
    ⟨fun _ _ ↦ .defineFunction name params body, fun _ _ ↦ .defineFunction name params body,
      (closed_registerLockstep {}).defineFunction name params body⟩
  exact (onMachine hstep.toExec).mono (List.Subset.refl _) fun _ ↦ List.nil_subset _

section Statements

variable (C : Collector) {limits : Limits} {call : Hosted.Caller} {call' : Caller}

mutual

/-- A statement, along its structure. Blocks are the places where frames are given back. -/
theorem execStmt (hc : Callers call call') (stmt : Stmt) :
    Accompanies [] (fun v ↦ [v]) (Hosted.execStmt C limits call stmt)
      (execStmt limits call' stmt) := by
  have htick := tick limits stmt.span
  have hnull : ∀ vs : List Value, Accompanies vs (fun v ↦ [v])
      (Pure.pure Value.null : HostedM Signal Value) (Pure.pure Value.null) := fun _ ↦ literal .null
  match stmt with
  | .expr value => exact htick.bind fun _ ↦ (evalExpr hc value).toExec
  | .var name none span =>
    exact htick.bind fun _ ↦ (of_literal .null (bindVar name .null)).bind fun _ ↦ hnull _
  | .var name (some init) span =>
    exact htick.bind fun _ ↦ (evalExpr hc init).toExec.bind fun v ↦
      (bindVar name v).bind fun _ ↦ hnull _
  | .print value span =>
    refine htick.bind fun _ ↦ (evalExpr hc value).toExec.bind fun v ↦ ?_
    exact (execStep nothing nothing (fun D hD h w hvs ↦ h.printValue (hD.place span)
      (hvs v List.mem_cons_self)) fun _ ↦ List.nil_subset _).bind fun _ ↦ hnull _
  | .cond condition body (some other) span =>
    refine htick.bind fun _ ↦ (evalExpr hc condition).toExec.bind fun v ↦ ?_
    split
    · exact inNewFrame C (of_literal .null (execStmts hc .null body))
    · exact inNewFrame C (of_literal .null (execStmts hc .null other))
  | .cond condition body none span =>
    refine htick.bind fun _ ↦ (evalExpr hc condition).toExec.bind fun v ↦ ?_
    split
    · exact inNewFrame C (of_literal .null (execStmts hc .null body))
    · exact hnull _
  | .block body span =>
    exact htick.bind fun _ ↦
      (inNewFrame C (of_literal .null (execStmts hc .null body))).bind fun _ ↦ hnull _
  | .loop count body span =>
    refine htick.bind fun _ ↦ (evalExpr hc count).toExec.bind fun v ↦ ?_
    refine (execStep nothing nothing (fun D hD h w hvs ↦
      h.countOfValue v (hD.place count.span)) fun _ ↦ List.nil_subset _).bind fun n ↦ ?_
    exact (iterate (inNewFrame C (of_literal .null (execStmts hc .null body))) span.line 0 n).bind
      fun _ ↦ hnull _
  | .define name params body span =>
    exact htick.bind fun _ ↦ (defineFunction name params body).bind fun _ ↦ hnull _
  | .throwBall zone target span =>
    refine htick.bind fun _ ↦ (evalExpr hc zone).toExec.bind fun v ↦ ?_
    refine (execStep _ (fun id ↦ [.object (.zone id)])
      (fun D hD h w hvs ↦ h.thrownIn v (hD.place span) (hvs v List.mem_cons_self))
      fun _ ↦ List.subset_append_right _ _).bind fun z ↦ ?_
    refine (holding [.object (.zone z)] (evalExpr hc target).toExec).bind fun u ↦ ?_
    refine (execStep (fun id ↦ [.object (.pokemon id)])
      (fun id ↦ [.object (.zone z), .object (.pokemon id)])
      (fun D hD h w hvs ↦ h.thrownAt u (hD.place span) (hvs u (by simp))) (by simp)).bind fun p ↦ ?_
    exact (execStep nothing nothing (fun D hD h w hvs ↦
      h.throwBall (hD.place span) (hD.act _) (hvs _ (by simp)) (hvs _ (by simp)))
      fun _ ↦ List.nil_subset _).bind fun _ ↦ hnull _
  | .run span => exact htick.bind fun _ ↦ throw _

theorem execStmts (hc : Callers call call') (last : Value) (stmts : List Stmt) :
    Accompanies [last] (fun v ↦ [v]) (Hosted.execStmts C limits call last stmts)
      (execStmts limits call' last stmts) := by
  match stmts with
  | [] => exact .pure (List.Subset.refl _)
  | s :: ss =>
    refine (holding [last] (execStmt hc s)).bind fun v ↦ ?_
    exact (execStmts hc v ss).mono (List.subset_append_right _ _) fun _ ↦ List.Subset.refl _

end

end Statements

/-! ### Functions and programs -/

/-- A call runs the body of the function with the callers of the next smaller room. -/
theorem callWith (C : Collector) (limits : Limits) (room : Nat) :
    Callers (Hosted.callWith C limits room) (callWith limits room) := by
  have harity : ∀ (f : Function) (args : List Value) (span : Span),
      Accompanies (.function f :: args) (fun _ ↦ .function f :: args)
        (Hosted.onMachine (checkArity f args span)) (checkArity f args span) := fun f args span ↦
    step nothing _ (fun D hD h w _ ↦ h.checkArity f args (hD.place span)) fun _ ↦
      List.subset_append_left _ _
  induction room with
  | zero => exact fun f args span ↦ (harity f args span).bind fun _ ↦ raise _ span
  | succ room ih =>
    exact fun f args span ↦ (harity f args span).bind fun _ ↦
      inCall C (of_literal .null (execStmts C ih .null f.body)) f args

/-- A program: the induction is on its statements. -/
theorem runProgram (C : Collector) (limits : Limits) (program : Program) :
    Accompanies [] nothing (Hosted.runProgram C limits program) (runProgram limits program) := by
  induction program with
  | nil => exact .pure (List.Subset.refl _)
  | cons s ss ih =>
    have hstmt : Accompanies [] (fun v ↦ [v])
        (Hosted.inside .backToGlobal (Hosted.inside .settle
          (Hosted.execStmt C limits (Hosted.callWith C limits limits.maxCallDepth) s)))
        (backToGlobal (ExecM.settle
          (SafariScript.execStmt limits (SafariScript.callWith limits limits.maxCallDepth) s))) :=
      fun _ _ hb ↦ (execStmt C (callWith C limits _) s hb).settle.backToGlobal
    exact hstmt.bind fun _ ↦ ih.mono (List.nil_subset _) fun _ ↦ List.Subset.refl _

/-- **Evaluation does not notice that frames are given back.** -/
theorem evaluate (C : Collector) (limits : Limits) (program : Program) :
    Accompanies [] nothing (Hosted.evaluate C limits program) (evaluate limits program) := by
  have hrestart : Accompanies [] nothing (Hosted.onMachine (modify Machine.restart))
      (modify Machine.restart : EvalM PUnit) := fun h m hb ↦
    .ok rfl rfl (hb.withMachine rfl rfl rfl rfl (fun _ ↦ rfl) (fun _ ↦ rfl) (fun _ ↦ rfl) rfl
      hb.global)
  have htold : Accompanies [] nothing
      (Hosted.onMachine do tell (.evaluated program.length (← get).steps))
      (do tell (.evaluated program.length (← get).steps)) := fun h m hb ↦
    .ok rfl rfl (hb.withMachine rfl rfl rfl rfl id id id hb.frame hb.current)
  exact hrestart.bind fun _ ↦ (runProgram C limits program).bind fun _ ↦ htold

end Accompanies

/-! ### Sessions -/

/-- What is seen of a session after a program: the error in which it ended, all that was written
until then, and the global variables. -/
structure Observation where
  failure : Option RuntimeError
  written : List UInt8
  globals : Bindings

namespace Machine

/-- What is seen of the machine. -/
def observe (m : Machine) (failure : Option RuntimeError) : Observation :=
  ⟨failure, m.sink.bytes, m.globals⟩

/-- What is seen of a session in which all frames stay, after each of its programs. -/
def observations (limits : Limits) : List Program → Machine → List Observation
  | [], _ => []
  | p :: ps, m =>
    match evaluate limits p m with
    | .ok _ n => n.observe none :: observations limits ps n
    | .error e n => n.observe (some e) :: observations limits ps n

end Machine

/-- What is seen of a session in which frames are given back, after each of its programs. -/
def Host.observations (C : Collector) (limits : Limits) : List Program → Host → List Observation
  | [], _ => []
  | p :: ps, h =>
    match Hosted.evaluate C limits p h with
    | .ok _ n => n.machine.observe none :: observations C limits ps n
    | .error e n => n.machine.observe (some e) :: observations C limits ps n

namespace Beside

variable {h : Host} {m : Machine}

/-- A host and a machine side by side look the same. -/
theorem observe_eq (hb : Beside h m) (failure : Option RuntimeError) :
    h.machine.observe failure = m.observe failure := by
  obtain ⟨A, halike⟩ := hb.alike
  obtain ⟨out, hout, hout'⟩ := halike.twins.output
  have hglobals : m.globals = h.machine.globals :=
    halike.twins.store.vars_eq (halike.frames _ hb.global)
  rw [Machine.observe, Machine.observe, hglobals, hout, hout']

/-- A new session, where nothing is given back yet. -/
theorem new (sink : Sink) : Beside (.new sink) (.new sink) :=
  ⟨.new sink, ⟨_, .refl _⟩, rfl, List.mem_cons_self, List.mem_cons_self⟩

/-- Each program leaves them side by side. -/
theorem observations_eq (hb : Beside h m) (C : Collector) (limits : Limits)
    (programs : List Program) :
    h.observations C limits programs = m.observations limits programs := by
  induction programs generalizing h m with
  | nil => rfl
  | cons p ps ih =>
    have hend := Accompanies.evaluate C limits p hb.hold_nil
    unfold Host.observations Machine.observations
    generalize Hosted.evaluate C limits p h = r at hend
    generalize evaluate limits p m = r' at hend
    cases hend with
    | ok _ _ hn =>
      have hn := hn.of_subset (List.subset_append_left _ _)
      exact List.cons_eq_cons.2 ⟨hn.observe_eq none, ih hn⟩
    | error _ _ hn => exact List.cons_eq_cons.2 ⟨hn.observe_eq _, ih hn⟩

end Beside

/-- **Nobody sees that frames are given back**, in a session of any programs: each of them ends in
the same error or in none, all that was written is the same, and so are the global variables. It
does not matter either which of the frames that cannot be got at are gone. -/
theorem Host.observations_eq (C : Collector) (limits : Limits) (sink : Sink)
    (programs : List Program) :
    (Host.new sink).observations C limits programs =
      (Machine.new sink).observations limits programs :=
  (Beside.new sink).observations_eq C limits programs

end SafariScript
