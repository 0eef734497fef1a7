import SafariScript.Proofs.Evaluation.Conduct
import SafariScript.Proofs.Evaluation.Reachable

/-!
# One root

All frames of a session stand inside the global frame, however far out: to go outward from the
current frame, or from the frame in which a function was defined, always ends there
(`Machine.OneRoot`). So names are looked up in finitely many steps, and what is assigned to a name
that is bound nowhere becomes a global variable.

That functions lead to the global frame is a matter of all functions there are: those that are
bound, those in lists, and those which are only **at hand**, as the callee of a call while its
arguments are evaluated. So the machines that occur are taken together with the values at hand in
them (`Machine.Occurs`). The invariant is that of scopes: the values at hand, too, are within the
frames made so far (`Occurs.within`).
-/

namespace SafariScript

open EvalM

/-! ### Machines with values at hand -/

namespace Machine

/-- The machines that occur in sessions, with values that are at hand there: an expression or a
statement puts its value at hand if it has one, and the body of a function is entered with a
function and arguments at hand. Values may be dropped at any time. -/
inductive Occurs : Machine → List Value → Prop
  | new (sink : Sink) : Occurs (.new sink) []
  | moved {m : Machine} {vs : List Value} {frame : FrameId} (active steps iterations : Nat)
    (log : List Event) : Occurs m vs → frame < m.store.frames.size →
    Occurs ⟨m.store, frame, active, steps, iterations, m.sink, log⟩ vs
  | expr {m : Machine} {vs : List Value} (limits : Limits) (room : Nat) (e : Expr) : Occurs m vs →
    Occurs (reached (evalExpr (callWith limits room) e m))
      (carried (fun v ↦ [v]) (evalExpr (callWith limits room) e m) ++ vs)
  | stmt {m : Machine} {vs : List Value} (limits : Limits) (room : Nat) (s : Stmt) : Occurs m vs →
    Occurs (reached (execStmt limits (callWith limits room) s m))
      (carried (fun v ↦ [v]) (execStmt limits (callWith limits room) s m) ++ vs)
  | block {m : Machine} {vs : List Value} : Occurs m vs → Occurs m.enterBlock vs
  | body {m : Machine} {vs args : List Value} {f : Function} : Occurs m vs →
    .function f ∈ vs → args ⊆ vs → Occurs (m.enterBody f args) vs
  | drop {m : Machine} {vs us : List Value} : Occurs m vs → us ⊆ vs → Occurs m us

namespace Occurs

variable {m m' : Machine} {vs us : List Value}

theorem exprs {limits : Limits} {room : Nat} {es : List Expr} (h : Occurs m vs)
    (hes : evalExprs (callWith limits room) es m = .ok us m') : Occurs m' (us ++ vs) := by
  induction es generalizing m m' vs us with
  | nil =>
    cases hes
    exact h
  | cons e es ih =>
    have hfirst := h.expr limits room e
    rw [evalExprs] at hes
    cases he : evalExpr (callWith limits room) e m with
    | error err n =>
      rw [bind_error _ he] at hes
      cases hes
    | ok v n =>
      rw [bind_ok _ he] at hes
      rw [he] at hfirst
      cases hrest : evalExprs (callWith limits room) es n with
      | error err n' =>
        rw [bind_error _ hrest] at hes
        cases hes
      | ok us n' =>
        rw [bind_ok _ hrest] at hes
        cases hes
        exact (ih hfirst hrest).drop List.perm_middle.symm.subset

end Occurs

/-- The machines that occur do so with nothing at hand. -/
theorem Reachable.occurs {m : Machine} (h : m.Reachable) : m.Occurs [] := by
  induction h with
  | new sink => exact .new sink
  | moved active steps iterations log _ hframe ih =>
    exact .moved active steps iterations log ih hframe
  | expr limits room e _ ih => exact (ih.expr limits room e).drop (List.nil_subset _)
  | stmt limits room s _ ih => exact (ih.stmt limits room s).drop (List.nil_subset _)
  | block _ ih => exact ih.block
  | @body m m₁ m₂ limits room callee args f vs _ hcallee hargs ih =>
    have hf := ih.expr limits room callee
    rw [hcallee] at hf
    have hvs := hf.exprs hargs
    refine (hvs.body (f := f) ?_ (List.subset_append_left vs _)).drop (List.nil_subset _)
    exact List.mem_append_right _ List.mem_cons_self

namespace Occurs

variable {m : Machine} {vs : List Value}

/-- What is at hand before is still within the frames afterwards. -/
theorem within_append {ε α : Type} {F : FrameId} {names : String → Prop} {fs : Frames}
    {c : α → List Value} {r : EStateM.Result ε Machine α} (h : Kept F names fs c r)
    (hvs : ∀ v ∈ vs, v.Within fs.size) :
    ∀ v ∈ carried c r ++ vs, v.Within (reached r).store.frames.size := by
  intro v hv
  obtain hv | hv := List.mem_append.1 hv
  · exact h.values v hv
  · exact (hvs v hv).mono h.scopes.size

/-- **The invariant**: frames are well scoped, and the values at hand are within them. -/
theorem within (h : m.Occurs vs) :
    m.WellScoped ∧ ∀ v ∈ vs, v.Within m.store.frames.size := by
  induction h with
  | new sink => exact ⟨wellScoped_new sink, by simp⟩
  | moved _ _ _ _ _ hframe ih => exact ⟨⟨ih.1.frames, hframe⟩, ih.2⟩
  | @expr m _ limits room e _ ih =>
    have hkept := Scoped.evalExpr limits room 0 e m ih.1 (Nat.zero_le _)
    exact ⟨hkept.wellScoped ih.1.frame, within_append hkept ih.2⟩
  | @stmt m _ limits room s _ ih =>
    have hkept := Scoped.execStmt limits room 0 s m ih.1 (Nat.zero_le _)
    exact ⟨hkept.wellScoped ih.1.frame, within_append hkept ih.2⟩
  | @block m _ _ ih =>
    have hscopes : ScopesKept m.frame noNames m.store.frames m.enterBlock.store.frames :=
      .enterBlock m
    exact ⟨ih.1.enterBlock, fun v hv ↦ (ih.2 v hv).mono hscopes.size⟩
  | @body m _ args f _ hf hargs ih =>
    have hscopes : ScopesKept m.frame noNames m.store.frames (m.enterBody f args).store.frames :=
      .enterBody f args m
    refine ⟨ih.1.enterBody (ih.2 _ hf) fun v hv ↦ ih.2 v (hargs hv), fun v hv ↦ ?_⟩
    exact (ih.2 v hv).mono hscopes.size
  | drop _ hsub ih => exact ⟨ih.1, fun v hv ↦ ih.2 v (hsub hv)⟩

end Occurs

end Machine

/-! ### Walks to the global frame -/

/-- All that goes outward from the frame comes to an end, at the global frame at the latest. -/
structure Frames.Rooted (fs : Frames) (i : FrameId) : Prop where
  /-- To go outward ends at the global frame. -/
  outermost : ∀ j, fs.Outermost i j ↔ j = globalFrame
  root : fs.root i = globalFrame
  /-- The search for a name has just one end, and reading and assigning go by it. -/
  search : ∀ name, ∃ r, (∀ r', fs.Search name i r' ↔ r' = r) ∧
    fs.get? i name = (r.bind fun j ↦ (fs.vars j).get? name) ∧
    ∀ v, fs.assign? i name v = r.map fun j ↦ fs.define j name v
  /-- The way outward does not come back to the frame. -/
  acyclic : ¬ Relation.TransGen (fun j p ↦ fs.parent? j = some p) i i

theorem Frames.WellScoped.rooted {fs : Frames} (h : fs.WellScoped) {i : FrameId}
    (hi : i < fs.size) : fs.Rooted i where
  outermost j := by rw [outermost_iff, h.root hi]
  root := h.root hi
  search name := by
    refine ⟨fs.resolve? i name, fun r' ↦ search_iff, get?_eq_bind fs i name, fun v ↦ ?_⟩
    unfold assign?
    cases fs.resolve? i name <;> rfl
  acyclic := fs.acyclic i

/-- What is assigned to a name that is bound nowhere becomes a global variable. -/
theorem Machine.WellScoped.writeVar_new {m : Machine} (h : m.WellScoped) {name : String}
    (hname : m.store.frames.resolve? m.frame name = none) (v : Value) (line : Nat) :
    ∃ m', writeVar name v line m = .ok () m' ∧ m'.globals = m.globals.insert name v ∧
      (∀ i ≠ globalFrame, m'.store.frames.vars i = m.store.frames.vars i) ∧
      m'.log = .implicitGlobal name line :: m.log := by
  have hassign : m.store.assign m.frame name v =
      (true, { m.store with frames := m.store.frames.define globalFrame name v }) := by
    rw [Store.assign, Frames.set, hname, h.frames.root h.frame]
  refine ⟨_, writeVar_eq m name v line, ?_, fun i hi ↦ ?_, ?_⟩
  · show (m.store.assign m.frame name v).2.frames.vars globalFrame = _
    rw [hassign, Frames.vars_define, if_pos ⟨rfl, h.frames.global⟩]
    rfl
  · show (m.store.assign m.frame name v).2.frames.vars i = _
    rw [hassign, Frames.vars_define, if_neg fun hglobal ↦ hi hglobal.1.symm]
  · show (if (m.store.assign m.frame name v).1 then _ else _) = _
    rw [hassign, if_pos rfl]

/-- One root: all ways outward end at the global frame, those from the current frame and those from
the frames in which the functions were defined that are bound or at hand. -/
structure Machine.OneRoot (m : Machine) (vs : List Value) : Prop where
  current : m.store.frames.Rooted m.frame
  closures : ∀ v, (v ∈ vs ∨ ∃ i name, (m.store.frames.vars i).get? name = some v) →
    ∀ f ∈ v.functions, m.store.frames.Rooted f.closure
  /-- There is no frame from which it is otherwise. -/
  handles : ∀ i < m.store.frames.size, m.store.frames.Rooted i
  /-- An assignment to a name that is bound nowhere binds it in the global frame. -/
  implicit : ∀ name v line, m.store.frames.resolve? m.frame name = none →
    ∃ m', writeVar name v line m = .ok () m' ∧ m'.globals = m.globals.insert name v ∧
      (∀ i ≠ globalFrame, m'.store.frames.vars i = m.store.frames.vars i) ∧
      m'.log = .implicitGlobal name line :: m.log

/-- **One root, no cycles.** In every machine that occurs in a session, whatever programs it has run
and however they ended, all ways outward end at the global frame. -/
theorem Machine.Occurs.oneRoot {m : Machine} {vs : List Value} (h : m.Occurs vs) :
    m.OneRoot vs := by
  obtain ⟨hm, hvs⟩ := h.within
  refine ⟨hm.frames.rooted hm.frame, fun v hv f hf ↦ ?_, fun i hi ↦ hm.frames.rooted hi,
    fun name v line hname ↦ hm.writeVar_new hname v line⟩
  refine hm.frames.rooted ?_
  obtain hv | ⟨i, name, hv⟩ := hv
  · exact hvs v hv _ (Value.closure_mem_refs hf)
  · exact hm.frames.within i name v hv _ (Value.closure_mem_refs hf)

/-- A function that is defined in a call and kept in a global list; then a failure. -/
def keepInner : Program :=
  [.define "outer" [] [.define "inner" [] [] default,
      .expr (.assign (.ident "kept" default) (.list [.ident "inner" default] default) default)]
      default,
    .expr (.call (.ident "outer" default) [] default), .expr (.ident "missing" default)]

/-- A block after the failure. -/
def blockAfterFailure : Machine :=
  (reached (evaluate {} keepInner (.new (.new none)))).enterBlock

/-- The list holds a function that was defined in the frame of the call, and the block has a frame
of its own; the ways from both lead to the global frame. -/
theorem Machine.Occurs.oneRoot_blockAfterFailure :
    (failure? (evaluate {} keepInner (.new (.new none)))).isSome = true ∧
    ((blockAfterFailure.globals.get? "kept").map fun v ↦ v.functions.map Function.closure) =
      some [1] ∧
    blockAfterFailure.frame = 2 ∧
    blockAfterFailure.Occurs [] ∧ blockAfterFailure.OneRoot [] := by
  have hoccurs : blockAfterFailure.Occurs [] :=
    .block ((Machine.Reachable.new _).evaluate {} keepInner).occurs
  refine ⟨?_, ?_, ?_, hoccurs, hoccurs.oneRoot⟩ <;> decide +kernel

end SafariScript
