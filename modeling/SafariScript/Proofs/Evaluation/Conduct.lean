import SafariScript.Proofs.Evaluation.Scopes
import SafariScript.Proofs.Store.Faults
import SafariScript.Proofs.Store.Operations

/-!
# What evaluation does with a program

A program can be looked at before it is evaluated: where it holds a `run`, which properties it
writes and which methods it calls. Here it is shown that evaluation does **no more than the program
holds** (`Conduct`): an error is at the place of a node, a body is only left where its statements
leave it, and the store is only changed by operations that the program asks for.

The program being evaluated is not all there is to look at. Functions outlive the program that
defined them, and a call runs the body of a function that may have come from anywhere: out of a
variable, out of a list, as an argument. So the bodies of all functions in the frames have to keep
to the same bounds (`Frames.Keep`), and so have those of the functions at hand (`Value.Keeps`).

In a session the bounds are those of all its programs so far (`sessionBounds`). Whatever they are
and however they ended, the frames keep to them (`Machine.After.keep`).
-/

namespace SafariScript

open EvalM ExecM

/-! ### Functions in values and frames -/

mutual

/-- The functions in a value. -/
def Value.functions : Value → List Function
  | list _ items => Value.functionsAll items
  | function f => [f]
  | _ => []

/-- The functions in values. -/
def Value.functionsAll : List Value → List Function
  | [] => []
  | v :: vs => v.functions ++ Value.functionsAll vs

end

/-- A function in values is in one of them. -/
theorem Value.mem_functionsAll {f : Function} {vs : List Value} :
    f ∈ Value.functionsAll vs ↔ ∃ v ∈ vs, f ∈ v.functions := by
  induction vs with
  | nil => simp [Value.functionsAll]
  | cons v vs ih => simp [Value.functionsAll, ih]

mutual

/-- A value refers to the frames in which its functions were defined. -/
theorem Value.closure_mem_refs {v : Value} {f : Function} (h : f ∈ v.functions) :
    Ref.frame f.closure ∈ v.refs := by
  match v with
  | .list _ items => exact Value.closure_mem_refsAll h
  | .function g =>
    rw [List.mem_singleton.1 h]
    exact List.mem_cons_self
  | .null | .bool _ | .int _ | .decimal _ | .str _ | .object _ | .native _ => cases h

/-- Values refer to the frames of the functions in them. -/
theorem Value.closure_mem_refsAll {vs : List Value} {f : Function}
    (h : f ∈ Value.functionsAll vs) : Ref.frame f.closure ∈ Value.refsAll vs := by
  match vs with
  | [] => cases h
  | v :: vs =>
    obtain hv | hvs := List.mem_append.1 h
    · exact List.mem_append_left _ (Value.closure_mem_refs hv)
    · exact List.mem_append_right _ (Value.closure_mem_refsAll hvs)

end

/-- A value that refers to no frame holds no function. -/
theorem Value.functions_eq_nil {v : Value} (h : ∀ i, Ref.frame i ∉ v.refs) : v.functions = [] :=
  List.eq_nil_iff_forall_not_mem.2 fun f hf ↦ h f.closure (Value.closure_mem_refs hf)

/-- The bodies of all functions in the value keep to the bounds. -/
def Value.Keeps (B : Bounds) (v : Value) : Prop :=
  ∀ f ∈ v.functions, Stmt.AllKeep B B.body f.body

/-- The bodies of all functions that are bound keep to the bounds. -/
def Frames.Keep (B : Bounds) (fs : Frames) : Prop :=
  ∀ i name v, (fs.vars i).get? name = some v → v.Keeps B

namespace Value.Keeps

variable {B : Bounds} {v : Value}

/-- A value that refers to no frame keeps to all bounds. -/
theorem of_refs (h : ∀ i, Ref.frame i ∉ v.refs) : v.Keeps B := by
  intro f hf
  rw [Value.functions_eq_nil h] at hf
  cases hf

theorem of_refs_eq_nil (h : v.refs = []) : v.Keeps B :=
  .of_refs fun i hi ↦ by rw [h] at hi; cases hi

/-- A list keeps to the bounds that its elements keep to. -/
theorem list {id : Nat} {items : List Value} (h : ∀ v ∈ items, v.Keeps B) :
    (Value.list id items).Keeps B := by
  intro f hf
  obtain ⟨v, hv, hmem⟩ := Value.mem_functionsAll.1 hf
  exact h v hv f hmem

/-- A function keeps to the bounds if its body does. -/
theorem function {f : Function} (h : Stmt.AllKeep B B.body f.body) :
    (Value.function f).Keeps B := by
  intro g hg
  rw [List.mem_singleton.1 hg]
  exact h

end Value.Keeps

namespace Frames.Keep

variable {B : Bounds} {fs : Frames} {i : FrameId} {name : String} {v : Value}

/-- What a name stands for was bound somewhere. -/
theorem get? (h : fs.Keep B) (hv : fs.get? i name = some v) : v.Keeps B := by
  obtain ⟨j, -, hj⟩ := get?_eq_some hv
  exact h j name v hj

/-- A definition changes one binding. -/
theorem define (h : fs.Keep B) (hv : v.Keeps B) : (fs.define i name v).Keep B := by
  intro j name' u hu
  rw [get?_vars_define] at hu
  split at hu
  · cases hu
    exact hv
  · exact h j name' u hu

/-- An assignment changes one binding, or adds one to the global frame. -/
theorem set (h : fs.Keep B) (hv : v.Keeps B) : (fs.set i name v).2.Keep B := by
  unfold Frames.set
  split
  · exact h.define hv
  · exact h.define hv

/-- A new frame binds nothing. -/
theorem pushChild (h : fs.Keep B) (i : FrameId) : (fs.pushChild i).2.Keep B := by
  intro j name u hu
  rw [vars_pushChild] at hu
  exact h j name u hu

/-- Parameters are bound one after the other. -/
theorem defineAll {s : Store} (h : s.frames.Keep B) {bindings : List (String × Value)}
    (hb : ∀ b ∈ bindings, b.2.Keeps B) : (s.defineAll i bindings).frames.Keep B := by
  induction bindings generalizing s with
  | nil => exact h
  | cons b bindings ih =>
    obtain ⟨hv, hrest⟩ := List.forall_mem_cons.1 hb
    exact ih (s := s.define i b.1 b.2) (h.define hv) hrest

end Frames.Keep

/-! ### Outcomes within bounds -/

/-- If the error says that something was left, then the body of a function may be left there. -/
def Bounds.Raises (B : Bounds) (e : RuntimeError) : Prop :=
  e.fault = .exitOutsideLoop → B.leave e.span

/-- The error may be raised: it is at a place where errors may be, and where something may be left
if it says so. -/
structure Bounds.Fails (B : Bounds) (e : RuntimeError) : Prop where
  place : B.place e.span
  raises : B.Raises e

/-- The statements of a body with this allowance may end so. -/
def Bounds.Ends (B : Bounds) (allowed : Allowance) : Signal → Prop
  | .exit span => allowed.leaves span ∧ B.place span
  | .error e => B.Fails e

/-- The outcome of a computation that started with the store `s` is within the bounds. -/
structure Conduct {ε α : Type} (B : Bounds) (fails : ε → Prop) (s : Store) (c : α → List Value)
    (r : EStateM.Result ε Machine α) : Prop where
  frames : (reached r).store.frames.Keep B
  values : ∀ v ∈ carried c r, v.Keeps B
  /-- The store was changed by operations that the bounds allow. -/
  store : s.Leads B.act (reached r).store
  /-- It failed as is allowed, if it failed. -/
  error : ∀ e n, r = .error e n → fails e

/-- From every machine with frames within the bounds, the computation has an outcome within them. -/
def Conducted {ε α : Type} (B : Bounds) (fails : ε → Prop) (c : α → List Value)
    (x : EStateM ε Machine α) : Prop :=
  ∀ m : Machine, m.store.frames.Keep B → Conduct B fails m.store c (x m)

namespace Conduct

variable {ε α : Type} {B : Bounds} {fails : ε → Prop} {c : α → List Value} {s : Store} {m : Machine}

/-- A result within the bounds. -/
theorem ok {a : α} (hframes : m.store.frames.Keep B) (hstore : s.Leads B.act m.store)
    (hvalues : ∀ v ∈ c a, v.Keeps B) : Conduct B fails s c (.ok a m) :=
  ⟨hframes, hvalues, hstore, nofun⟩

/-- An error within the bounds. -/
theorem failed {e : ε} (hframes : m.store.frames.Keep B) (hstore : s.Leads B.act m.store)
    (he : fails e) : Conduct B fails s c (.error e m) :=
  ⟨hframes, nofun, hstore, fun _ _ h ↦ (EStateM.Result.error.inj h).1 ▸ he⟩

/-- More errors may be allowed. -/
theorem mono {fails' : ε → Prop} {r : EStateM.Result ε Machine α} (hfails : ∀ e, fails e → fails' e)
    (h : Conduct B fails s c r) : Conduct B fails' s c r :=
  { h with error := fun e n hr ↦ hfails e (h.error e n hr) }

/-- What happened before was within the bounds, too. -/
theorem after {s' : Store} {r : EStateM.Result ε Machine α} (hs : s.Leads B.act s')
    (h : Conduct B fails s' c r) : Conduct B fails s c r :=
  { h with store := hs.trans h.store }

/-! #### Brackets -/

/-- A statement ends in an error where its expression does. -/
theorem toExec {A : Allowance} {x : EvalM α} (h : Conduct B B.Fails s c (x m)) :
    Conduct B (B.Ends A) s c (x.toExec m) := by
  unfold EvalM.toExec
  generalize x m = r at h ⊢
  cases r with
  | ok a n => exact .ok h.frames h.store h.values
  | error e n => exact .failed h.frames h.store (h.error e n rfl)

/-- What leaves the body of a function is an error at a place where it may be left. -/
theorem settle {x : ExecM α} (h : Conduct B (B.Ends B.body) s c (x m)) :
    Conduct B B.Fails s c (x.settle m) := by
  unfold ExecM.settle
  generalize x m = r at h ⊢
  rcases r with ⟨a, n⟩ | ⟨span | e, n⟩
  · exact .ok h.frames h.store h.values
  · obtain ⟨hleave, hplace⟩ := h.error _ n rfl
    exact .failed h.frames h.store ⟨hplace, fun _ ↦ hleave⟩
  · exact .failed h.frames h.store (h.error _ n rfl)

/-- The number of active calls is not bounded here. -/
theorem whileActive {fails : RuntimeError → Prop} {x : EvalM α}
    (h : Conduct B fails s c (x { m with active := m.active + 1 })) :
    Conduct B fails s c (whileActive x m) := by
  unfold EvalM.whileActive
  generalize x { m with active := m.active + 1 } = r at h ⊢
  cases r with
  | ok a n => exact .ok h.frames h.store h.values
  | error e n => exact .failed h.frames h.store (h.error e n rfl)

/-- The current frame is not one of the stored ones. -/
theorem inFrame {fails : Signal → Prop} {x : ExecM α} {frame : FrameId}
    (h : Conduct B fails s c (x { m with frame := frame })) :
    Conduct B fails s c (inFrame frame x m) := by
  unfold ExecM.inFrame
  generalize x { m with frame := frame } = r at h ⊢
  cases r with
  | ok a n => exact .ok h.frames h.store h.values
  | error e n => exact .failed h.frames h.store (h.error e n rfl)

/-- The return to the global frame changes no binding. -/
theorem backToGlobal {fails : RuntimeError → Prop} {x : EvalM α} (h : Conduct B fails s c (x m)) :
    Conduct B fails s c (backToGlobal x m) := by
  unfold EvalM.backToGlobal
  generalize x m = r at h ⊢
  cases r with
  | ok a n => exact .ok h.frames h.store h.values
  | error e n => exact .failed h.frames h.store (h.error e n rfl)

/-- An iteration that is left is over. -/
theorem attempt {A : Allowance} {x : ExecM α} {line i : Nat}
    (h : Conduct B (B.Ends A.inLoop) s c (x { m with iterations := m.iterations + 1 })) :
    Conduct B (B.Ends A) s Discipline.nothing (attempt x line i m) := by
  unfold ExecM.attempt
  generalize x { m with iterations := m.iterations + 1 } = r at h ⊢
  rcases r with ⟨a, n⟩ | ⟨span | e, n⟩
  · exact .ok h.frames h.store nofun
  · exact .ok h.frames h.store nofun
  · exact .failed h.frames h.store (h.error (.error e) n rfl)

end Conduct

namespace Conducted

variable {ε α β : Type} {B : Bounds} {fails : ε → Prop} {c : α → List Value} {d : β → List Value}

/-! #### Putting computations together -/

theorem pure {a : α} (h : ∀ v ∈ c a, v.Keeps B) :
    Conducted B fails c (Pure.pure a : EStateM ε _ α) :=
  fun _ hm ↦ .ok hm (.refl _) h

theorem throw {e : ε} (he : fails e) : Conducted B fails c (throw e : EStateM ε Machine α) :=
  fun _ hm ↦ .failed hm (.refl _) he

/-- The second computation starts with frames and values within the bounds. -/
theorem bind {x : EStateM ε Machine α} {f : α → EStateM ε Machine β} (hx : Conducted B fails c x)
    (hf : ∀ a, (∀ v ∈ c a, v.Keeps B) → Conducted B fails d (f a)) :
    Conducted B fails d (x >>= f) := by
  intro m hm
  have h := hx m hm
  cases hr : x m with
  | ok a n =>
    rw [hr] at h
    rw [bind_ok f hr]
    exact (hf a h.values n h.frames).after h.store
  | error e n =>
    rw [hr] at h
    rw [bind_error f hr]
    exact .failed h.frames h.store (h.error e n rfl)

/-- A block adds a frame without bindings and changes no object. -/
theorem inNewFrame {A : Allowance} {x : ExecM α} (hx : Conducted B (B.Ends A) c x) :
    Conducted B (B.Ends A) c (inNewFrame x) := by
  intro m hm
  have hnew : m.store.Leads B.act m.enterBlock.store := .op (.newFrame m.frame) nofun
  have hin := hx m.enterBlock (hm.pushChild m.frame)
  rw [inNewFrame_eq]
  exact .inFrame (m := { m with store := m.enterBlock.store }) (hin.after hnew)

/-- What leaves the iteration is caught, so only errors remain. -/
theorem turn {A : Allowance} {x : ExecM α} {y : ExecM Unit} {line i : Nat}
    (hx : Conducted B (B.Ends A.inLoop) c x)
    (hy : Conducted B (B.Ends A) Discipline.nothing y) :
    Conducted B (B.Ends A) Discipline.nothing (turn x line i y) := by
  rw [turn_eq]
  have hattempt : Conducted B (B.Ends A) Discipline.nothing (attempt x line i) := fun m hm ↦
    .attempt (hx { m with iterations := m.iterations + 1 } hm)
  refine hattempt.bind fun left _ ↦ ?_
  split
  · exact .pure nofun
  · exact hy

/-- A call: what leaves the body is an error, at a place where the body may be left. -/
theorem enter {f : Function} {args : List Value} {x : ExecM α} (hargs : ∀ v ∈ args, v.Keeps B)
    (hx : Conducted B (B.Ends B.body) c x) :
    Conducted B B.Fails c (parameterFrame f args >>= fun frame ↦ inCall f.name frame x) := by
  intro m hm
  let s : Store := (m.store.newFrame f.closure).2
  have hnew : m.store.Leads B.act s := .op (.newFrame f.closure) nofun
  have hparams : s.Leads B.act (m.enterBody f args).store := .defineAll s _ _
  have hframes : (m.enterBody f args).store.frames.Keep B :=
    Frames.Keep.defineAll (s := s) (hm.pushChild f.closure) fun b hb ↦
      hargs b.2 (List.of_mem_zip hb).2
  -- the machine in which the body starts: the call is counted and told
  let m₁ : Machine := Machine.tell (.called f.name (m.active + 1))
    { m with store := (m.enterBody f args).store, active := m.active + 1 }
  have hin := hx { m₁ with frame := (m.enterBody f args).frame } hframes
  have hcall : Conduct B B.Fails m.store c
      (ExecM.settle (ExecM.inFrame (m.enterBody f args).frame x) m₁) :=
    .settle (.inFrame (m := m₁) (hin.after (hnew.trans hparams)))
  rw [enter_eq]
  exact .whileActive hcall

/-! #### Steps -/

/-- A step that leaves the store alone and does not fail. -/
theorem quiet {x : EStateM ε Machine α}
    (h : ∀ m, ∃ a n, x m = .ok a n ∧ n.store = m.store ∧ c a = []) : Conducted B fails c x := by
  intro m hm
  obtain ⟨a, n, hx, hstore, hc⟩ := h m
  rw [hx]
  refine .ok (hstore ▸ hm) (hstore ▸ .refl _) fun v hv ↦ ?_
  rw [hc] at hv
  cases hv

theorem get : Conducted B fails Discipline.nothing (get : EStateM ε Machine Machine) :=
  .quiet fun m ↦ ⟨m, m, rfl, rfl, rfl⟩

theorem tell (event : Event) : Conducted B B.Fails Discipline.nothing (EvalM.tell event) :=
  .quiet fun m ↦ ⟨(), m.tell event, rfl, rfl, rfl⟩

/-- An error that is not about leaving may be raised wherever errors may. -/
theorem raise {fault : Fault} {span : Span} (hs : B.place span) (h : fault ≠ .exitOutsideLoop) :
    Conducted B B.Fails c (raise fault span) :=
  .throw ⟨hs, fun hfault ↦ absurd hfault h⟩

/-- A check neither changes the store nor says that something was left. -/
theorem check {span : Span} {x : Except Fault α} (hs : B.place span) (hx : NoExit x)
    (h : ∀ a, x = .ok a → ∀ v ∈ c a, v.Keeps B) : Conducted B B.Fails c (check span x) := by
  cases x with
  | ok a => exact .pure (h a rfl)
  | error fault => exact .raise hs fun hfault ↦ hx (congrArg Except.error hfault)

/-- An operation that makes or changes something in the store. -/
theorem onStore {change : Store → α × Store} (op : StoreOp) (hop : ∀ a ∈ op.act?, B.act a)
    (hchange : ∀ s, (change s).2 = op.apply s)
    (hframes : ∀ s : Store, s.frames.Keep B → (change s).2.frames.Keep B)
    (hvalues : ∀ s, ∀ v ∈ c (change s).1, v.Keeps B) :
    Conducted B B.Fails c (onStore change) := by
  intro m hm
  have hleads : m.store.Leads B.act (change m.store).2 := hchange m.store ▸ .op op hop
  exact .ok (m := { m with store := (change m.store).2 }) (hframes _ hm) hleads (hvalues m.store)

/-- An operation on an object. -/
theorem inStore {span : Span} {x : StoreM α} (hs : B.place span) (op : StoreOp)
    (hop : ∀ a ∈ op.act?, B.act a) (hx : ∀ s, Store.behind (x s) = op.apply s)
    (hfree : ∀ s, Store.FrameFree s c (x s)) (hexit : Store.NoExit x) :
    Conducted B B.Fails c (inStore span x) := by
  intro m hm
  have hleads : m.store.Leads B.act (Store.behind (x m.store)) := hx m.store ▸ .op op hop
  have hfault := hexit m.store
  have hkept := hfree m.store
  unfold EvalM.inStore
  generalize x m.store = r at hkept hleads hfault ⊢
  cases hkept with
  | @ok a s hframes hvalues =>
    have hkeep : s.frames.Keep B := hframes ▸ hm
    exact .ok (m := { m with store := s }) hkeep hleads fun v hv ↦ .of_refs (hvalues v hv)
  | @error fault s hframes =>
    have hkeep : s.frames.Keep B := hframes ▸ hm
    refine .failed (m := { m with store := s }) hkeep hleads ⟨hs, fun hexit ↦ ?_⟩
    have hsame : fault = .exitOutsideLoop := hexit
    exact absurd (hsame ▸ rfl) (hfault s)

/-- A sink that closes is an error at the place of the statement. -/
theorem writeLine (text : String) {span : Span} (hs : B.place span) :
    Conducted B B.Fails Discipline.nothing (writeLine text span) := by
  intro m hm
  unfold EvalM.writeLine
  rcases m.sink.writeLine text with ⟨_ | _, sink⟩
  · exact .failed (m := { m with sink := sink }) hm (.refl _) ⟨hs, nofun⟩
  · exact .ok (m := { m with sink := sink }) hm (.refl _) nofun

/-- Lines one after the other. -/
theorem writeLines (lines : List String) {span : Span} (hs : B.place span) :
    Conducted B B.Fails Discipline.nothing
      (lines.forM fun line ↦ EvalM.writeLine line span) := by
  induction lines with
  | nil => exact .pure nofun
  | cons line lines ih => exact .bind (.writeLine line hs) fun _ _ ↦ ih

/-- A limit is an error at the place of the statement. -/
theorem tick (limits : Limits) {span : Span} (hs : B.place span) :
    Conducted B B.Fails Discipline.nothing (tick limits span) := by
  intro m hm
  rw [tick_eq]
  split
  · exact .ok (m := { m with steps := m.steps + 1 }) hm (.refl _) nofun
  · exact .failed (m := { m with steps := m.steps + 1 }) hm (.refl _) ⟨hs, nofun⟩

/-- The value that is read was bound, and so it keeps to the bounds. -/
theorem readVar (name : String) {span : Span} (hs : B.place span) :
    Conducted B B.Fails (fun v ↦ [v]) (readVar name span) := by
  intro m hm
  cases hv : m.store.frames.get? m.frame name with
  | none =>
    rw [readVar_none hv]
    exact .failed hm (.refl _) ⟨hs, nofun⟩
  | some v =>
    rw [readVar_some hv]
    exact .ok hm (.refl _) fun u hu ↦ List.mem_singleton.1 hu ▸ hm.get? hv

/-- The value that is written keeps to the bounds. -/
theorem writeVar {name : String} {v : Value} {line : Nat} (hv : v.Keeps B) :
    Conducted B B.Fails Discipline.nothing (writeVar name v line) := by
  intro m hm
  have hassign : m.store.Leads B.act (m.store.assign m.frame name v).2 :=
    .op (.assign m.frame name v) nofun
  have hframes : (m.store.assign m.frame name v).2.frames.Keep B := hm.set hv
  rw [writeVar_eq]
  exact .ok hframes hassign nofun

theorem bindVar {name : String} {v : Value} (hv : v.Keeps B) :
    Conducted B B.Fails Discipline.nothing (bindVar name v) := by
  intro m hm
  have hdefine : m.store.Leads B.act (m.store.define m.frame name v) :=
    .op (.define m.frame name v) nofun
  have hframes : (m.store.define m.frame name v).frames.Keep B := hm.define hv
  exact .ok (m := { m with store := m.store.define m.frame name v }) hframes hdefine nofun

/-- The body of the new function keeps to the bounds, and so does the new binding. -/
theorem defineFunction {name : String} {params : List String} {body : List Stmt}
    (hbody : Stmt.AllKeep B B.body body) :
    Conducted B B.Fails Discipline.nothing (defineFunction name params body) := by
  refine .bind .get fun m _ ↦ ?_
  have hnew : Conducted B B.Fails (fun v ↦ [v])
      (EvalM.onStore (Store.newFunction name params body m.frame)) :=
    .onStore (.newFunction name params body m.frame) nofun (fun _ ↦ rfl) (fun _ hs ↦ hs)
      fun _ v hv ↦ List.mem_singleton.1 hv ▸ .function hbody
  exact hnew.bind fun f hf ↦ .bindVar (hf f List.mem_cons_self)

/-- A throw changes the store as a throw may, and its errors are at its place. -/
theorem throwBall (zone : Nat) (target : PokemonId) {span : Span} (hs : B.place span)
    (hact : B.act .throwBall) :
    Conducted B B.Fails Discipline.nothing (throwBall zone target span) := by
  have hthrow : Conducted B B.Fails Discipline.nothing
      (EvalM.onStore (Store.throwBall zone target)) :=
    .onStore (.throwBall zone target) (fun a ha ↦ Option.some.inj ha ▸ hact) (fun _ ↦ rfl)
      (fun _ hs ↦ hs) fun _ ↦ nofun
  exact hthrow.bind fun outcome _ ↦ .bind .get fun m _ ↦ .bind (.tell _) fun _ _ ↦
    .writeLines _ hs

end Conducted

/-! ### All of evaluation -/

/-- To keep to bounds as a discipline: the functions at hand do so as well. -/
def conductDiscipline (B : Bounds) : Discipline where
  toBounds := B
  World := Unit
  le _ _ := True
  holds _ v := v.Keeps B
  eval _ x _ c := Conducted B B.Fails c x
  exec _ A x _ c := Conducted B (B.Ends A) c x

/-- Every step keeps to the bounds. -/
theorem closed_conductDiscipline (B : Bounds) (limits : Limits) :
    (conductDiscipline B).Closed limits limits where
  trans _ _ := trivial
  mono _ hv := hv
  plain value := .of_refs_eq_nil (Value.refs_ofLiteral value)
  keeps hf := hf _ List.mem_cons_self
  pure := .pure
  bind hx hf := .bind hx fun a ha ↦ hf () a trivial ha
  raise hs h := .raise hs h
  -- Setting a property, calling a method and throwing a ball are acts; the rest needs no leave.
  newList {_ vs} hvs := .onStore (.newList vs) nofun (fun _ ↦ rfl) (fun _ hs ↦ hs)
    fun _ _ hv ↦ List.mem_singleton.1 hv ▸ .list hvs
  readVar hs := .readVar _ hs
  writeVar hv := .writeVar hv
  applyUnary hs _ := .check hs (.unary _ _) fun _ h _ hv ↦
    .of_refs_eq_nil (List.mem_singleton.1 hv ▸ refs_unary h)
  applyBinary hs _ _ := .bind .get fun _ _ ↦ .check hs (.binary _ _ _ _) fun _ h _ hv ↦
    .of_refs_eq_nil (List.mem_singleton.1 hv ▸ refs_binary h)
  getProperty {_ _ o name} hs _ := .inStore hs (.getProperty o name) nofun (fun _ ↦ rfl)
    (fun _ ↦ .getProperty o name) (.getProperty o name)
  setProperty {_ _ o name v} hs hact _ _ := .inStore hs (.setProperty o name v)
    (fun _ ha ↦ Option.some.inj ha ▸ hact) (fun _ ↦ rfl) (fun _ ↦ .setProperty o name v)
    (.setProperty o name v)
  callMethod {_ _ o name vs ks} hs hact _ _ _ := .inStore hs (.callMethod o name vs ks)
    (fun _ ha ↦ Option.some.inj ha ▸ hact) (fun _ ↦ rfl) (fun _ ↦ .callMethod o name vs ks)
    (.callMethod o name vs ks)
  callNative {_ _ n vs} hs _ := .inStore hs (.callNative n vs) nofun (fun _ ↦ rfl)
    (fun _ ↦ .callNative n vs) (.callNative n vs)
  tick hs := .tick limits hs
  printValue hs _ := .bind .get fun _ _ ↦ .writeLine _ hs
  throwBall hs hact _ _ := .throwBall _ _ hs hact
  bindVar _ hv := fun m hm ↦ .toExec (Conducted.bindVar hv m hm)
  defineFunction _ hbody := fun m hm ↦ .toExec (Conducted.defineFunction hbody m hm)
  toExec hx := fun m hm ↦ .toExec (hx m hm)
  execBind hx hf := .bind hx fun a ha ↦ hf () a trivial ha
  exit hs hleave := .throw ⟨hleave, hs⟩
  inNewFrame hx := .inNewFrame (hx () trivial)
  turn hx hy := .turn (hx () trivial) (hy () trivial)
  enter _ hargs hx := .enter hargs (hx () trivial)

section Programs

variable {B : Bounds} (limits : Limits)

/-- A program within the bounds has an outcome within them. -/
theorem Conducted.runProgram {program : Program} (h : Stmt.AllKeep B B.body program) :
    Conducted B B.Fails Discipline.nothing (runProgram limits program) := by
  induction program with
  | nil => exact .pure nofun
  | cons s ss ih =>
    have hclosed := closed_conductDiscipline B limits
    have hs : Conducted B (B.Ends B.body) (fun v ↦ [v])
        (execStmt limits (callWith limits limits.maxCallDepth) s) :=
      hclosed.execStmt (hclosed.callWith rfl limits.maxCallDepth) s h.1 ()
    have hsettled : Conducted B B.Fails (fun v ↦ [v])
        (settle (execStmt limits (callWith limits limits.maxCallDepth) s)).backToGlobal :=
      fun m hm ↦ .backToGlobal (.settle (hs m hm))
    exact hsettled.bind fun _ _ ↦ ih h.2

/-- A program that keeps to the bounds is evaluated within them. -/
theorem Conducted.evaluate {program : Program} (h : Stmt.AllKeep B B.body program) :
    Conducted B B.Fails Discipline.nothing (evaluate limits program) := by
  have hrestart : Conducted B B.Fails Discipline.nothing (modify Machine.restart : EvalM PUnit) :=
    .quiet fun m ↦ ⟨(), m.restart, rfl, rfl, rfl⟩
  exact hrestart.bind fun _ _ ↦ .bind (.runProgram limits h) fun _ _ ↦ .bind .get fun m _ ↦
    .tell _

end Programs

/-! ### Sessions -/

/-- The machine after the programs were evaluated on it, one after the other, each under limits of
its own, and whether it failed or not. In between, the log may be read and written to. -/
inductive Machine.After : List Program → Machine → Prop
  | new (sink : Sink) : After [] (.new sink)
  | evaluated {programs : List Program} {m : Machine} (limits : Limits) (program : Program) :
    After programs m → After (programs ++ [program]) (reached (evaluate limits program m))
  | logged {programs : List Program} {m : Machine} (events : List Event) :
    After programs m → After programs { m with log := events }

/-- What the programs hold. -/
def sessionBounds (programs : List Program) : Bounds where
  place _ := True
  act a := ∃ program ∈ programs, a ∈ Stmt.actsAll program
  leave span := ∃ program ∈ programs, span ∈ Stmt.openRunsAll false program

/-- A program of the session keeps to the bounds of the session. -/
theorem allKeep_sessionBounds {programs : List Program} {program : Program}
    (h : program ∈ programs) :
    Stmt.AllKeep (sessionBounds programs) (sessionBounds programs).body program :=
  Stmt.allKeep _ false (fun _ h ↦ h.resolve_left Bool.false_ne_true) program
    (fun part _ ↦ Bounds.allows_of_place (fun _ ↦ trivial) part) (fun _ ha ↦ ⟨program, h, ha⟩)
    (fun _ hspan ↦ ⟨program, h, hspan⟩) fun _ ↦ trivial

/-- A new machine binds no function of a program. -/
theorem Machine.keep_new (B : Bounds) (sink : Sink) : (Machine.new sink).store.frames.Keep B := by
  have hroot : (Store.newRoot .empty).2.frames.Keep B := by
    intro i name v hv
    rw [Store.vars_newRoot_empty] at hv
    cases hv
  refine Frames.Keep.defineAll hroot fun b hb ↦ ?_
  obtain ⟨n, -, rfl⟩ := List.mem_map.1 hb
  exact .of_refs_eq_nil rfl

/-- The functions of a session keep to bounds that its programs keep to. -/
theorem Machine.After.keep {programs : List Program} {m : Machine} (h : m.After programs)
    {B : Bounds} (hB : ∀ program ∈ programs, Stmt.AllKeep B B.body program) :
    m.store.frames.Keep B := by
  induction h with
  | new sink => exact keep_new B sink
  | evaluated limits program _ ih =>
    obtain ⟨hprograms, hprogram⟩ := List.forall_mem_append.1 hB
    have hlast : Stmt.AllKeep B B.body program := hprogram program List.mem_cons_self
    exact (Conducted.evaluate limits hlast _ (ih hprograms)).frames
  | logged events _ ih => exact ih hB

/-- In a session, the next program is evaluated within the bounds of all programs so far. -/
theorem Machine.After.conduct {programs : List Program} {m : Machine} (h : m.After programs)
    (limits : Limits) (program : Program) :
    Conduct (sessionBounds (programs ++ [program])) (sessionBounds (programs ++ [program])).Raises
      m.store Discipline.nothing (evaluate limits program m) := by
  have hkeep : m.store.frames.Keep (sessionBounds (programs ++ [program])) :=
    h.keep fun p hp ↦ allKeep_sessionBounds (List.mem_append_left _ hp)
  have hlast : program ∈ programs ++ [program] :=
    List.mem_append_right _ List.mem_cons_self
  exact (Conducted.evaluate limits (allKeep_sessionBounds hlast) m hkeep).mono fun _ he ↦ he.raises

end SafariScript
