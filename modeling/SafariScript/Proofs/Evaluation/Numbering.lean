import SafariScript.Proofs.Evaluation.Brackets
import SafariScript.Proofs.Evaluation.Scopes
import SafariScript.Proofs.Store.Numbers

/-!
# Evaluation keeps numbers apart

Evaluation hands values around: out of variables, into lists, as arguments, out of calls. It makes
new lists and functions only through the store, which gives each a number of its own. So at no time
are there two things of one number: a catalogue of what there was stays right and gets new entries
(`Traced`). How far it has come is the `World` of a discipline, in which the values at hand are
listed.
-/

namespace SafariScript

open EvalM ExecM

/-! ### Outcomes -/

/-- The outcome of a computation that started with the catalogue `w`: the store is numbered by a
later one, in which the values that the outcome carries are listed. -/
def Tracks {ε α : Type} (w : Catalogue) (c : α → List Value) (r : EStateM.Result ε Machine α) :
    Prop :=
  ∃ w', w.le w' ∧ (reached r).store.Numbered w' ∧ ∀ v ∈ carried c r, v.Listed w'

/-- From every machine with a store that the catalogue numbers, the computation has such an
outcome. -/
def Traced {ε α : Type} (w : Catalogue) (c : α → List Value) (x : EStateM ε Machine α) : Prop :=
  ∀ m : Machine, m.store.Numbered w → Tracks w c (x m)

namespace Tracks

variable {ε ε' α β : Type} {w w' : Catalogue} {c : α → List Value} {d : β → List Value}
  {m : Machine}

/-- A result with values that are listed already. -/
theorem ok {a : α} (hm : m.store.Numbered w) (hv : ∀ v ∈ c a, v.Listed w) :
    Tracks w c (.ok a m : EStateM.Result ε Machine α) :=
  ⟨w, .refl w, hm, hv⟩

/-- A result without values. -/
theorem done {a : α} (hm : m.store.Numbered w) :
    Tracks w Discipline.nothing (.ok a m : EStateM.Result ε Machine α) :=
  .ok hm fun _ h ↦ absurd h List.not_mem_nil

/-- An error carries no values. -/
theorem error {e : ε} (hm : m.store.Numbered w) :
    Tracks w c (.error e m : EStateM.Result ε Machine α) :=
  ⟨w, .refl w, hm, fun _ h ↦ absurd h List.not_mem_nil⟩

/-- A later catalogue is one for the earlier start, too. -/
theorem after {r : EStateM.Result ε Machine α} (h : w.le w') (hr : Tracks w' c r) :
    Tracks w c r := by
  obtain ⟨w'', hle, hrest⟩ := hr
  exact ⟨w'', h.trans hle, hrest⟩

/-- A bracket that leaves the store alone, and lets no other values out. -/
theorem bracket {b : Bracket ε α ε' β} {r : EStateM.Result ε Machine α}
    (hb : b.Keeps Machine.store) (hc : ∀ v ∈ carried d (b.leave m r), v ∈ carried c r)
    (h : Tracks w c r) : Tracks w d (b.leave m r) := by
  obtain ⟨w', hle, hstore, hvalues⟩ := h
  refine ⟨w', hle, ?_, fun v hv ↦ hvalues v (hc v hv)⟩
  rw [hb.leave m r]
  exact hstore

theorem toExec {x : EvalM α} (h : Tracks w c (x m)) : Tracks w c (x.toExec m) := by
  refine bracket (b := .toExec) (m := m) .toExec (fun v hv ↦ ?_) h
  generalize x m = r at hv ⊢
  cases r <;> exact hv

theorem settle {x : ExecM α} (h : Tracks w c (x m)) : Tracks w c (x.settle m) := by
  refine bracket (b := .settle) (m := m) .settle (fun v hv ↦ ?_) h
  generalize x m = r at hv ⊢
  rcases r with ⟨a, n⟩ | ⟨span | e, n⟩ <;> exact hv

/-- The current frame has no part in the numbering of lists and functions. -/
theorem inFrame {x : ExecM α} {frame : FrameId} (h : Tracks w c (x { m with frame := frame })) :
    Tracks w c (inFrame frame x m) := by
  refine bracket (b := .inFrame frame) (m := m) (.inFrame (fun _ _ ↦ rfl) frame) (fun v hv ↦ ?_) h
  generalize x { m with frame := frame } = r at hv ⊢
  cases r <;> exact hv

/-- The number of active calls has no part in it. -/
theorem whileActive {x : EvalM α} (h : Tracks w c (x { m with active := m.active + 1 })) :
    Tracks w c (whileActive x m) := by
  refine bracket (b := .whileActive) (m := m) (.whileActive fun _ _ ↦ rfl) (fun v hv ↦ ?_) h
  generalize x { m with active := m.active + 1 } = r at hv ⊢
  cases r <;> exact hv

/-- An iteration counts and tells, which has no part in it. -/
theorem attempt {x : ExecM α} {line i : Nat}
    (h : Tracks w c (x { m with iterations := m.iterations + 1 })) :
    Tracks w Discipline.nothing (attempt x line i m) := by
  refine bracket (b := .attempt line i) (m := m) (.attempt (fun _ _ ↦ rfl) (fun _ _ ↦ rfl) line i)
    (fun v hv ↦ ?_) h
  generalize x { m with iterations := m.iterations + 1 } = r at hv ⊢
  rcases r with ⟨a, n⟩ | ⟨span | e, n⟩ <;> cases hv

end Tracks

namespace Traced

variable {ε α β : Type} {w : Catalogue} {c : α → List Value} {d : β → List Value}

/-! ### Putting computations together -/

theorem pure {a : α} (h : ∀ v ∈ c a, v.Listed w) : Traced w c (Pure.pure a : EStateM ε _ α) :=
  fun _ hm ↦ .ok hm h

theorem done {a : α} : Traced w Discipline.nothing (Pure.pure a : EStateM ε Machine α) :=
  fun _ hm ↦ .done hm

theorem throw (e : ε) : Traced w c (throw e : EStateM ε Machine α) :=
  fun _ hm ↦ .error hm

/-- The rest starts with the catalogue that the first computation reached. -/
theorem bind {x : EStateM ε Machine α} {f : α → EStateM ε Machine β} (hx : Traced w c x)
    (hf : ∀ w' a, w.le w' → (∀ v ∈ c a, v.Listed w') → Traced w' d (f a)) :
    Traced w d (x >>= f) := by
  intro m hm
  obtain ⟨w', hle, hstore, hvalues⟩ := hx m hm
  cases hr : x m with
  | ok a n =>
    rw [hr] at hstore hvalues
    rw [bind_ok f hr]
    exact (hf w' a hle hvalues n hstore).after hle
  | error e n =>
    rw [hr] at hstore
    rw [bind_error f hr]
    exact .after hle (.error hstore)

/-- A new frame binds nothing, so nothing has to be listed. -/
theorem inNewFrame {x : ExecM α} (hx : Traced w c x) : Traced w c (inNewFrame x) := by
  intro m hm
  rw [inNewFrame_eq]
  exact .inFrame (hx m.enterBlock (hm.newFrame m.frame))

/-- The iterations to come start with the catalogue of this one. -/
theorem turn {x : ExecM α} {y : ExecM Unit} {line i : Nat} (hx : Traced w c x)
    (hy : ∀ w', w.le w' → Traced w' Discipline.nothing y) :
    Traced w Discipline.nothing (turn x line i y) := by
  rw [turn_eq]
  have hattempt : Traced w Discipline.nothing (attempt x line i) := fun m hm ↦
    .attempt (hx { m with iterations := m.iterations + 1 } hm)
  refine hattempt.bind fun w' left hle _ ↦ ?_
  split
  · exact .done
  · exact hy w' hle

/-- The parameters are bound to arguments that are listed. -/
theorem enter {f : Function} {args : List Value} {x : ExecM α} (hargs : ∀ v ∈ args, v.Listed w)
    (hx : Traced w c x) :
    Traced w c (parameterFrame f args >>= fun frame ↦ inCall f.name frame x) := by
  intro m hm
  have hbody : (m.enterBody f args).store.Numbered w :=
    (hm.newFrame f.closure).defineAll (fun b hb ↦ hargs b.2 (List.of_mem_zip hb).2) _
  rw [enter_eq]
  exact .whileActive (.settle (.inFrame (hx _ hbody)))

/-! ### Steps -/

/-- A step that leaves the store alone and gives no value. -/
theorem quiet {x : EStateM ε Machine α} (hstore : ∀ m, (reached (x m)).store = m.store) :
    Traced w Discipline.nothing x := by
  intro m hm
  refine ⟨w, .refl w, hstore m ▸ hm, fun v hv ↦ ?_⟩
  cases hx : x m <;> rw [hx] at hv <;> cases hv

theorem get : Traced w Discipline.nothing (get : EStateM ε Machine Machine) :=
  .quiet fun _ ↦ rfl

theorem tell (event : Event) : Traced w Discipline.nothing (EvalM.tell event) :=
  .quiet fun _ ↦ rfl

/-- What is written has no numbers. -/
theorem writeLine (text : String) (span : Span) :
    Traced w Discipline.nothing (writeLine text span) := by
  refine .quiet fun m ↦ ?_
  unfold EvalM.writeLine
  rcases m.sink.writeLine text with ⟨_ | _, sink⟩ <;> rfl

/-- Lines one after the other. -/
theorem writeLines (lines : List String) (span : Span) :
    Traced w Discipline.nothing (lines.forM fun line ↦ EvalM.writeLine line span) := by
  induction lines generalizing w with
  | nil => exact .done
  | cons line lines ih => exact .bind (.writeLine line span) fun _ _ _ _ ↦ ih

/-- The result of a check is a scalar, which has no number. -/
theorem check {span : Span} {x : Except Fault Value} (h : ∀ v, x = .ok v → v.isScalar = true) :
    Traced w (fun v ↦ [v]) (check span x) := by
  cases x with
  | ok v => exact .pure (List.forall_mem_singleton.2 (.of_isScalar (h v rfl)))
  | error fault => exact .throw _

/-- Counting a statement does not touch the store. -/
theorem tick (limits : Limits) (span : Span) : Traced w Discipline.nothing (tick limits span) := by
  have hcount : Traced w Discipline.nothing
      (modify fun m ↦ { m with steps := m.steps + 1 } : EvalM PUnit) := .quiet fun _ ↦ rfl
  refine hcount.bind fun _ _ _ _ ↦ ?_
  split
  · exact .done
  · refine .bind .get fun _ m _ _ ↦ ?_
    split
    · exact .throw _
    · exact .done

/-- An operation of the store that keeps its numbering. -/
theorem inStore {span : Span} {x : StoreM α}
    (h : ∀ s : Store, s.Numbered w → Store.Numbers w c (x s)) :
    Traced w c (inStore span x) := by
  intro m hm
  obtain ⟨w', hle, hstore, hvalues⟩ := h m.store hm
  unfold EvalM.inStore
  cases hx : x m.store with
  | ok a s =>
    rw [hx] at hstore
    exact .after hle (.ok hstore (hvalues a s hx))
  | error fault s =>
    rw [hx] at hstore
    exact .after hle (.error hstore)

/-- A new list is a new entry of the catalogue. -/
theorem newList {items : List Value} (h : ∀ v ∈ items, v.Listed w) :
    Traced w (fun v ↦ [v]) (onStore (Store.newList items)) := by
  intro m hm
  obtain ⟨hlist, hstore⟩ := hm.newList h
  exact .after (w.le_add _) (.ok hstore (List.forall_mem_singleton.2 hlist))

/-- What is bound is listed. -/
theorem readVar (name : String) (span : Span) : Traced w (fun v ↦ [v]) (readVar name span) := by
  intro m hm
  cases hv : m.store.frames.get? m.frame name with
  | none =>
    rw [readVar_none hv]
    exact .error hm
  | some v =>
    rw [readVar_some hv]
    exact .ok hm (List.forall_mem_singleton.2 (hm.get? hv))

/-- What is written was listed before. -/
theorem writeVar {name : String} {v : Value} {line : Nat} (hv : v.Listed w) :
    Traced w Discipline.nothing (writeVar name v line) := by
  intro m hm
  rw [writeVar_eq]
  exact .done (hm.assign hv m.frame name)

/-- What is bound was listed before. -/
theorem bindVar {name : String} {v : Value} (hv : v.Listed w) :
    Traced w Discipline.nothing (bindVar name v) := fun m hm ↦
  .done (hm.define hv m.frame name)

/-- The function is new, and the first to have its number. -/
theorem defineFunction (name : String) (params : List String) (body : List Stmt) :
    Traced w Discipline.nothing (defineFunction name params body) := by
  intro m hm
  obtain ⟨hf, hstore⟩ := hm.newFunction name params body m.frame
  exact .after (w.le_add _) (.done (hstore.define hf m.frame name))

/-- A throw changes objects, which are numbered apart. -/
theorem throwBall (zone : Nat) (target : PokemonId) (span : Span) :
    Traced w Discipline.nothing (throwBall zone target span) := by
  have hthrow : Traced w Discipline.nothing (EvalM.onStore (Store.throwBall zone target)) :=
    fun m hm ↦ .done (hm.of_eq rfl rfl)
  exact hthrow.bind fun _ _ _ _ ↦ .bind .get fun _ _ _ _ ↦ .bind (.tell _) fun _ _ _ _ ↦
    .writeLines _ span

end Traced

/-! ### All of evaluation -/

/-- Keeping numbers apart as a discipline. -/
def numberDiscipline : Discipline where
  World := Catalogue
  le := Catalogue.le
  holds := Value.Listed
  place _ := True
  act _ := True
  leave _ := True
  eval w x _ c := Traced w c x
  exec w _ x _ c := Traced w c x

theorem free_numberDiscipline : numberDiscipline.Free :=
  ⟨fun _ ↦ trivial, fun _ ↦ trivial, fun _ ↦ trivial⟩

/-- Every step keeps numbers apart. -/
theorem closed_numberDiscipline (limits : Limits) : numberDiscipline.Closed limits limits where
  trans := Catalogue.le.trans
  mono h hv := hv.mono h
  plain value := .of_isScalar (by cases value <;> rfl)
  keeps _ := free_numberDiscipline.body _
  pure := .pure
  bind := .bind
  raise _ _ := .throw _
  newList hvs := .newList hvs
  readVar _ := .readVar _ _
  writeVar hv := .writeVar hv
  applyUnary _ _ := .check fun _ h ↦ isScalar_unary h
  applyBinary _ _ _ := .bind .get fun _ _ _ _ ↦ .check fun _ h ↦ isScalar_binary h
  getProperty _ _ := .inStore fun _ hs ↦ .getProperty hs _ _
  setProperty _ _ _ _ := .inStore fun _ hs ↦ .setProperty hs _ _ _
  callMethod _ _ _ _ _ := .inStore fun _ hs ↦ .callMethod hs _ _ _ _
  callNative _ _ := .inStore fun _ hs ↦ .callNative hs _ _
  tick _ := .tick limits _
  printValue _ _ := .bind .get fun _ _ _ _ ↦ .writeLine _ _
  throwBall _ _ _ _ := .throwBall _ _ _
  bindVar _ hv := fun m hm ↦ .toExec (Traced.bindVar hv m hm)
  defineFunction _ _ := fun m hm ↦ .toExec (Traced.defineFunction _ _ _ m hm)
  toExec hx := fun m hm ↦ .toExec (hx m hm)
  execBind := .bind
  exit _ _ := .throw _
  inNewFrame hx := .inNewFrame (hx _ (.refl _))
  turn hx hy := .turn (hx _ (.refl _)) hy
  enter _ hargs hx := .enter hargs (hx _ (.refl _))

section Evaluation

variable (limits : Limits) (room : Nat) {w : Catalogue}

/-- A call gives what is listed, if the function and its arguments are. -/
theorem Traced.callValue {callee : Value} {args : List Value} (hcallee : callee.Listed w)
    (hargs : ∀ v ∈ args, v.Listed w) (span : Span) :
    Traced w (fun v ↦ [v]) (callValue (callWith limits room) callee args span) :=
  (closed_numberDiscipline limits).callValue ((closed_numberDiscipline limits).callWith rfl room)
    trivial hcallee hargs

/-- Statements keep numbers apart, with all the calls in them. -/
theorem Traced.execStmts (stmts : List Stmt) :
    Traced w (fun v ↦ [v]) (execStmts limits (callWith limits room) .null stmts) :=
  (closed_numberDiscipline limits).execStmts ((closed_numberDiscipline limits).callWith rfl room)
    stmts (free_numberDiscipline.body stmts) w ((closed_numberDiscipline limits).plain .null)

end Evaluation

end SafariScript
