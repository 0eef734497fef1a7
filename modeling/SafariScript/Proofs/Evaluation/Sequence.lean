import SafariScript.Proofs.Evaluation.Registers

/-!
# Programs one after the other

Without a budget of steps, a program that is two programs in a row does what the two do one after
the other. Between the two, an evaluation sets the registers to the global frame and no active
call, and starts to count again; so there are two things to see:

* the registers are what they are set to, because the first program has restored them;
* nothing depends on the counters, nor on the log: two evaluations that start from machines which
  **agree on everything else** (`Machine.Agrees`) end alike, in machines that agree again.

The second is a relation of the evaluator with itself, which goes through all of evaluation by the
lockstep principle (`agreeLockstep`). It is where the absence of a budget is used: a budget is a
comparison with the counter of steps.
-/

namespace SafariScript

open EvalM ExecM

/-- Two machines that differ at most in their counters and their log. -/
structure Machine.Agrees (m m' : Machine) : Prop where
  store : m.store = m'.store
  frame : m.frame = m'.frame
  active : m.active = m'.active
  sink : m.sink = m'.sink

theorem Machine.Agrees.refl (m : Machine) : m.Agrees m := ⟨rfl, rfl, rfl, rfl⟩

/-- The same value or the same error, in machines that agree. -/
inductive Alike {ε α : Type} :
    EStateM.Result ε Machine α → EStateM.Result ε Machine α → Prop
  | ok (a : α) {m m' : Machine} : m.Agrees m' → Alike (.ok a m) (.ok a m')
  | error (e : ε) {m m' : Machine} : m.Agrees m' → Alike (.error e m) (.error e m')

theorem Alike.refl {ε α : Type} (r : EStateM.Result ε Machine α) : Alike r r := by
  cases r with
  | ok a m => exact .ok a (.refl m)
  | error e m => exact .error e (.refl m)

/-- Outcomes that are alike are both values or both errors. -/
theorem Alike.cases {ε α : Type} {r r' : EStateM.Result ε Machine α} (h : Alike r r') :
    (∃ a m m', r = .ok a m ∧ r' = .ok a m' ∧ m.Agrees m') ∨
      ∃ e m m', r = .error e m ∧ r' = .error e m' ∧ m.Agrees m' := by
  cases h with
  | ok a hm => exact .inl ⟨a, _, _, rfl, rfl, hm⟩
  | error e hm => exact .inr ⟨e, _, _, rfl, rfl, hm⟩

/-- From machines that agree, the two computations end alike. -/
def EndAlike {ε α : Type} (x x' : EStateM ε Machine α) : Prop :=
  ∀ ⦃m m' : Machine⦄, m.Agrees m' → Alike (x m) (x' m')

namespace EndAlike

variable {ε α β : Type}

/-! ### Putting computations together -/

theorem pure (a : α) : EndAlike (Pure.pure a : EStateM ε Machine α) (Pure.pure a) :=
  fun _ _ h ↦ .ok a h

theorem throw (e : ε) : EndAlike (throw e : EStateM ε Machine α) (throw e) :=
  fun _ _ h ↦ .error e h

/-- The rest starts from machines that agree. -/
theorem bind {x x' : EStateM ε Machine α} {f f' : α → EStateM ε Machine β} (hx : EndAlike x x')
    (hf : ∀ a, EndAlike (f a) (f' a)) : EndAlike (x >>= f) (x' >>= f') := by
  intro m m' h
  obtain ⟨a, n, n', hr, hr', hn⟩ | ⟨e, n, n', hr, hr', hn⟩ := (hx h).cases
  · rw [bind_ok f hr, bind_ok f' hr']
    exact hf a hn
  · rw [bind_error f hr, bind_error f' hr']
    exact .error e hn

/-- What looks at the machine may look at anything that the machines agree on. -/
theorem look {f f' : Machine → EStateM ε Machine β}
    (hf : ∀ ⦃m m'⦄, m.Agrees m' → EndAlike (f m) (f' m')) : EndAlike (get >>= f) (get >>= f') :=
  fun _ _ h ↦ hf h h

/-- A change of the machine that keeps machines in agreement. -/
theorem modify {f : Machine → Machine} (hf : ∀ ⦃m m'⦄, m.Agrees m' → (f m).Agrees (f m')) :
    EndAlike (modify f : EStateM ε Machine PUnit) (modify f) :=
  fun _ _ h ↦ .ok () (hf h)

/-- The outcomes are the same, so they stay the same as part of a statement. -/
theorem toExec {x x' : EvalM α} (hx : EndAlike x x') : EndAlike x.toExec x'.toExec := by
  intro m m' h
  obtain ⟨a, n, n', hr, hr', hn⟩ | ⟨e, n, n', hr, hr', hn⟩ := (hx h).cases
  · rw [toExec_ok hr, toExec_ok hr']
    exact .ok a hn
  · rw [toExec_error hr, toExec_error hr']
    exact .error _ hn

/-- Both bodies are left at the same place or neither is. -/
theorem settle {x x' : ExecM α} (hx : EndAlike x x') : EndAlike x.settle x'.settle := by
  intro m m' h
  obtain ⟨a, n, n', hr, hr', hn⟩ | ⟨span | e, n, n', hr, hr', hn⟩ := (hx h).cases
  · rw [settle_ok hr, settle_ok hr']
    exact .ok a hn
  · rw [settle_exit hr, settle_exit hr']
    exact .error _ hn
  · rw [settle_error hr, settle_error hr']
    exact .error e hn

/-! ### Brackets -/

/-- The machines agree on the frame to which they go back. -/
theorem inFrame {x x' : ExecM α} (hx : EndAlike x x') (frame : FrameId) :
    EndAlike (inFrame frame x) (inFrame frame x') := by
  intro m m' h
  have hm : Machine.Agrees { m with frame := frame } { m' with frame := frame } :=
    ⟨h.store, rfl, h.active, h.sink⟩
  unfold ExecM.inFrame
  obtain ⟨a, n, n', hr, hr', hn⟩ | ⟨e, n, n', hr, hr', hn⟩ := (hx hm).cases
  · rw [hr, hr']
    exact .ok a ⟨hn.store, h.frame, hn.active, hn.sink⟩
  · rw [hr, hr']
    exact .error e ⟨hn.store, h.frame, hn.active, hn.sink⟩

/-- The machines agree on the number of active calls. -/
theorem whileActive {x x' : EvalM α} (hx : EndAlike x x') :
    EndAlike (whileActive x) (whileActive x') := by
  intro m m' h
  have hm : Machine.Agrees { m with active := m.active + 1 } { m' with active := m'.active + 1 } :=
    ⟨h.store, h.frame, congrArg (· + 1) h.active, h.sink⟩
  unfold EvalM.whileActive
  obtain ⟨a, n, n', hr, hr', hn⟩ | ⟨e, n, n', hr, hr', hn⟩ := (hx hm).cases
  · rw [hr, hr']
    exact .ok a ⟨hn.store, hn.frame, congrArg (· - 1) hn.active, hn.sink⟩
  · rw [hr, hr']
    exact .error e ⟨hn.store, hn.frame, congrArg (· - 1) hn.active, hn.sink⟩

/-- After an error both machines are in the global frame. -/
theorem backToGlobal {x x' : EvalM α} (hx : EndAlike x x') :
    EndAlike (backToGlobal x) (backToGlobal x') := by
  intro m m' h
  unfold EvalM.backToGlobal
  obtain ⟨a, n, n', hr, hr', hn⟩ | ⟨e, n, n', hr, hr', hn⟩ := (hx h).cases
  · rw [hr, hr']
    exact .ok a hn
  · rw [hr, hr']
    exact .error e ⟨hn.store, rfl, hn.active, hn.sink⟩

/-- The counts of iterations may differ, but nothing looks at them. -/
theorem turn {x x' : ExecM α} {y y' : ExecM Unit} (line i : Nat) (hx : EndAlike x x')
    (hy : EndAlike y y') : EndAlike (turn x line i y) (turn x' line i y') := by
  intro m m' h
  have hm : Machine.Agrees { m with iterations := m.iterations + 1 }
      { m' with iterations := m'.iterations + 1 } := ⟨h.store, h.frame, h.active, h.sink⟩
  unfold ExecM.turn
  obtain ⟨a, n, n', hr, hr', hn⟩ | ⟨span | e, n, n', hr, hr', hn⟩ := (hx hm).cases
  · rw [hr, hr']
    exact hy hn
  · rw [hr, hr']
    exact .ok () ⟨hn.store, hn.frame, hn.active, hn.sink⟩
  · rw [hr, hr']
    exact .error _ hn

/-! ### Steps -/

/-- The stores are the same. -/
theorem onStore (change : Store → α × Store) : EndAlike (onStore change) (onStore change) := by
  intro m m' h
  show Alike (.ok (change m.store).1 { m with store := (change m.store).2 })
    (.ok (change m'.store).1 { m' with store := (change m'.store).2 })
  rw [h.store]
  exact .ok _ ⟨rfl, h.frame, h.active, h.sink⟩

/-- The stores are the same, so both operations fail or neither. -/
theorem inStore (span : Span) (x : StoreM α) : EndAlike (inStore span x) (inStore span x) := by
  intro m m' h
  unfold EvalM.inStore
  rw [h.store]
  cases x m'.store with
  | ok a store => exact .ok a ⟨rfl, h.frame, h.active, h.sink⟩
  | error fault store => exact .error _ ⟨rfl, h.frame, h.active, h.sink⟩

/-- What is told makes no difference. -/
theorem tell (event event' : Event) : EndAlike (EvalM.tell event) (EvalM.tell event') :=
  fun _ _ h ↦ .ok () ⟨h.store, h.frame, h.active, h.sink⟩

/-- The sinks are the same, so both accept the line or both refuse it. -/
theorem writeLine (text : String) (span : Span) :
    EndAlike (writeLine text span) (writeLine text span) := by
  intro m m' h
  unfold EvalM.writeLine
  rw [h.sink]
  rcases m'.sink.writeLine text with ⟨_ | _, sink⟩
  · exact .error _ ⟨h.store, h.frame, h.active, rfl⟩
  · exact .ok () ⟨h.store, h.frame, h.active, rfl⟩

theorem check (span : Span) (x : Except Fault α) : EndAlike (check span x) (check span x) := by
  cases x with
  | ok a => exact .pure a
  | error fault => exact .throw _

/-- Without a budget a statement is counted and nothing else. -/
theorem tick {limits : Limits} (hl : limits.maxSteps = none) (span : Span) :
    EndAlike (tick limits span) (tick limits span) := by
  unfold SafariScript.tick
  rw [hl]
  exact .bind (.modify fun _ _ h ↦ ⟨h.store, h.frame, h.active, h.sink⟩) fun _ ↦ .pure _

/-- The frames are the same, so the name stands for the same. -/
theorem readVar (name : String) (span : Span) :
    EndAlike (readVar name span) (readVar name span) := by
  refine .look fun m m' h ↦ ?_
  rw [h.store, h.frame]
  split
  · exact .pure _
  · exact .throw _

/-- The assignment changes the same frame, and who is told of it makes no difference. -/
theorem writeVar (name : String) (v : Value) (line : Nat) :
    EndAlike (writeVar name v line) (writeVar name v line) := by
  refine .look fun m m' h ↦ ?_
  rw [h.frame]
  refine .bind (.onStore _) fun isNew ↦ ?_
  split
  · exact .tell _ _
  · exact .pure _

theorem bindVar (name : String) (v : Value) : EndAlike (bindVar name v) (bindVar name v) := by
  refine .modify fun m m' h ↦ ⟨?_, h.frame, h.active, h.sink⟩
  show m.store.define m.frame name v = m'.store.define m'.frame name v
  rw [h.store, h.frame]

/-- The zone and the target are the same, and so is the report. -/
theorem throwBall (zone : Nat) (target : PokemonId) (span : Span) :
    EndAlike (throwBall zone target span) (throwBall zone target span) := by
  refine .bind (.onStore _) fun outcome ↦ .look fun m m' h ↦ ?_
  rw [h.store]
  refine .bind (.tell _ _) fun _ ↦ ?_
  induction outcome.messages (m'.store.pokemonAt target).name with
  | nil => exact .pure _
  | cons line lines ih => exact .bind (.writeLine line span) fun _ ↦ ih

end EndAlike

/-! ### All of evaluation -/

/-- Ending alike, as a relation between two evaluations. -/
def agreeLockstep : Lockstep where
  eval := EndAlike
  exec := EndAlike

/-- Without a budget no step looks at the counters. -/
theorem closed_agreeLockstep {limits : Limits} (hl : limits.maxSteps = none) :
    agreeLockstep.Closed limits limits where
  pure := .pure
  bind := .bind
  raise _ _ := .throw _
  newList _ := .onStore _
  readVar := .readVar
  writeVar := .writeVar
  -- Where a step looks at the machine, it looks at what the machines agree on.
  applyBinary op l r span := .look fun m m' h ↦ by
    rw [show m.text = m'.text from congrArg Store.text h.store]
    exact .check span _
  getProperty span _ _ := .inStore span _
  setProperty span _ _ _ := .inStore span _
  callMethod span _ _ _ _ := .inStore span _
  callNative span _ _ := .inStore span _
  tick := .tick hl
  bindVar := .bindVar
  printValue v span := .look fun m m' h ↦ by
    rw [show m.text v = m'.text v from congrArg (Store.text · v) h.store]
    exact .writeLine _ span
  defineFunction name params body := .look fun m m' h ↦ by
    rw [h.frame]
    exact .bind (.onStore _) fun f ↦ .bindVar name f
  throwBall := .throwBall
  toExec := .toExec
  execBind := .bind
  exit _ := .throw _
  inNewFrame hx := .look fun m m' h ↦ by
    rw [h.frame]
    exact .bind (.toExec (.onStore _)) fun frame ↦ .inFrame hx frame
  turn := .turn
  enter f args _ _ hx := .bind (.onStore _) fun frame ↦ .whileActive <|
    .look fun _ _ _ ↦ .bind (.tell _ _) fun _ ↦ .settle (.inFrame hx frame)

/-! ### Programs -/

/-- A program ends alike from machines that agree. -/
theorem EndAlike.runProgram {limits : Limits} (hl : limits.maxSteps = none) (program : Program) :
    EndAlike (runProgram limits program) (runProgram limits program) := by
  have hclosed := closed_agreeLockstep hl
  induction program with
  | nil => exact .pure _
  | cons s ss ih =>
    exact .bind (.backToGlobal (.settle (hclosed.execStmt (hclosed.callWith rfl _) s))) fun _ ↦ ih

/-- Two programs in a row, as one body. -/
theorem runProgram_append (limits : Limits) (p q : Program) :
    runProgram limits (p ++ q) = runProgram limits p >>= fun _ ↦ runProgram limits q := by
  induction p with
  | nil => rfl
  | cons s ss ih =>
    rw [List.cons_append, runProgram, runProgram, ih, bind_assoc]

/-- A program that comes to its end has left the registers as it found them. -/
theorem registers_runProgram {limits : Limits} {program : Program} {m m' : Machine}
    (hm : m.frame = globalFrame) (h : runProgram limits program m = .ok () m') :
    m'.registers = m.registers := by
  have hkeep : KeepsRegisters (settle (execStmts limits
      (callWith limits limits.maxCallDepth) .null program) >>= fun _ ↦ pure ()) :=
    .bind (.settle (.execStmts limits _ _ _)) fun _ ↦ .pure _
  have hr := hkeep m
  rw [← runProgram_eq limits program .null hm, h] at hr
  exact hr

/-- The machine on which a second program is evaluated agrees with the one on which a longer
program would just go on. -/
theorem agrees_restart {m : Machine} (hm : m.registers = (globalFrame, 0)) (event : Event) :
    m.Agrees (m.tell event).restart :=
  ⟨rfl, congrArg Prod.fst hm, congrArg Prod.snd hm, rfl⟩

/-- How an evaluation ends: what its statements come to, and then an event. -/
theorem evaluate_eq (limits : Limits) (program : Program) (m : Machine) :
    evaluate limits program m = (runProgram limits program >>= fun _ ↦ do
      tell (.evaluated program.length (← get).steps)) m.restart := rfl

/-- **Programs in sequence.** Without a budget of steps, evaluating a program that is two programs
in a row gives the outcome of evaluating the first and then, only if that succeeded, the second:
the same success or the same error, with the same store and the same output. In particular, if the
second fails, the evaluation of both fails with its error, in the store and with the output that
it left on top of those of the first. -/
theorem evaluate_append_alike {limits : Limits} (hl : limits.maxSteps = none) (p q : Program)
    (m : Machine) :
    Alike (evaluate limits (p ++ q) m) ((evaluate limits p >>= fun _ ↦ evaluate limits q) m) ∧
      ∀ m₁ e m₂, evaluate limits p m = .ok () m₁ → evaluate limits q m₁ = .error e m₂ →
        ∃ m₃, evaluate limits (p ++ q) m = .error e m₃ ∧ m₃.Agrees m₂ := by
  have halike : Alike (evaluate limits (p ++ q) m)
      ((evaluate limits p >>= fun _ ↦ evaluate limits q) m) := by
    rw [evaluate_eq, runProgram_append, bind_assoc]
    cases hp : runProgram limits p m.restart with
    | error e m₁ =>
      have hpe : evaluate limits p m = .error e m₁ := by rw [evaluate_eq, bind_error _ hp]
      rw [bind_error _ hp, bind_error _ hpe]
      exact .refl _
    | ok u m₁ =>
      have hpo : evaluate limits p m = .ok () (m₁.tell (.evaluated p.length m₁.steps)) := by
        rw [evaluate_eq, bind_ok _ hp]
        rfl
      -- The first program has left the registers as the second evaluation would set them.
      have hm₁ : m₁.registers = (globalFrame, 0) := registers_runProgram rfl hp
      rw [bind_ok _ hp, bind_ok _ hpo, evaluate_eq]
      refine (EndAlike.runProgram hl q).bind (fun _ ↦ ?_) (agrees_restart hm₁ _)
      exact .look fun _ _ _ ↦ .tell _ _
  refine ⟨halike, fun m₁ e m₂ hp hq ↦ ?_⟩
  rw [bind_ok _ hp, hq] at halike
  obtain ⟨a, n, n', hr, hr', hn⟩ | ⟨e', n, n', hr, hr', hn⟩ := halike.cases
  · cases hr'
  · cases hr'
    exact ⟨n, hr, hn⟩

/-- Two programs that print, the second of which then calls what is no function. -/
theorem evaluate_append_alike_not_callable :
    let p : Program := [.print (.literal (.str "in") default) default]
    let q : Program := [.print (.literal (.str "out") default) default,
      .expr (.call (.literal .null default) [] default)]
    ∃ m₁ m₂ m₃ : Machine,
      evaluate {} p (.new (.new none)) = .ok () m₁ ∧
      evaluate {} q m₁ = .error ⟨.notCallable .null, default⟩ m₂ ∧
      evaluate {} (p ++ q) (.new (.new none)) = .error ⟨.notCallable .null, default⟩ m₃ ∧
      m₃.Agrees m₂ := by
  intro p q
  have hp : evaluate {} p (.new (.new none)) =
      .ok () (reached (evaluate {} p (.new (.new none)))) := rfl
  have hq : evaluate {} q (reached (evaluate {} p (.new (.new none)))) =
      .error ⟨.notCallable .null, default⟩
        (reached (evaluate {} q (reached (evaluate {} p (.new (.new none)))))) := rfl
  obtain ⟨m₃, hpq, hm₃⟩ := (evaluate_append_alike rfl p q (.new (.new none))).2 _ _ _ hp hq
  exact ⟨_, _, m₃, hp, hq, hpq, hm₃⟩

end SafariScript
