import SafariScript.Proofs.Evaluation.Brackets
import SafariScript.Proofs.Evaluation.Lockstep
import SafariScript.Proofs.Machine.Output

/-!
# Evaluations that are cut off

A limit on evaluation should do one of two things: nothing, or cut the evaluation off. Here two
evaluations of one program from one machine are compared, of which the second has the tighter
limit. A `Cut` says which counts of started statements **both** evaluations reach, which only the
first one reaches, and how the second one stops. Then either both have the same outcome
(`Compared.same`), or the second one was stopped by a fault of its own, and what it had written up
to then is where the output of the first one begins (`Compared.cutOff`).

The comparison passes through sequences because **evaluation only moves on** (`Precedes`):
statements are counted up and output is appended. So when the second evaluation was stopped in the
first part of a sequence, the rest that the first one goes through keeps the comparison. And it
passes through repetitions and calls because these absorb and convert nothing but the signal of
leaving; an error travels to the end (`around`).
-/

namespace SafariScript

open EvalM ExecM

/-! ### Progress -/

namespace Machine

/-- The machine `m'` is further on than `m`: it has counted and written at least as much. -/
structure Precedes (m m' : Machine) : Prop where
  steps : m.steps ≤ m'.steps
  output : m.sink.bytes <+: m'.sink.bytes

namespace Precedes

variable {m m' m'' : Machine}

theorem trans (h : m.Precedes m') (h' : m'.Precedes m'') : m.Precedes m'' :=
  ⟨Nat.le_trans h.steps h'.steps, h.output.trans h'.output⟩

/-- A step that neither counts nor writes leaves the machine where it is. -/
theorem of_eq (hsteps : m.steps = m'.steps) (hsink : m.sink = m'.sink) : m.Precedes m' :=
  ⟨Nat.le_of_eq hsteps, hsink ▸ List.prefix_refl _⟩

end Precedes

end Machine

/-! ### Cuts -/

/-- When and how the second of two evaluations is cut off, by the number of started statements. -/
structure Cut where
  /-- The counts that both evaluations reach. -/
  within : Nat → Prop
  /-- The counts that only the first evaluation reaches. -/
  beyond : Nat → Prop
  /-- The fault that stops the second evaluation, and the count at which it does. -/
  stopped : Fault → Nat → Prop
  /-- Once beyond the cut, evaluation stays there. -/
  beyond_mono : ∀ {a b : Nat}, a ≤ b → beyond a → beyond b

namespace Cut

variable {ε ε' α β : Type} (cut : Cut)

/-- The outcome of the second evaluation beside the outcome `r` of the first: the same, or that it
was stopped earlier. An error is raised among outcomes of the kind at hand by `raised`. -/
inductive Compared (raised : RuntimeError → ε) (r : EStateM.Result ε Machine α) :
    EStateM.Result ε Machine α → Prop
  | same : cut.within (reached r).steps → Compared raised r r
  | cutOff {e : RuntimeError} {m' : Machine} : cut.beyond (reached r).steps →
    cut.stopped e.fault m'.steps → m'.sink.bytes <+: (reached r).sink.bytes →
    Compared raised r (.error (raised e) m')

/-- The first computation only moves on, and the second does the same unless it is cut off. -/
structure Shortens (raised : RuntimeError → ε) (x x' : EStateM ε Machine α) : Prop where
  precedes : ∀ m : Machine, m.Precedes (reached (x m))
  compared : ∀ m : Machine, cut.within m.steps → cut.Compared raised (x m) (x' m)

variable {cut} {raised : RuntimeError → ε} {raised' : RuntimeError → ε'}

/-- Where the first evaluation moves on, the second one stays stopped. -/
theorem Compared.of_precedes {r : EStateM.Result ε Machine α} {r₂ : EStateM.Result ε' Machine β}
    {e : RuntimeError} {m' : Machine} (hbeyond : cut.beyond (reached r).steps)
    (hstop : cut.stopped e.fault m'.steps) (hout : m'.sink.bytes <+: (reached r).sink.bytes)
    (h : (reached r).Precedes (reached r₂)) : cut.Compared raised' r₂ (.error (raised' e) m') :=
  .cutOff (cut.beyond_mono h.steps hbeyond) hstop (hout.trans h.output)

namespace Shortens

/-! ### Putting computations together -/

/-- What starts no statement is not cut off. -/
theorem still {x : EStateM ε Machine α} (hsteps : ∀ m, (reached (x m)).steps = m.steps)
    (hout : ∀ m, m.sink.bytes <+: (reached (x m)).sink.bytes) : cut.Shortens raised x x where
  precedes m := ⟨Nat.le_of_eq (hsteps m).symm, hout m⟩
  compared m hm := .same (by rwa [hsteps m])

/-- What neither starts a statement nor writes is not cut off. -/
theorem quiet {x : EStateM ε Machine α} (hsteps : ∀ m, (reached (x m)).steps = m.steps)
    (hsink : ∀ m, (reached (x m)).sink = m.sink) : cut.Shortens raised x x :=
  .still hsteps fun m ↦ hsink m ▸ List.prefix_refl _

theorem pure (a : α) : cut.Shortens raised (Pure.pure a) (Pure.pure a) :=
  .quiet (fun _ ↦ rfl) fun _ ↦ rfl

theorem throw (e : ε) : cut.Shortens raised (throw e : EStateM ε Machine α) (throw e) :=
  .quiet (fun _ ↦ rfl) fun _ ↦ rfl

theorem get : cut.Shortens raised (get : EStateM ε Machine Machine) get :=
  .quiet (fun _ ↦ rfl) fun _ ↦ rfl

/-- If the first part was cut off, the rest of the longer evaluation moves on beyond the cut. -/
theorem bind {x x' : EStateM ε Machine α} {f f' : α → EStateM ε Machine β}
    (hx : cut.Shortens raised x x') (hf : ∀ a, cut.Shortens raised (f a) (f' a)) :
    cut.Shortens raised (x >>= f) (x' >>= f') := by
  -- the first computation moves on also after its first part
  have hafter : ∀ m, (reached (x m)).Precedes (reached ((x >>= f) m)) := by
    intro m
    cases hr : x m with
    | ok a n =>
      rw [bind_ok f hr]
      exact (hf a).precedes n
    | error e n =>
      rw [bind_error f hr]
      exact .of_eq rfl rfl
  refine ⟨fun m ↦ (hx.precedes m).trans (hafter m), fun m hm ↦ ?_⟩
  have hc := hx.compared m hm
  generalize hr' : x' m = r' at hc
  cases hc with
  | same hn =>
    cases hr : x m with
    | ok a n =>
      rw [hr] at hn hr'
      rw [bind_ok f hr, bind_ok f' hr']
      exact (hf a).compared n hn
    | error e n =>
      rw [hr] at hn hr'
      rw [bind_error f hr, bind_error f' hr']
      exact .same hn
  | cutOff hbeyond hstop hout =>
    rw [bind_error f' hr']
    exact .of_precedes hbeyond hstop hout (hafter m)

/-- A bracket around a computation, which passes errors on and neither counts nor writes. -/
theorem around {x x' : EStateM ε Machine α} (b : Bracket ε α ε' β) (hsteps : b.Keeps Machine.steps)
    (hsink : b.Keeps Machine.sink)
    (herror : ∀ m e n, ∃ n', b.leave m (.error (raised e) n) = .error (raised' e) n')
    (hx : cut.Shortens raised x x') : cut.Shortens raised' (b.run x) (b.run x') := by
  have hback : ∀ m r, (reached r).Precedes (reached (b.leave m r)) := fun m r ↦
    .of_eq (hsteps.leave m r).symm (hsink.leave m r).symm
  constructor
  · intro m
    have hin : m.Precedes (b.enter m) := .of_eq (hsteps.enter m).symm (hsink.enter m).symm
    exact (hin.trans (hx.precedes (b.enter m))).trans (hback m _)
  · intro m hm
    have hc := hx.compared (b.enter m) (by rwa [hsteps.enter])
    unfold Bracket.run
    generalize x' (b.enter m) = r' at hc
    cases hc with
    | same hn => exact .same (by rwa [hsteps.leave])
    | @cutOff e n hbeyond hstop hout =>
      obtain ⟨n', hn'⟩ := herror m e n
      have hsteps' := hsteps.leave m (.error (raised e) n)
      have hsink' := hsink.leave m (.error (raised e) n)
      rw [hn'] at hsteps' hsink' ⊢
      refine .of_precedes hbeyond ?_ ?_ (hback m _)
      · show cut.stopped e.fault n'.steps
        rwa [show n'.steps = n.steps from hsteps']
      · rwa [show n'.sink = n.sink from hsink']

/-- A statement is cut off where its expression is. -/
theorem toExec {x x' : EvalM α} (hx : cut.Shortens id x x') :
    cut.Shortens Signal.error x.toExec x'.toExec :=
  hx.around .toExec .toExec .toExec fun _ _ n ↦ ⟨n, rfl⟩

/-- The border of a body changes the signal, which the cut is not. -/
theorem settle {x x' : ExecM α} (hx : cut.Shortens Signal.error x x') :
    cut.Shortens id x.settle x'.settle :=
  hx.around .settle .settle .settle fun _ _ n ↦ ⟨n, rfl⟩

/-- The current frame has nothing to do with the count. -/
theorem inFrame {x x' : ExecM α} (hx : cut.Shortens Signal.error x x') (frame : FrameId) :
    cut.Shortens Signal.error (inFrame frame x) (inFrame frame x') :=
  hx.around (.inFrame frame) (.inFrame (fun _ _ ↦ rfl) frame) (.inFrame (fun _ _ ↦ rfl) frame)
    fun _ _ _ ↦ ⟨_, rfl⟩

/-- Calls are not counted as statements. -/
theorem whileActive {x x' : EvalM α} (hx : cut.Shortens id x x') :
    cut.Shortens id (whileActive x) (whileActive x') :=
  hx.around .whileActive (.whileActive fun _ _ ↦ rfl) (.whileActive fun _ _ ↦ rfl)
    fun _ _ _ ↦ ⟨_, rfl⟩

/-- The return to the global frame has nothing to do with the count. -/
theorem backToGlobal {x x' : EvalM α} (hx : cut.Shortens id x x') :
    cut.Shortens id (backToGlobal x) (backToGlobal x') :=
  hx.around .backToGlobal (.backToGlobal fun _ _ ↦ rfl) (.backToGlobal fun _ _ ↦ rfl)
    fun _ _ _ ↦ ⟨_, rfl⟩

/-- To leave ends one iteration; an error is passed on, also the one that stops it. -/
theorem attempt {x x' : ExecM α} (hx : cut.Shortens Signal.error x x') (line i : Nat) :
    cut.Shortens Signal.error (attempt x line i) (attempt x' line i) :=
  hx.around (.attempt line i) (.attempt (fun _ _ ↦ rfl) (fun _ _ ↦ rfl) line i)
    (.attempt (fun _ _ ↦ rfl) (fun _ _ ↦ rfl) line i) fun _ _ n ↦ ⟨n, rfl⟩

/-! ### Steps -/

/-- The store has nothing to do with the count. -/
theorem onStore (change : Store → α × Store) :
    cut.Shortens id (onStore change) (onStore change) :=
  .quiet (fun _ ↦ rfl) fun _ ↦ rfl

/-- An operation of the store fails in both evaluations or in neither. -/
theorem inStore (span : Span) (x : StoreM α) :
    cut.Shortens id (inStore span x) (inStore span x) := by
  refine .quiet (fun m ↦ ?_) fun m ↦ ?_ <;>
    · unfold EvalM.inStore
      cases x m.store <;> rfl

theorem tell (event : Event) : cut.Shortens id (EvalM.tell event) (EvalM.tell event) :=
  .quiet (fun _ ↦ rfl) fun _ ↦ rfl

/-- What is written only grows. -/
theorem writeLine (text : String) (span : Span) :
    cut.Shortens id (writeLine text span) (writeLine text span) := by
  refine .still (fun m ↦ ?_) fun m ↦ ?_
  · unfold EvalM.writeLine
    rcases m.sink.writeLine text with ⟨_ | _, sink⟩ <;> rfl
  · have hout : m.sink.bytes <+: (m.sink.writeLine text).2.bytes := m.sink.bytes_write _
    unfold EvalM.writeLine
    rcases hw : m.sink.writeLine text with ⟨_ | _, sink⟩ <;> rwa [hw] at hout

theorem bindVar (name : String) (v : Value) :
    cut.Shortens id (bindVar name v) (bindVar name v) :=
  .quiet (fun _ ↦ rfl) fun _ ↦ rfl

end Shortens

/-! ### All of evaluation -/

/-- The comparison as a relation between two evaluations. -/
def lockstep (cut : Cut) : Lockstep where
  eval := cut.Shortens id
  exec := cut.Shortens Signal.error

/-- If the counting of a statement is the only step at which the second evaluation may be stopped,
then it does what the first one does, unless it is cut off. -/
theorem closed_lockstep {limits limits' : Limits}
    (htick : ∀ span, cut.Shortens id (tick limits span) (tick limits' span)) :
    cut.lockstep.Closed limits limits' := by
  have helementary : cut.lockstep.Elementary limits limits' :=
    { pure := .pure
      bind := .bind
      raise := fun _ _ ↦ .throw _
      get := .get
      onStore := .onStore
      inStore := .inStore
      tell := fun _ ↦ .tell _
      writeLine := .writeLine
      bindVar := .bindVar
      tick := htick
      toExec := .toExec
      execBind := .bind
      exit := fun _ ↦ .throw _
      inFrame := .inFrame
      attempt := .attempt }
  exact helementary.closed .whileActive .settle .tell

section Programs

variable {limits limits' : Limits}

/-- A program is cut off where the counting of its statements is. -/
theorem Shortens.runProgram
    (htick : ∀ span, cut.Shortens id (tick limits span) (tick limits' span))
    (hd : limits.maxCallDepth = limits'.maxCallDepth) (program : Program) :
    cut.Shortens id (runProgram limits program) (runProgram limits' program) := by
  have hclosed := closed_lockstep htick
  induction program with
  | nil => exact .pure ()
  | cons s ss ih =>
    have hcall := hclosed.callWith hd limits.maxCallDepth
    have hs := hclosed.execStmt hcall s
    rw [SafariScript.runProgram, SafariScript.runProgram, ← hd]
    exact .bind (.backToGlobal (.settle hs)) fun _ ↦ ih

/-- The comparison of two evaluations of a program: it is one from the machine in which registers
and counters are set back, where no statement has been started. -/
theorem compared_evaluate
    (htick : ∀ span, cut.Shortens id (tick limits span) (tick limits' span))
    (hd : limits.maxCallDepth = limits'.maxCallDepth) (hzero : cut.within 0) (program : Program)
    (m : Machine) :
    m.restart.Precedes (reached (evaluate limits program m)) ∧
      cut.Compared id (evaluate limits program m) (evaluate limits' program m) := by
  have hrun := Shortens.runProgram htick hd program
  have hall : cut.Shortens id
      (SafariScript.runProgram limits program >>= fun _ ↦ do
        EvalM.tell (.evaluated program.length (← MonadState.get).steps))
      (SafariScript.runProgram limits' program >>= fun _ ↦ do
        EvalM.tell (.evaluated program.length (← MonadState.get).steps)) :=
    .bind hrun fun _ ↦ .bind .get fun _ ↦ .tell _
  exact ⟨hall.precedes m.restart, hall.compared m.restart hzero⟩

end Programs

end Cut

end SafariScript
