import SafariScript.Proofs.Evaluation.Registers
import SafariScript.Proofs.Machine.Output

/-!
# What evaluation prints

A sink is a store of bytes. When it has no bound and holds a text, then evaluation only **adds
text** to it, whatever is evaluated and however it ends (`Prints`): so a sink that was empty holds a
text at any time, and what was printed in between is the text by which it grew
(`Sink.textFrom_holding`).
-/

namespace SafariScript

open EvalM ExecM

/-- Started with a sink without a bound that holds a text, the computation adds text to it. -/
def Prints {ε α : Type} (x : EStateM ε Machine α) : Prop :=
  ∀ m s, m.sink = .holding s → ∃ t, (reached (x m)).sink = .holding (s ++ t)

namespace Prints

variable {ε ε' α β : Type}

/-! ### Putting computations together -/

/-- A computation that leaves the sink alone. -/
theorem quiet {x : EStateM ε Machine α} (h : ∀ m, (reached (x m)).sink = m.sink) : Prints x := by
  intro m s hm
  exact ⟨"", by rw [h m, hm, String.append_empty]⟩

/-- A bracket that leaves the sink alone. -/
theorem around {x : EStateM ε Machine α} (hx : Prints x) (b : Bracket ε α ε' β)
    (hsink : b.Keeps Machine.sink) : Prints (b.run x) := by
  intro m s hm
  obtain ⟨t, ht⟩ := hx (b.enter m) s ((hsink.enter m).trans hm)
  exact ⟨t, (hsink.leave m _).trans ht⟩

theorem pure (a : α) : Prints (Pure.pure a : EStateM ε Machine α) := .quiet fun _ ↦ rfl

theorem throw (e : ε) : Prints (throw e : EStateM ε Machine α) := .quiet fun _ ↦ rfl

theorem get : Prints (get : EStateM ε Machine Machine) := .quiet fun _ ↦ rfl

/-- What the two parts add is added one after the other. -/
theorem bind {x : EStateM ε Machine α} {f : α → EStateM ε Machine β} (hx : Prints x)
    (hf : ∀ a, Prints (f a)) : Prints (x >>= f) := by
  intro m s hm
  obtain ⟨t, ht⟩ := hx m s hm
  cases hr : x m with
  | ok a n =>
    rw [hr] at ht
    rw [bind_ok f hr]
    obtain ⟨t', ht'⟩ := hf a n (s ++ t) ht
    exact ⟨t ++ t', by rw [ht', String.append_assoc]⟩
  | error e n =>
    rw [hr] at ht
    rw [bind_error f hr]
    exact ⟨t, ht⟩

section Brackets

variable {x : EvalM α} {y : ExecM α}

/-- A statement prints what its expression prints. -/
theorem toExec (hx : Prints x) : Prints x.toExec := hx.around .toExec .toExec

/-- The border of a body prints nothing. -/
theorem settle (hy : Prints y) : Prints y.settle := hy.around .settle .settle

/-- The current frame makes no difference to the sink. -/
theorem inFrame (hy : Prints y) (frame : FrameId) : Prints (inFrame frame y) :=
  hy.around (.inFrame frame) (.inFrame (fun _ _ ↦ rfl) frame)

/-- The number of active calls makes no difference to the sink. -/
theorem whileActive (hx : Prints x) : Prints (whileActive x) :=
  hx.around .whileActive (.whileActive fun _ _ ↦ rfl)

theorem backToGlobal (hx : Prints x) : Prints (backToGlobal x) :=
  hx.around .backToGlobal (.backToGlobal fun _ _ ↦ rfl)

/-- That an iteration was left is told, not printed. -/
theorem attempt (hy : Prints y) (line i : Nat) : Prints (attempt y line i) :=
  hy.around (.attempt line i) (.attempt (fun _ _ ↦ rfl) (fun _ _ ↦ rfl) line i)

end Brackets

/-! ### Steps -/

theorem onStore (change : Store → α × Store) : Prints (onStore change) := .quiet fun _ ↦ rfl

/-- The store has no access to the sink. -/
theorem inStore (span : Span) (x : StoreM α) : Prints (inStore span x) := .quiet fun m ↦ by
  unfold EvalM.inStore
  cases x m.store <;> rfl

theorem tell (event : Event) : Prints (EvalM.tell event) := .quiet fun _ ↦ rfl

/-- The one step that writes. -/
theorem writeLine (text : String) (span : Span) : Prints (writeLine text span) := by
  intro m s hm
  refine ⟨text ++ "\n", ?_⟩
  unfold EvalM.writeLine
  rw [hm, Sink.writeLine_holding]
  rfl

/-- A limit is reported, not printed. -/
theorem tick (limits : Limits) (span : Span) : Prints (tick limits span) := by
  refine .quiet fun m ↦ ?_
  rw [tick_eq]
  split <;> rfl

end Prints

/-! ### All of evaluation -/

/-- The property of adding text, as a relation that ignores its second side. -/
def printLockstep : Lockstep where
  eval x _ := Prints x
  exec x _ := Prints x

/-- Every step adds text or leaves the sink alone. -/
theorem closed_printLockstep (limits : Limits) : printLockstep.Closed limits limits := by
  have helementary : printLockstep.Elementary limits limits :=
    { pure := .pure
      bind := .bind
      raise := fun _ _ ↦ .throw _
      get := .get
      onStore := .onStore
      inStore := .inStore
      tell := fun _ ↦ .tell _
      writeLine := .writeLine
      bindVar := fun _ _ ↦ .quiet fun _ ↦ rfl
      tick := .tick limits
      toExec := .toExec
      execBind := .bind
      exit := fun _ ↦ .throw _
      inFrame := .inFrame
      attempt := .attempt }
  exact helementary.closed .whileActive .settle .tell

/-- A program adds text to the sink, also if it fails. -/
theorem Prints.runProgram (limits : Limits) (program : Program) :
    Prints (runProgram limits program) := by
  have hclosed := closed_printLockstep limits
  induction program with
  | nil => exact .pure ()
  | cons s ss ih =>
    exact .bind (.backToGlobal (.settle (hclosed.execStmt (hclosed.callWith rfl _) s))) fun _ ↦ ih

end SafariScript
