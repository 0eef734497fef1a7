import SafariScript.Proofs.Evaluation.Budget

/-!
# The depth of calls

A limit on the depth of calls lets so many calls be active at once and refuses the next one inside
of them. Here two evaluations of one program from one machine are compared, of which the second has
the lower limit. They are **the same** until the first one makes a call inside of as many calls as
the second one allows; there the second one is stopped, and what it had written up to then is where
the output of the first one begins (`Shortens`).

How many calls are active can be seen in the log: a call tells the number of active calls, itself
included (`Event.called`). So the comparison also says which calls were told. All of it depends on
how many calls may still become active, the `room` of `callWith`: a call has one more of it than the
body that it runs. Therefore there is one relation for each room, and the running of a body leads
from one to the next (`Shortens.enter`); within the same room the comparison passes through
everything that is not a call (`stepwise_lockstep`).
-/

namespace SafariScript

open EvalM ExecM

/-! ### What was told and written since -/

namespace Machine

/-- The events that were told after the machine was `start`, the latest first. -/
def toldSince (start m : Machine) : List Event :=
  m.log.take (m.log.length - start.log.length)

/-- The machine `n` is further on than `m`: it has written and told at least as much. -/
structure Advances (m n : Machine) : Prop where
  output : m.sink.bytes <+: n.sink.bytes
  log : m.log <:+ n.log

/-- The machine `n` is further on than `m` with as many active calls, and in between there were
never more than `depth` of them. -/
structure Confined (m : Machine) (depth : Nat) (n : Machine) : Prop extends m.Advances n where
  active : n.active = m.active
  calls : ∀ name k, .called name k ∈ m.toldSince n → k ≤ depth

section Told

variable {m n n' : Machine} {event : Event}

/-- What was told since is what the log has in front of the earlier one. -/
theorem toldSince_of_log {events : List Event} (h : n.log = events ++ m.log) :
    m.toldSince n = events := by
  rw [toldSince, h, List.length_append, Nat.add_sub_cancel, List.take_left]

/-- What was told since is what was told up to a point and after it. -/
theorem toldSince_append (h : m.log <:+ n.log) (h' : n.log <:+ n'.log) :
    m.toldSince n' = n.toldSince n' ++ m.toldSince n := by
  obtain ⟨first, hfirst⟩ := h
  obtain ⟨second, hsecond⟩ := h'
  have hboth : n'.log = (second ++ first) ++ m.log := by
    rw [List.append_assoc, hfirst, hsecond]
  rw [toldSince_of_log hboth, toldSince_of_log hfirst.symm, toldSince_of_log hsecond.symm]

end Told

namespace Advances

variable {m n n' : Machine}

theorem trans (h : m.Advances n) (h' : n.Advances n') : m.Advances n' :=
  ⟨h.output.trans h'.output, h.log.trans h'.log⟩

/-- A machine with the same output and the same log is further on. -/
theorem of_eq (hsink : n.sink = m.sink) (hlog : n.log = m.log) : m.Advances n :=
  ⟨hsink ▸ List.prefix_refl _, hlog ▸ List.suffix_refl _⟩

/-- What was told in between was told. -/
theorem told {event : Event} {p : Machine} (hm : m.Advances n) (hn : n.Advances n')
    (hp : n'.Advances p) (h : event ∈ n.toldSince n') : event ∈ m.toldSince p := by
  rw [toldSince_append (hm.log.trans hn.log) hp.log, toldSince_append hm.log hn.log]
  exact List.mem_append_right _ (List.mem_append_left _ h)

end Advances

namespace Confined

variable {m n n' : Machine} {depth depth' : Nat}

/-- More calls may be active than were. -/
theorem mono (h : m.Confined depth n) (hdepth : depth ≤ depth') : m.Confined depth' n :=
  { h with calls := fun name k hk ↦ Nat.le_trans (h.calls name k hk) hdepth }

theorem trans (h : m.Confined depth n) (h' : n.Confined depth n') : m.Confined depth n' where
  toAdvances := h.toAdvances.trans h'.toAdvances
  active := h'.active.trans h.active
  calls name k hk := by
    rw [toldSince_append h.log h'.log] at hk
    obtain hk | hk := List.mem_append.1 hk
    · exact h'.calls name k hk
    · exact h.calls name k hk

/-- Nothing was told. -/
theorem of_log (hactive : n.active = m.active) (hlog : n.log = m.log)
    (hout : m.sink.bytes <+: n.sink.bytes) : m.Confined depth n where
  output := hout
  log := hlog ▸ List.suffix_refl _
  active := hactive
  calls name k hk := by
    have hnone : m.toldSince n = [] := toldSince_of_log hlog
    rw [hnone] at hk
    cases hk

/-- Nothing was told or written. -/
theorem of_eq (hactive : n.active = m.active) (hlog : n.log = m.log) (hsink : n.sink = m.sink) :
    m.Confined depth n :=
  .of_log hactive hlog (hsink ▸ List.prefix_refl _)

/-- Something other than a call was told. -/
theorem tell {event : Event} (h : ∀ name k, event ≠ .called name k) (m : Machine) :
    m.Confined depth (m.tell event) where
  output := List.prefix_refl _
  log := List.suffix_cons event m.log
  active := rfl
  calls name k hk := by
    have htold : m.toldSince (m.tell event) = [event] := toldSince_of_log rfl
    rw [htold, List.mem_singleton] at hk
    exact absurd hk.symm (h name k)

end Confined

/-- The machine in which the body of a function starts, but for the frame: the parameters are bound,
and the call is counted and told. -/
def enterCall (f : Function) (args : List Value) (m : Machine) : Machine :=
  Machine.tell (.called f.name (m.active + 1))
    { m with store := (m.enterBody f args).store, active := m.active + 1 }

/-- Entering a body tells the call, with its depth, and nothing else. -/
theorem toldSince_enterCall (f : Function) (args : List Value) (m : Machine) :
    m.toldSince (m.enterCall f args) = [.called f.name (m.active + 1)] :=
  toldSince_of_log rfl

/-- Entering a body writes nothing. -/
theorem advances_enterCall (f : Function) (args : List Value) (m : Machine) :
    m.Advances (m.enterCall f args) :=
  ⟨List.prefix_refl _, List.suffix_cons _ m.log⟩

end Machine

/-! ### Evaluations that overflow -/

namespace CallDepth

variable {ε ε' α β : Type} {limit depth room : Nat} {raised : RuntimeError → ε}
  {raised' : RuntimeError → ε'}

/-- The outcome of the second evaluation beside the outcome `r` of the first, both from the machine
`m`: the same, or that it was stopped at a call which the first one made inside of `depth` others.
An error is raised among outcomes of the kind at hand by `raised`. -/
inductive Compared (limit depth : Nat) (raised : RuntimeError → ε) (m : Machine)
    (r : EStateM.Result ε Machine α) : EStateM.Result ε Machine α → Prop
  | same : Compared limit depth raised m r r
  | overflow {e : RuntimeError} {name : String} {n : Machine} :
    e.fault = .stackOverflow limit name → n.sink.bytes <+: (reached r).sink.bytes →
    .called name (depth + 1) ∈ m.toldSince (reached r) →
    Compared limit depth raised m r (.error (raised e) n)

/-- With room for so many calls: the first computation moves on, the second one does not use more
than the room, and it does the same as the first one unless it is stopped for it. -/
structure Shortens (limit room : Nat) (raised : RuntimeError → ε) (x x' : EStateM ε Machine α) :
    Prop where
  advances : ∀ m : Machine, m.Advances (reached (x m))
  confined : ∀ m : Machine, m.Confined (m.active + room) (reached (x' m))
  compared : ∀ m : Machine, Compared limit (m.active + room) raised m (x m) (x' m)

/-- Where the first evaluation moves on, the second one stays stopped. -/
theorem Compared.of_advances {m m₁ n : Machine} {r : EStateM.Result ε Machine α}
    {r₂ : EStateM.Result ε' Machine β} {e : RuntimeError} {name : String} (hm : m.Advances m₁)
    (hr : m₁.Advances (reached r)) (hr₂ : (reached r).Advances (reached r₂))
    (hfault : e.fault = .stackOverflow limit name)
    (hout : n.sink.bytes <+: (reached r).sink.bytes)
    (hcall : .called name (depth + 1) ∈ m₁.toldSince (reached r)) :
    Compared limit depth raised' m r₂ (.error (raised' e) n) :=
  .overflow hfault (hout.trans hr₂.output) (hm.told hr hr₂ hcall)

namespace Shortens

/-! ### Putting computations together -/

/-- What makes no call is not stopped. -/
theorem still {x : EStateM ε Machine α} (h : ∀ m : Machine, m.Confined 0 (reached (x m))) :
    Shortens limit room raised x x where
  advances m := (h m).toAdvances
  confined m := (h m).mono (Nat.zero_le _)
  compared _ := .same

/-- What neither makes a call nor tells nor writes is not stopped. -/
theorem quiet {x : EStateM ε Machine α}
    (h : ∀ m, (reached (x m)).active = m.active ∧ (reached (x m)).log = m.log ∧
      (reached (x m)).sink = m.sink) : Shortens limit room raised x x :=
  .still fun m ↦ .of_eq (h m).1 (h m).2.1 (h m).2.2

theorem pure (a : α) : Shortens limit room raised (Pure.pure a) (Pure.pure a) :=
  .quiet fun _ ↦ ⟨rfl, rfl, rfl⟩

theorem throw (e : ε) : Shortens limit room raised (throw e : EStateM ε Machine α) (throw e) :=
  .quiet fun _ ↦ ⟨rfl, rfl, rfl⟩

theorem get : Shortens limit room raised (get : EStateM ε Machine Machine) get :=
  .quiet fun _ ↦ ⟨rfl, rfl, rfl⟩

/-- If the first part was stopped, the rest of the longer evaluation can only add to the output. -/
theorem bind {x x' : EStateM ε Machine α} {f f' : α → EStateM ε Machine β}
    (hx : Shortens limit room raised x x') (hf : ∀ a, Shortens limit room raised (f a) (f' a)) :
    Shortens limit room raised (x >>= f) (x' >>= f') := by
  -- the first computation moves on also after its first part
  have hafter : ∀ m, (reached (x m)).Advances (reached ((x >>= f) m)) := by
    intro m
    cases hr : x m with
    | ok a n =>
      rw [bind_ok f hr]
      exact (hf a).advances n
    | error e n =>
      rw [bind_error f hr]
      exact .of_eq rfl rfl
  refine ⟨fun m ↦ (hx.advances m).trans (hafter m), fun m ↦ ?_, fun m ↦ ?_⟩
  · have hfirst := hx.confined m
    cases hr : x' m with
    | ok a n =>
      rw [hr] at hfirst
      rw [bind_ok f' hr]
      have hrest := (hf a).confined n
      rw [show n.active = m.active from hfirst.active] at hrest
      exact hfirst.trans hrest
    | error e n =>
      rw [hr] at hfirst
      rw [bind_error f' hr]
      exact hfirst
  · have hfirst := hx.confined m
    have hc := hx.compared m
    generalize hr' : x' m = r' at hc hfirst
    cases hc with
    | same =>
      cases hr : x m with
      | ok a n =>
        rw [hr] at hfirst hr'
        rw [bind_ok f hr, bind_ok f' hr']
        have hc₂ := (hf a).compared n
        rw [show n.active = m.active from hfirst.active] at hc₂
        generalize f' a n = r₂' at hc₂
        cases hc₂ with
        | same => exact .same
        | overflow hfault hout hcall =>
          exact .of_advances hfirst.toAdvances ((hf a).advances n) (.of_eq rfl rfl) hfault hout
            hcall
      | error e n =>
        rw [hr] at hr'
        rw [bind_error f hr, bind_error f' hr']
        exact .same
    | overflow hfault hout hcall =>
      rw [bind_error f' hr']
      exact .of_advances (.of_eq rfl rfl) (hx.advances m) (hafter m) hfault hout hcall

/-- A bracket around a computation, which makes no call, writes nothing and passes errors on. -/
theorem around {x x' : EStateM ε Machine α} (b : Bracket ε α ε' β)
    (henter : ∀ m : Machine, m.Confined 0 (b.enter m))
    (hleave : ∀ m r, (reached r).Confined 0 (reached (b.leave m r))) (hsink : b.Keeps Machine.sink)
    (herror : ∀ m e n, ∃ n', b.leave m (.error (raised e) n) = .error (raised' e) n')
    (hx : Shortens limit room raised x x') :
    Shortens limit room raised' (b.run x) (b.run x') := by
  refine ⟨fun m ↦ ?_, fun m ↦ ?_, fun m ↦ ?_⟩
  · exact ((henter m).toAdvances.trans (hx.advances _)).trans (hleave m _).toAdvances
  · have hin := hx.confined (b.enter m)
    rw [(henter m).active] at hin
    exact (((henter m).mono (Nat.zero_le _)).trans hin).trans ((hleave m _).mono (Nat.zero_le _))
  · have hc := hx.compared (b.enter m)
    rw [(henter m).active] at hc
    unfold Bracket.run
    generalize x' (b.enter m) = r' at hc
    cases hc with
    | same => exact .same
    | @overflow e name n hfault hout hcall =>
      obtain ⟨n', hn'⟩ := herror m e n
      have hsink' := hsink.leave m (.error (raised e) n)
      rw [hn'] at hsink' ⊢
      refine .of_advances (henter m).toAdvances (hx.advances _) (hleave m _).toAdvances hfault ?_
        hcall
      rwa [show n'.sink = n.sink from hsink']

/-- A bracket that also tells nothing. -/
theorem inside {x x' : EStateM ε Machine α} (b : Bracket ε α ε' β)
    (hactive : b.Keeps Machine.active) (hlog : b.Keeps Machine.log) (hsink : b.Keeps Machine.sink)
    (herror : ∀ m e n, ∃ n', b.leave m (.error (raised e) n) = .error (raised' e) n')
    (hx : Shortens limit room raised x x') : Shortens limit room raised' (b.run x) (b.run x') :=
  hx.around b (fun m ↦ .of_eq (hactive.enter m) (hlog.enter m) (hsink.enter m))
    (fun m r ↦ .of_eq (hactive.leave m r) (hlog.leave m r) (hsink.leave m r)) hsink herror

/-- A statement is shortened where its expression is. -/
theorem toExec {x x' : EvalM α} (hx : Shortens limit room id x x') :
    Shortens limit room Signal.error x.toExec x'.toExec :=
  hx.inside .toExec .toExec .toExec .toExec fun _ _ n ↦ ⟨n, rfl⟩

/-- The border of a body changes the signal, which the stop is not. -/
theorem settle {x x' : ExecM α} (hx : Shortens limit room Signal.error x x') :
    Shortens limit room id x.settle x'.settle :=
  hx.inside .settle .settle .settle .settle fun _ _ n ↦ ⟨n, rfl⟩

/-- The current frame is neither told nor written. -/
theorem inFrame {x x' : ExecM α} (hx : Shortens limit room Signal.error x x') (frame : FrameId) :
    Shortens limit room Signal.error (inFrame frame x) (inFrame frame x') :=
  hx.inside (.inFrame frame) (.inFrame (fun _ _ ↦ rfl) frame) (.inFrame (fun _ _ ↦ rfl) frame)
    (.inFrame (fun _ _ ↦ rfl) frame) fun _ _ _ ↦ ⟨_, rfl⟩

/-- The return to the global frame is neither told nor written. -/
theorem backToGlobal {x x' : EvalM α} (hx : Shortens limit room id x x') :
    Shortens limit room id (backToGlobal x) (backToGlobal x') :=
  hx.inside .backToGlobal (.backToGlobal fun _ _ ↦ rfl) (.backToGlobal fun _ _ ↦ rfl)
    (.backToGlobal fun _ _ ↦ rfl) fun _ _ _ ↦ ⟨_, rfl⟩

/-- To leave ends one iteration, which is told; an error is passed on, also the one that stops
it. -/
theorem attempt {x x' : ExecM α} (hx : Shortens limit room Signal.error x x') (line i : Nat) :
    Shortens limit room Signal.error (attempt x line i) (attempt x' line i) := by
  refine hx.around (.attempt line i) (fun _ ↦ .of_eq rfl rfl rfl) (fun m r ↦ ?_)
    (.attempt (fun _ _ ↦ rfl) (fun _ _ ↦ rfl) line i) fun _ _ n ↦ ⟨n, rfl⟩
  rcases r with ⟨a, n⟩ | ⟨span | e, n⟩
  · exact .of_eq rfl rfl rfl
  · exact .tell (fun name k hcall ↦ by cases hcall) n
  · exact .of_eq rfl rfl rfl

/-! ### Steps -/

/-- The store is neither told nor written. -/
theorem onStore (change : Store → α × Store) :
    Shortens limit room id (onStore change) (onStore change) :=
  .quiet fun _ ↦ ⟨rfl, rfl, rfl⟩

/-- An operation of the store may fail, in both evaluations in the same way. -/
theorem inStore (span : Span) (x : StoreM α) :
    Shortens limit room id (inStore span x) (inStore span x) := by
  refine .quiet fun m ↦ ?_
  unfold EvalM.inStore
  cases x m.store <;> exact ⟨rfl, rfl, rfl⟩

/-- Only a call tells how many calls are active. -/
theorem tell {event : Event} (h : ∀ name k, event ≠ .called name k) :
    Shortens limit room id (EvalM.tell event) (EvalM.tell event) :=
  .still fun m ↦ .tell h m

/-- A line is written in both evaluations, or the sink refuses it in both. -/
theorem writeLine (text : String) (span : Span) :
    Shortens limit room id (writeLine text span) (writeLine text span) := by
  refine .still fun m ↦ ?_
  have hout : m.sink.bytes <+: (m.sink.writeLine text).2.bytes := m.sink.bytes_write _
  unfold EvalM.writeLine
  rcases hw : m.sink.writeLine text with ⟨_ | _, sink⟩ <;>
    · rw [hw] at hout
      exact .of_log rfl rfl hout

/-- The limits on statements are the same, so both stop there or neither. -/
theorem tick (limits : Limits) (span : Span) :
    Shortens limit room id (tick limits span) (tick limits span) := by
  refine .quiet fun m ↦ ?_
  rw [tick_eq]
  split <;> exact ⟨rfl, rfl, rfl⟩

theorem bindVar (name : String) (v : Value) :
    Shortens limit room id (bindVar name v) (bindVar name v) :=
  .quiet fun _ ↦ ⟨rfl, rfl, rfl⟩

end Shortens

/-! ### Everything but calls -/

/-- The comparison for one room as a relation between two evaluations. -/
def lockstep (limit room : Nat) : Lockstep where
  eval := Shortens limit room id
  exec := Shortens limit room Signal.error

/-- Limits that have the same budget of steps count statements alike. -/
theorem tick_congr {limits limits' : Limits} (hsteps : limits.maxSteps = limits'.maxSteps)
    (span : Span) : tick limits span = tick limits' span := by
  unfold tick
  rw [hsteps]

/-- Within one room the comparison holds of everything that is not a call. -/
theorem stepwise_lockstep (limit room : Nat) {limits limits' : Limits}
    (hsteps : limits.maxSteps = limits'.maxSteps) :
    (lockstep limit room).Stepwise limits limits' := by
  have helementary : (lockstep limit room).Elementary limits limits' :=
    { pure := .pure
      bind := .bind
      raise := fun _ _ ↦ .throw _
      get := .get
      onStore := .onStore
      inStore := .inStore
      tell := .tell
      writeLine := .writeLine
      bindVar := .bindVar
      tick := fun span ↦ tick_congr hsteps span ▸ .tick limits span
      toExec := .toExec
      execBind := .bind
      exit := fun _ ↦ .throw _
      inFrame := .inFrame
      attempt := .attempt }
  exact helementary.stepwise

/-! ### Calls -/

/-- To run a body is to enter it, run its statements up to its border, and count the call as ended.
-/
theorem enter_eq_leave (x : ExecM α) (f : Function) (args : List Value) (m : Machine) :
    (parameterFrame f args >>= fun frame ↦ inCall f.name frame x) m =
      Bracket.whileActive.leave m
        (ExecM.settle (ExecM.inFrame (m.enterBody f args).frame x) (m.enterCall f args)) :=
  rfl

section Leave

variable (m : Machine) (r : EStateM.Result RuntimeError Machine α)

/-- The end of a call is not told. -/
theorem log_leave : (reached (Bracket.whileActive.leave m r)).log = (reached r).log :=
  (Bracket.Keeps.whileActive fun _ _ ↦ rfl).leave m r

/-- After a call there is an active call less. -/
theorem active_leave :
    (reached (Bracket.whileActive.leave m r)).active = (reached r).active - 1 := by
  cases r <;> rfl

/-- The end of a call is a step forward. -/
theorem advances_leave : (reached r).Advances (reached (Bracket.whileActive.leave m r)) :=
  .of_eq ((Bracket.Keeps.whileActive fun _ _ ↦ rfl).leave m r) (log_leave m r)

end Leave

namespace Shortens

variable {f : Function} {args : List Value} {x x' : ExecM α}

/-- The body only adds to what was told and written when it was entered. -/
theorem advances_enter (hx : Shortens limit room Signal.error x x') (f : Function)
    (args : List Value) (m : Machine) :
    (m.enterCall f args).Advances
      (reached ((parameterFrame f args >>= fun frame ↦ inCall f.name frame x) m)) := by
  rw [enter_eq_leave]
  exact ((hx.inFrame _).settle.advances _).trans (advances_leave m _)

/-- **A call needs one more of the room than the body that it runs.** -/
theorem enter (hx : Shortens limit room Signal.error x x') :
    Shortens limit (room + 1) id (parameterFrame f args >>= fun frame ↦ inCall f.name frame x)
      (parameterFrame f args >>= fun frame ↦ inCall f.name frame x') := by
  have hbody : ∀ frame, Shortens limit room id (ExecM.settle (ExecM.inFrame frame x))
      (ExecM.settle (ExecM.inFrame frame x')) := fun frame ↦ (hx.inFrame frame).settle
  refine ⟨fun m ↦ (m.advances_enterCall f args).trans (hx.advances_enter f args m),
    fun m ↦ ?_, fun m ↦ ?_⟩
  · have hin := (hbody (m.enterBody f args).frame).confined (m.enterCall f args)
    have henter := m.advances_enterCall f args
    rw [enter_eq_leave]
    refine ⟨(henter.trans hin.toAdvances).trans (advances_leave m _), ?_, fun name k hk ↦ ?_⟩
    · rw [active_leave, hin.active]
      rfl
    · -- the call itself was told first, and then what its body told
      rw [Machine.toldSince, log_leave, ← Machine.toldSince,
        Machine.toldSince_append henter.log hin.log, Machine.toldSince_enterCall] at hk
      obtain hk | hk := List.mem_append.1 hk
      · have hle : k ≤ m.active + 1 + room := hin.calls name k hk
        omega
      · cases List.mem_singleton.1 hk
        omega
  · rw [enter_eq_leave, enter_eq_leave]
    have hc := (hbody (m.enterBody f args).frame).compared (m.enterCall f args)
    -- One more call is active inside, and there is room for one less.
    have hdepth : (m.enterCall f args).active + room = m.active + (room + 1) :=
      Nat.add_right_comm m.active 1 room
    rw [hdepth] at hc
    generalize ExecM.settle (ExecM.inFrame (m.enterBody f args).frame x') (m.enterCall f args) = r'
      at hc
    cases hc with
    | same => exact .same
    | overflow hfault hout hcall =>
      exact .of_advances (m.advances_enterCall f args) ((hbody _).advances _) (advances_leave m _)
        hfault hout hcall

/-- Without room the second evaluation is stopped where the first one makes a call. -/
theorem refused {limit' : Nat} (hx : Shortens limit' room Signal.error x x') (span : Span) :
    Shortens limit 0 id (parameterFrame f args >>= fun frame ↦ inCall f.name frame x)
      (EvalM.raise (.stackOverflow limit f.name) span) := by
  have hcall : ∀ m : Machine, .called f.name (m.active + 1) ∈ m.toldSince (m.enterCall f args) := by
    intro m
    rw [Machine.toldSince_enterCall]
    exact List.mem_cons_self
  refine ⟨fun m ↦ (hx.enter).advances m, fun m ↦ .of_eq rfl rfl rfl, fun m ↦ ?_⟩
  have henter := m.advances_enterCall f args
  have hrest := hx.advances_enter f args m
  exact .overflow (e := ⟨.stackOverflow limit f.name, span⟩) rfl (henter.trans hrest).output
    (Machine.Advances.told (.of_eq rfl rfl) henter hrest (hcall m))

end Shortens

section Callers

variable {loose tight : Limits} (hsteps : loose.maxSteps = tight.maxSteps)

include hsteps

/-- Callers that agree with some room also do so with room for one more call. -/
theorem callers_succ {a b : Nat}
    (h : Lockstep.Stepwise.Callers (lockstep limit room) (callWith loose a) (callWith tight b)) :
    Lockstep.Stepwise.Callers (lockstep limit (room + 1)) (callWith loose (a + 1))
      (callWith tight (b + 1)) := fun f args span ↦
  .bind ((stepwise_lockstep limit (room + 1) hsteps).checkArity f args span) fun _ ↦
    .enter ((stepwise_lockstep limit room hsteps).execStmts h .null f.body)

omit hsteps in
/-- A caller beside itself. -/
theorem callers_self (limits : Limits) (room : Nat) :
    Lockstep.Stepwise.Callers (lockstep limit room) (callWith limits room)
      (callWith limits room) := by
  induction room with
  | zero =>
    have hsame : (lockstep limit 0).Stepwise limits limits := stepwise_lockstep limit 0 rfl
    exact fun f args span ↦ .bind (hsame.checkArity f args span) fun _ ↦ .throw _
  | succ room ih => exact callers_succ rfl ih

/-- Two callers of which the first one has room for `gap` more calls, as much as its limit is
higher. -/
theorem callers {gap : Nat} (hdepth : loose.maxCallDepth = tight.maxCallDepth + gap) (room : Nat) :
    Lockstep.Stepwise.Callers (lockstep tight.maxCallDepth room) (callWith loose (room + gap))
      (callWith tight room) := by
  induction room with
  | zero =>
    intro f args span
    cases gap with
    | zero =>
      have hsame : callWith loose 0 f args span = callWith tight 0 f args span := by
        rw [callWith, callWith, hdepth]
        rfl
      show Shortens _ 0 id (callWith loose 0 f args span) _
      rw [hsame]
      exact callers_self tight 0 f args span
    | succ gap =>
      have hstep := stepwise_lockstep tight.maxCallDepth 0 hsteps
      have hself : (lockstep tight.maxCallDepth (0 + gap)).Stepwise loose loose :=
        stepwise_lockstep _ _ rfl
      exact .bind (hstep.checkArity f args span) fun _ ↦
        .refused (hself.execStmts (callers_self loose (0 + gap)) .null f.body) span
  | succ room ih =>
    rw [Nat.add_right_comm]
    exact callers_succ hsteps ih

/-! ### Programs -/

/-- A program from a machine without active calls has the whole limit as its room. -/
theorem shortens_runProgram (hdepth : tight.maxCallDepth ≤ loose.maxCallDepth)
    (program : Program) :
    Shortens tight.maxCallDepth tight.maxCallDepth id (runProgram loose program)
      (runProgram tight program) := by
  obtain ⟨gap, hgap⟩ := Nat.exists_eq_add_of_le hdepth
  induction program with
  | nil => exact .pure ()
  | cons s ss ih =>
    have hcall := callers hsteps hgap tight.maxCallDepth
    rw [← hgap] at hcall
    have hs := (stepwise_lockstep tight.maxCallDepth tight.maxCallDepth hsteps).execStmt hcall s
    exact .bind (.backToGlobal (.settle hs)) fun _ ↦ ih

/-- The comparison of two evaluations of a program: it is one from the machine in which registers
and counters are set back, where no call is active. -/
theorem shortens_evaluate (hdepth : tight.maxCallDepth ≤ loose.maxCallDepth) (program : Program)
    (m : Machine) :
    m.restart.Confined tight.maxCallDepth (reached (evaluate tight program m)) ∧
      Compared tight.maxCallDepth tight.maxCallDepth id m.restart (evaluate loose program m)
        (evaluate tight program m) := by
  have hall : Shortens tight.maxCallDepth tight.maxCallDepth id
      (runProgram loose program >>= fun _ ↦ do
        EvalM.tell (.evaluated program.length (← MonadState.get).steps))
      (runProgram tight program >>= fun _ ↦ do
        EvalM.tell (.evaluated program.length (← MonadState.get).steps)) :=
    .bind (shortens_runProgram hsteps hdepth program) fun _ ↦ .bind .get fun _ ↦ .tell nofun
  have hconfined := hall.confined m.restart
  have hcompared := hall.compared m.restart
  rw [show m.restart.active + tight.maxCallDepth = tight.maxCallDepth from Nat.zero_add _]
    at hconfined hcompared
  exact ⟨hconfined, hcompared⟩

end Callers

end CallDepth

/-- **The limit on the depth of calls is exact and otherwise invisible.** Let two limits differ in
nothing but the depth of calls, and evaluate a program from any machine under both. Under the lower
one, there are never more active calls than it allows. If the evaluation under it does not overflow,
then the higher one changes nothing: the outcome is the same and so is the machine that is left. If
it does overflow, then its output is the beginning of what is written under the higher one. And it
overflows only when it has to: as long as no call under the higher limit is made inside of as many
others as the lower one allows, there is no difference. -/
theorem evaluate_depth_exact {limits limits' : Limits}
    (hsteps : limits'.maxSteps = limits.maxSteps)
    (hdepth : limits.maxCallDepth ≤ limits'.maxCallDepth) (program : Program) (m : Machine) :
    (∀ name depth, .called name depth ∈ m.toldSince (reached (evaluate limits program m)) →
      depth ≤ limits.maxCallDepth) ∧
    ((∀ limit name span n,
        evaluate limits program m ≠ .error ⟨.stackOverflow limit name, span⟩ n) →
      evaluate limits' program m = evaluate limits program m) ∧
    (∀ limit name span n, evaluate limits program m = .error ⟨.stackOverflow limit name, span⟩ n →
      m.outputSince n <+: m.outputSince (reached (evaluate limits' program m))) ∧
    ((∀ name, .called name (limits.maxCallDepth + 1) ∉
        m.toldSince (reached (evaluate limits' program m))) →
      evaluate limits' program m = evaluate limits program m) := by
  obtain ⟨hconfined, hcompared⟩ := CallDepth.shortens_evaluate hsteps hdepth program m
  generalize evaluate limits program m = r at hconfined hcompared ⊢
  refine ⟨hconfined.calls, ?_⟩
  have hstart : m.sink.bytes <+: (reached r).sink.bytes := hconfined.output
  -- Either nothing was refused, or the deeper evaluation told a call at the depth that was refused.
  cases hcompared with
  | same =>
    refine ⟨fun _ ↦ rfl, fun limit name span n hr ↦ ?_, fun _ ↦ rfl⟩
    rw [hr]
    exact List.prefix_refl _
  | @overflow e name n hfault hout hcall =>
    refine ⟨fun hnone ↦ ?_, fun limit name' span n' hr ↦ ?_, fun hnone ↦ absurd hcall (hnone name)⟩
    · obtain ⟨fault, span⟩ := e
      cases hfault
      exact absurd rfl (hnone _ _ span n)
    · cases hr
      exact outputSince_prefix hstart hout

/-- The program `define g() { print 2; } define f() { print 1; g(); } f();`. -/
def callInCall : Program :=
  [.define "g" [] [.print (.literal (.int 2) default) default] default,
    .define "f" [] [.print (.literal (.int 1) default) default,
      .expr (.call (.ident "g" default) [] default)] default,
    .expr (.call (.ident "f" default) [] default)]

/-- A call inside of a call: with a depth of one it overflows after the first line, and a depth of
three makes no difference to one of two. -/
theorem evaluate_depth_exact_callInCall :
    (∃ span n,
      evaluate ⟨1, none⟩ callInCall (.new (.new none)) = .error ⟨.stackOverflow 1 "g", span⟩ n ∧
      (Machine.new (.new none)).outputSince n <+: (Machine.new (.new none)).outputSince
        (reached (evaluate ⟨2, none⟩ callInCall (.new (.new none))))) ∧
    evaluate ⟨3, none⟩ callInCall (.new (.new none)) =
      evaluate ⟨2, none⟩ callInCall (.new (.new none)) := by
  have hfail : failure? (evaluate ⟨1, none⟩ callInCall (.new (.new none))) =
      some ⟨.stackOverflow 1 "g", default⟩ := by decide +kernel
  have hok : failure? (evaluate ⟨2, none⟩ callInCall (.new (.new none))) = none := by decide +kernel
  obtain ⟨n, hn⟩ := of_failure? hfail
  have hlow := @evaluate_depth_exact ⟨1, none⟩ ⟨2, none⟩ rfl (by decide) callInCall
    (.new (.new none))
  have hhigh := @evaluate_depth_exact ⟨2, none⟩ ⟨3, none⟩ rfl (by decide) callInCall
    (.new (.new none))
  refine ⟨⟨default, n, hn, hlow.2.2.1 1 "g" default n hn⟩, hhigh.2.1 fun limit name span n' hr ↦ ?_⟩
  rw [hr] at hok
  cases hok

end SafariScript
