import SafariScript.Proofs.Evaluation.Diagnostics
import SafariScript.Proofs.Session.Chunks

/-!
# Where the scripts of a session fail

A script that fails on its own fails at one of its tokens. In a session it may call functions of
earlier scripts, and these **keep the places of the script they were written in**: an error in the
body of such a function is at a token of the earlier script. There is no other way out of the
script: a place outside of it belongs to a function that was bound when the script began, and to a
script before it (`Session.report_origin`).
-/

namespace SafariScript

/-! ### One evaluation -/

/-- The function is bound in a frame of the machine, by itself or in a list. -/
def Machine.Binds (m : Machine) (f : Function) : Prop :=
  ∃ i name v, (m.store.frames.vars i).get? name = some v ∧ f ∈ v.functions

/-- **Errors come from the program or from a function at hand.** From whatever machine it starts, a
program fails at the place of one of its nodes, or of a node in the body of a function that was
bound before. -/
theorem place_of_evaluate {limits : Limits} {program : Program} {m n : Machine} {e : RuntimeError}
    (hfail : evaluate limits program m = .error e n) :
    .place e.span ∈ Stmt.partsAll program ∨
      ∃ f, m.Binds f ∧ .place e.span ∈ Stmt.partsAll f.body := by
  let place : Span → Prop := fun span ↦ .place span ∈ Stmt.partsAll program ∨
    ∃ f, m.Binds f ∧ .place span ∈ Stmt.partsAll f.body
  have hprogram : Stmt.AllKeep (placeBounds place) (placeBounds place).body program :=
    allKeep_placeBounds fun _ hspan ↦ .inl hspan
  have hframes : m.store.frames.Keep (placeBounds place) := fun i name v hv f hf ↦
    allKeep_placeBounds fun _ hspan ↦ .inr ⟨f, ⟨i, name, v, hv, hf⟩, hspan⟩
  exact ((Conducted.evaluate limits hprogram m hframes).error e n hfail).place

/-! ### Steps of a session -/

namespace Session

/-- The session after the scripts were run one after the other, as `Session.steps` runs them. -/
def after : List String → Session → Session
  | [], s => s
  | source :: sources, s => after sources (s.step (·.run source)).2

/-- A step is taken from the state that the steps before it left. -/
theorem getElem?_steps (sources : List String) (s : Session) (i : Nat) :
    (steps sources s)[i]? =
      sources[i]?.map fun source ↦ ((after (sources.take i) s).step (·.run source)).1 := by
  induction sources generalizing s i with
  | nil => rfl
  | cons source sources ih =>
    cases i with
    | zero => rfl
    | succ i => exact ih _ i

/-- What a script does: it cannot be read, and nothing changes but the log; or its program is
evaluated. -/
theorem run_cases (s : Session) (source : String) :
    (∃ failure events, (∀ e, failure ≠ .runtime e) ∧
      s.run source = (some failure, { s with machine := { s.machine with log := events } })) ∨
    ∃ program events, ReadAs source program ∧
      s.run source = evaluate { s with machine := { s.machine with log := events } } program := by
  unfold run parse
  cases hscan : Token.scan source with
  | error e => exact .inl ⟨.scan e, s.machine.log, by rintro _ ⟨⟩, rfl⟩
  | ok ts =>
    let scanned : List Event :=
      .scanned ts.length (endOfTokens ts).position.line :: s.machine.log
    dsimp only
    cases hparse : Program.ofTokens ts with
    | error e => exact .inl ⟨.parse e, scanned, by rintro _ ⟨⟩, rfl⟩
    | ok program =>
      exact .inr ⟨program, .parsed program.length :: scanned, ⟨ts, hscan, hparse⟩, rfl⟩

theorem machine_evaluate (s : Session) (program : Program) :
    (s.evaluate program).2.machine =
      reached (SafariScript.evaluate s.limits program s.machine) := by
  unfold evaluate
  cases SafariScript.evaluate s.limits program s.machine <;> rfl

theorem evaluate_eq_runtime {s : Session} {program : Program} {e : RuntimeError}
    (h : (s.evaluate program).1 = some (.runtime e)) :
    ∃ n, SafariScript.evaluate s.limits program s.machine = .error e n := by
  unfold evaluate at h
  cases hr : SafariScript.evaluate s.limits program s.machine with
  | ok u n =>
    rw [hr] at h
    cases h
  | error e' n =>
    rw [hr] at h
    cases h
    exact ⟨n, rfl⟩

/-- A step evaluates the program of its script, if the script can be read. -/
theorem after_step {s : Session} {programs : List Program} (h : s.machine.After programs)
    (source : String) :
    ∃ further, (s.step (·.run source)).2.machine.After (programs ++ further) ∧
      ∀ program ∈ further, ReadAs source program := by
  show ∃ further, (run { s with machine := { s.machine with log := [] } } source).2.machine.After
    (programs ++ further) ∧ _
  obtain ⟨failure, events, -, hrun⟩ | ⟨program, events, hread, hrun⟩ :=
    run_cases { s with machine := { s.machine with log := [] } } source
  · refine ⟨[], ?_, nofun⟩
    rw [hrun, List.append_nil]
    exact .logged events (.logged [] h)
  · refine ⟨[program], ?_, fun p hp ↦ List.mem_singleton.1 hp ▸ hread⟩
    rw [hrun, machine_evaluate]
    exact .evaluated s.limits program (.logged events (.logged [] h))

/-- The machine of a session has evaluated the programs of scripts that it ran. -/
theorem after_steps (sources : List String) {s : Session} {programs : List Program}
    (h : s.machine.After programs) :
    ∃ further, (s.after sources).machine.After (programs ++ further) ∧
      ∀ program ∈ further, ∃ source ∈ sources, ReadAs source program := by
  induction sources generalizing s programs with
  | nil => exact ⟨[], by rwa [List.append_nil], nofun⟩
  | cons source sources ih =>
    obtain ⟨first, hfirst, hread⟩ := after_step h source
    obtain ⟨further, hfurther, hreads⟩ := ih hfirst
    rw [List.append_assoc] at hfurther
    refine ⟨first ++ further, hfurther, fun program hprogram ↦ ?_⟩
    obtain hmem | hmem := List.mem_append.1 hprogram
    · exact ⟨source, List.mem_cons_self, hread program hmem⟩
    · obtain ⟨source', hsource', hread'⟩ := hreads program hmem
      exact ⟨source', List.mem_cons_of_mem _ hsource', hread'⟩

/-- A step that fails in evaluation has read its script, and evaluated it on the machine that the
steps before it left. -/
theorem step_eq_runtime {s : Session} {source : String} {e : RuntimeError}
    (h : (s.step (·.run source)).1.failure = some (.runtime e)) :
    ∃ program events n, ReadAs source program ∧
      SafariScript.evaluate s.limits program { s.machine with log := events } = .error e n := by
  have hrun : (run { s with machine := { s.machine with log := [] } } source).1 =
    some (.runtime e) := h
  obtain ⟨failure, events, hfailure, heq⟩ | ⟨program, events, hread, heq⟩ :=
    run_cases { s with machine := { s.machine with log := [] } } source
  · rw [heq] at hrun
    exact absurd (Option.some.inj hrun) (hfailure e)
  · rw [heq] at hrun
    obtain ⟨n, hn⟩ := evaluate_eq_runtime hrun
    exact ⟨program, events, n, hread, hn⟩

end Session

/-- The nodes of the program of a script are at the places of its tokens. -/
theorem ReadAs.standing {source : String} {program : Program} (h : ReadAs source program) :
    ∃ ts, Token.scan source = .ok ts ∧
      ∀ span, .place span ∈ Stmt.partsAll program → Standing ts span := by
  obtain ⟨ts, hscan, hparse⟩ := h
  exact ⟨ts, hscan, fun span hspan ↦ standing_of_ofTokens hparse _ hspan⟩

/-- **Where the scripts of a session fail.** When a step of a session fails in evaluation, then the
error is at a token of the script of that step; or it is in the body of a function that was bound
when the step began, and at a token of a script before it. -/
theorem Session.report_origin (limits : Limits) (sink : Sink) (sources : List String) {i : Nat}
    {step : Session.Step} {e : RuntimeError}
    (hstep : (Session.steps sources (.new limits sink))[i]? = some step)
    (hfail : step.failure = some (.runtime e)) :
    ∃ source ts, sources[i]? = some source ∧ Token.scan source = .ok ts ∧
      (Standing ts e.span ∨
        (∃ f, ((Session.new limits sink).after (sources.take i)).machine.Binds f ∧
          .place e.span ∈ Stmt.partsAll f.body) ∧
        ∃ source' ∈ sources.take i, ∃ ts', Token.scan source' = .ok ts' ∧
          Standing ts' e.span) := by
  rw [getElem?_steps] at hstep
  obtain ⟨source, hsource, rfl⟩ := Option.map_eq_some_iff.1 hstep
  obtain ⟨program, events, n, hread, hevaluate⟩ := step_eq_runtime hfail
  obtain ⟨ts, hscan, hstanding⟩ := hread.standing
  refine ⟨source, ts, hsource, hscan, ?_⟩
  obtain ⟨programs, hafter, hprograms⟩ :=
    after_steps (sources.take i) (s := .new limits sink) (.new sink)
  obtain hown | hbound := place_of_evaluate hevaluate
  · exact .inl (hstanding e.span hown)
  -- The place is that of a token of this script or of an earlier one.
  let place : Span → Prop := fun span ↦ Standing ts span ∨
    ∃ source' ∈ sources.take i, ∃ ts', Token.scan source' = .ok ts' ∧ Standing ts' span
  have hprogram : Stmt.AllKeep (placeBounds place) (placeBounds place).body program :=
    allKeep_placeBounds fun span hspan ↦ .inl (hstanding span hspan)
  have hearlier : ∀ p ∈ programs, Stmt.AllKeep (placeBounds place) (placeBounds place).body p := by
    intro p hp
    obtain ⟨source', hsource', hread'⟩ := hprograms p hp
    obtain ⟨ts', hscan', hstanding'⟩ := hread'.standing
    exact allKeep_placeBounds fun span hspan ↦ .inr ⟨source', hsource', ts', hscan',
      hstanding' span hspan⟩
  have hplace : place e.span :=
    ((Conducted.evaluate _ hprogram _ ((hafter.logged events).keep hearlier)).error e n
      hevaluate).place
  exact hplace.imp id fun hothers ↦ ⟨hbound, hothers⟩

/-! ### An error in an earlier script -/

/-- The error of evaluation, if the failure is one. -/
def Failure.runtime? : Failure → Option RuntimeError
  | .runtime e => some e
  | _ => none

theorem Failure.runtime?_eq_some {failure : Failure} {e : RuntimeError}
    (h : failure.runtime? = some e) : failure = .runtime e := by
  cases failure with
  | scan | parse => cases h
  | runtime e' => exact congrArg Failure.runtime (Option.some.inj h)

/-- A script that defines a function, and one that calls it. -/
def callBefore : List String := [r"define f() { print 1 / 0; }", "f();"]

/-- The place of the operator in the first script. -/
def quotientPlace : Span := ⟨⟨1, 22, 21⟩, 1⟩

/-- The call fails at the operator in the body of the function. -/
theorem steps_callBefore :
    ∃ step, (Session.steps callBefore (.new {} (.new none)))[1]? = some step ∧
      step.failure = some (.runtime ⟨.divisionByZero .div, quotientPlace⟩) := by
  have hfail : ((Session.steps callBefore (.new {} (.new none)))[1]?.bind (·.failure)).bind
      Failure.runtime? = some ⟨.divisionByZero .div, quotientPlace⟩ := by decide +kernel
  obtain ⟨failure, hfailure, hruntime⟩ := Option.bind_eq_some_iff.1 hfail
  obtain ⟨step, hstep, hfailure⟩ := Option.bind_eq_some_iff.1 hfailure
  exact ⟨step, hstep, Failure.runtime?_eq_some hruntime ▸ hfailure⟩

/-- The call of a function that an earlier script defined fails in that script. -/
theorem Session.report_origin_callBefore :
    (∃ step, (Session.steps callBefore (.new {} (.new none)))[1]? = some step ∧
      step.failure = some (.runtime ⟨.divisionByZero .div, quotientPlace⟩)) ∧
    ∃ source ts, callBefore[1]? = some source ∧ Token.scan source = .ok ts ∧
      (Standing ts quotientPlace ∨
        (∃ f, ((Session.new {} (.new none)).after (callBefore.take 1)).machine.Binds f ∧
          .place quotientPlace ∈ Stmt.partsAll f.body) ∧
        ∃ source' ∈ callBefore.take 1, ∃ ts', Token.scan source' = .ok ts' ∧
          Standing ts' quotientPlace) := by
  obtain ⟨step, hstep, hfail⟩ := steps_callBefore
  exact ⟨⟨step, hstep, hfail⟩, Session.report_origin {} (.new none) callBefore hstep hfail⟩

/-- **Not every error is at a token of the script that fails**: there is none at the place of the
operator in the script of the call. -/
theorem Session.report_outside_script :
    (∃ step, (Session.steps callBefore (.new {} (.new none)))[1]? = some step ∧
      step.failure = some (.runtime ⟨.divisionByZero .div, quotientPlace⟩)) ∧
    callBefore[1]? = some "f();" ∧
    ∀ ts, Token.scan "f();" = .ok ts → ∀ t ∈ ts, t.span ≠ quotientPlace := by
  refine ⟨steps_callBefore, rfl, fun ts hscan ↦ ?_⟩
  have hread : Token.scan "f();" = .ok [⟨.ident "f", "f", ⟨1, 1, 0⟩⟩,
      ⟨.symbol .leftParen, "(", ⟨1, 2, 1⟩⟩, ⟨.symbol .rightParen, ")", ⟨1, 3, 2⟩⟩,
      ⟨.symbol .semicolon, ";", ⟨1, 4, 3⟩⟩, ⟨.endOfInput, "", ⟨1, 5, 4⟩⟩] := by
    with_unfolding_all rfl
  cases hread.symm.trans hscan
  decide

end SafariScript
