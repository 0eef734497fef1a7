import SafariScript.Proofs.Evaluation.Conduct
import SafariScript.Proofs.Evaluation.Reachable
import SafariScript.Proofs.Store.Counters

/-!
# The counters of zones in a session

Evaluation touches the store only by operations (`Conduct.store`), and no operation brings a counter
out of range (`Store.InRange.after`). So the counters of all zones are in range in every machine
that occurs in a session, also in the middle of an evaluation (`Machine.Reachable.inRange`).

The operations of a run are those that the programs of the session ask for. Hence a counter changes
only where a program writes to the property of the counter, calls the method that raises it, or
throws a ball.
-/

namespace SafariScript

/-! ### Machines that occur -/

/-- Bounds that allow everything. -/
def freeBounds : Bounds := ⟨fun _ ↦ True, fun _ ↦ True, fun _ ↦ True⟩

theorem free_freeBounds : freeBounds.Free :=
  ⟨fun _ ↦ trivial, fun _ ↦ trivial, fun _ ↦ trivial⟩

/-- All frames keep to bounds that allow everything. -/
theorem Frames.keep_freeBounds (fs : Frames) : fs.Keep freeBounds :=
  fun _ _ _ _ f _ ↦ free_freeBounds.body f.body

/-- Operations of the store keep the counters in their ranges. -/
theorem Store.InRange.leads {allowed : Act → Prop} {s s' : Store} (h : s.InRange)
    (hs : s.Leads allowed s') : s'.InRange := by
  obtain ⟨ops, rfl, -⟩ := hs
  exact h.after ops

/-- There are no zones yet whose counters could be out of range. -/
theorem Machine.inRange_new (sink : Sink) : (Machine.new sink).store.InRange := by
  intro id z hz
  have hnone : (Machine.new sink).store.zones = #[] := rfl
  rw [hnone] at hz
  cases hz

section Evaluation

variable (limits : Limits) (room : Nat) {m : Machine}

/-- An expression keeps the counters in their ranges. -/
theorem Store.InRange.evalExpr (h : m.store.InRange) (e : Expr) :
    (reached (evalExpr (callWith limits room) e m)).store.InRange := by
  have hclosed := closed_conductDiscipline freeBounds limits
  have he := hclosed.evalExpr (hclosed.callWith rfl room) e (free_freeBounds.expr e) ()
  exact h.leads (he m m.store.frames.keep_freeBounds).store

theorem Store.InRange.evalExprs (h : m.store.InRange) (es : List Expr) :
    (reached (evalExprs (callWith limits room) es m)).store.InRange := by
  have hclosed := closed_conductDiscipline freeBounds limits
  have hes := hclosed.evalExprs (hclosed.callWith rfl room) es (free_freeBounds.exprs es) ()
  exact h.leads (hes m m.store.frames.keep_freeBounds).store

/-- A statement keeps the counters in their ranges, also when it fails. -/
theorem Store.InRange.execStmt (h : m.store.InRange) (s : Stmt) :
    (reached (execStmt limits (callWith limits room) s m)).store.InRange := by
  have hclosed := closed_conductDiscipline freeBounds limits
  have hkeeps : s.Keeps freeBounds freeBounds.body :=
    free_freeBounds.stmt _ (fun _ ↦ trivial) s fun _ _ ↦ trivial
  have hs := hclosed.execStmt (hclosed.callWith rfl room) s hkeeps ()
  exact h.leads (hs m m.store.frames.keep_freeBounds).store

end Evaluation

/-- The counters are in their ranges in all machines that occur. -/
theorem Machine.Reachable.inRange {m : Machine} (h : m.Reachable) : m.store.InRange := by
  induction h with
  | new sink => exact inRange_new sink
  | moved _ _ _ _ _ _ ih => exact ih
  | expr limits room e _ ih => exact ih.evalExpr limits room e
  | stmt limits room s _ ih => exact ih.execStmt limits room s
  | block _ ih => exact ih.apply (.newFrame _)
  | @body m m₁ m₂ limits room callee args f vs _ hcallee hargs ih =>
    have hf := ih.evalExpr limits room callee
    rw [hcallee] at hf
    have hm₁ : m₁.store.InRange := hf
    have hvs := hm₁.evalExprs limits room args
    rw [hargs] at hvs
    have hm₂ : m₂.store.InRange := hvs
    have hnew : (m₂.store.newFrame f.closure).2.InRange := hm₂.apply (.newFrame f.closure)
    have hparams : (m₂.store.newFrame f.closure).2.Leads freeBounds.act (m₂.enterBody f vs).store :=
      .defineAll _ _ _
    exact hnew.leads hparams

/-! ### Sessions -/

/-- The counters are in their ranges between the programs of a session. -/
theorem Machine.After.inRange {programs : List Program} {m : Machine} (h : m.After programs) :
    m.store.InRange := by
  induction h with
  | new sink => exact inRange_new sink
  | evaluated limits program hafter ih => exact ih.leads (hafter.conduct limits program).store
  | logged events _ ih => exact ih

/-- **Counters are never negative.** In every machine that occurs in a session, the counters of all
zones are in range. What a program of a session does to the store, however it ends, is done by
operations that the programs so far ask for; between any two of these operations the counters are in
range, and each operation changes the counters of each zone by a step: by a write to the property,
by a method that raises the counter, or by a throw that takes one ball and one turn. -/
theorem counters_kept :
    (∀ m : Machine, m.Reachable → m.store.InRange) ∧
    ∀ (programs : List Program) (m : Machine), m.After programs →
      ∀ (limits : Limits) (program : Program), ∃ ops : List StoreOp,
        (reached (evaluate limits program m)).store = m.store.after ops ∧
        (∀ op ∈ ops, ∀ a ∈ op.act?, ∃ p ∈ programs ++ [program], a ∈ Stmt.actsAll p) ∧
        (∀ done, done <+: ops → (m.store.after done).InRange) ∧
        ∀ done op, done ++ [op] <+: ops →
          ∀ (id : Nat) (z : Zone), (m.store.after done).zones[id]? = some z →
            ∃ z', (m.store.after (done ++ [op])).zones[id]? = some z' ∧ CounterStep id z z' op := by
  refine ⟨fun m h ↦ h.inRange, fun programs m h limits program ↦ ?_⟩
  obtain ⟨ops, hops, hacts⟩ := (h.conduct limits program).store
  refine ⟨ops, hops, hacts, fun done _ ↦ h.inRange.after done, fun done op _ id z hz ↦ ?_⟩
  rw [Store.after_append]
  exact op.counterStep hz

/-- The program `z = SafariZone(2, 1);`. -/
def makeZone : Program :=
  [.expr (.assign (.ident "z" default) (.call (.ident "SafariZone" default)
    [.literal (.int 2) default, .literal (.int 1) default] default) default)]

/-- The program `z.balls = 5; z->addBalls(3); repeat 2 { throwBall(z, Pokemon("a", 1)); }`. -/
def spendZone : Program :=
  [.expr (.assign (.property (.ident "z" default) "balls" default) (.literal (.int 5) default)
      default),
    .expr (.method (.ident "z" default) "addBalls" [.literal (.int 3) default] [] default),
    .loop (.literal (.int 2) default) [.throwBall (.ident "z" default)
      (.call (.ident "Pokemon" default) [.literal (.str "a") default, .literal (.int 1) default]
        default) default] default]

/-- Of two throws, one takes the only turn, and the other one nothing. -/
theorem counters_kept_spendZone :
    let m := reached (evaluate {} makeZone (.new (.new none)))
    let m' := reached (evaluate {} spendZone m)
    m.store.zones.toList = [⟨2, 1, []⟩] ∧ m'.store.zones.toList = [⟨7, 0, []⟩] ∧
    m.Reachable ∧ m.store.InRange ∧ m.After [makeZone] ∧
    ∃ ops : List StoreOp, m'.store = m.store.after ops ∧
      (∀ op ∈ ops, ∀ a ∈ op.act?, ∃ p ∈ [makeZone, spendZone], a ∈ Stmt.actsAll p) ∧
      (∀ done, done <+: ops → (m.store.after done).InRange) ∧
      ∀ done op, done ++ [op] <+: ops →
        ∀ (id : Nat) (z : Zone), (m.store.after done).zones[id]? = some z →
          ∃ z', (m.store.after (done ++ [op])).zones[id]? = some z' ∧ CounterStep id z z' op := by
  intro m m'
  have hreachable : m.Reachable := (Machine.Reachable.new (.new none)).evaluate {} makeZone
  have hafter : m.After [makeZone] := .evaluated {} makeZone (.new (.new none))
  exact ⟨by decide +kernel, by decide +kernel, hreachable, counters_kept.1 m hreachable, hafter,
    counters_kept.2 [makeZone] m hafter {} spendZone⟩

end SafariScript
