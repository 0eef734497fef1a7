import SafariScript.Proofs.Evaluation.Conduct

/-!
# Exits that leave too much

`run` leaves the innermost repetition. It is an error if there is none to leave, in the function or
in the program where the `run` is executed; and a repetition around a **call** does not count. So
the error can come from a function that an earlier program of the session defined. It never comes
unexpectedly, though: the `run` it points at is one that no repetition surrounds in its own
function, which can be seen without evaluating anything (`Stmt.openRuns`).
-/

namespace SafariScript

/-- **Exits that leave too much are in plain sight.** When a program of a session fails because of a
`run` that leaves no repetition, then the error is at a `run` in this program or in an earlier one,
which no repetition surrounds in the body of its own function. In particular there is no such error
if every `run` of all programs so far is inside of a repetition of its own function. -/
theorem Machine.After.exit_at_open_run {programs : List Program} {m : Machine}
    (h : m.After programs) (limits : Limits) (program : Program) :
    (∀ span n, evaluate limits program m = .error ⟨.exitOutsideLoop, span⟩ n →
      ∃ p ∈ programs ++ [program], span ∈ Stmt.openRunsAll false p) ∧
    ((∀ p ∈ programs ++ [program], Stmt.openRunsAll false p = []) →
      ∀ span n, evaluate limits program m ≠ .error ⟨.exitOutsideLoop, span⟩ n) := by
  have hopen : ∀ span n, evaluate limits program m = .error ⟨.exitOutsideLoop, span⟩ n →
      ∃ p ∈ programs ++ [program], span ∈ Stmt.openRunsAll false p :=
    fun span n hfail ↦ (h.conduct limits program).error _ n hfail rfl
  refine ⟨hopen, fun hnone span n hfail ↦ ?_⟩
  obtain ⟨p, hp, hspan⟩ := hopen span n hfail
  rw [hnone p hp] at hspan
  cases hspan

/-- The program `define f() { if true { run; } }`, with the `run` at a given place. -/
def defineRunner (span : Span) : Program :=
  [.define "f" [] [.cond (.literal (.bool true) default) [.run span] none default] default]

/-- The program `repeat 1 { f(); repeat 1 { run; } }`, with the `run` at a given place. -/
def repeatRunner (span : Span) : Program :=
  [.loop (.literal (.int 1) default)
    [.expr (.call (.ident "f" default) [] default),
      .loop (.literal (.int 1) default) [.run span] default] default]

/-- A function that an earlier program defined leaves too much, also when it is called inside of a
repetition; the `run` inside of the inner repetition is not to blame. -/
theorem Machine.After.exit_at_open_run_of_call :
    let earlier : Span := ⟨⟨1, 23, 22⟩, 3⟩
    let later : Span := ⟨⟨1, 25, 24⟩, 3⟩
    let m := reached (evaluate {} (defineRunner earlier) (.new (.new none)))
    m.After [defineRunner earlier] ∧
    (∃ n, evaluate {} (repeatRunner later) m = .error ⟨.exitOutsideLoop, earlier⟩ n) ∧
    ∃ p ∈ [defineRunner earlier, repeatRunner later], earlier ∈ Stmt.openRunsAll false p := by
  intro earlier later m
  have hafter : m.After [defineRunner earlier] :=
    .evaluated {} (defineRunner earlier) (.new (.new none))
  have hfail : failure? (evaluate {} (repeatRunner later) m) =
      some ⟨.exitOutsideLoop, earlier⟩ := by decide +kernel
  obtain ⟨n, hn⟩ := of_failure? hfail
  exact ⟨hafter, ⟨n, hn⟩, (hafter.exit_at_open_run {} (repeatRunner later)).1 earlier n hn⟩

end SafariScript
