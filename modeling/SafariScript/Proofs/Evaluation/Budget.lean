import SafariScript.Proofs.Evaluation.CutOff

/-!
# The budget of steps

A budget of `n` steps lets the first `n` statements of an evaluation pass and refuses the next one.
It does **nothing else**: as long as an evaluation without a budget starts at most `n` statements,
the budget makes no difference to it, and otherwise the evaluation is cut off at statement `n + 1`.

The comparison of the two evaluations goes through all of evaluation by `Cut.closed_lockstep`. What
is left to see is the one step in which they differ, the counting of a statement (`tick_eq`).
-/

namespace SafariScript

open EvalM ExecM

/-! ### Counting statements -/

/-- How many of the statements started so far passed the check; they are numbered from one. -/
def Machine.passed (limits : Limits) (m : Machine) : Nat :=
  (List.range m.steps).countP fun k ↦ limits.admits (k + 1)

/-- The bytes that were written after the machine was `start`. -/
def Machine.outputSince (start m : Machine) : List UInt8 :=
  m.sink.bytes.drop start.sink.bytes.length

/-- With a budget of `n`, all statements pass but those after the first `n`. -/
theorem Machine.passed_eq_min (depth n : Nat) (m : Machine) :
    m.passed ⟨depth, some n⟩ = min m.steps n := by
  unfold Machine.passed
  induction m.steps with
  | zero => simp
  | succ k ih =>
    rw [List.range_succ, List.countP_append, ih, List.countP_singleton]
    by_cases h : k + 1 ≤ n
    · have hadmits : Limits.admits ⟨depth, some n⟩ (k + 1) = true := decide_eq_true h
      rw [if_pos hadmits]
      omega
    · have hrefuses : ¬ Limits.admits ⟨depth, some n⟩ (k + 1) = true :=
        fun hadmits ↦ h (of_decide_eq_true hadmits)
      rw [if_neg hrefuses]
      omega

/-! ### The cut -/

/-- A budget of `n` steps: both evaluations reach the counts up to `n`, and the one with the budget
stops at `n + 1`. -/
def budgetCut (n : Nat) : Cut where
  within k := k ≤ n
  beyond k := n < k
  stopped fault k := fault = .stepLimitExceeded n ∧ k = n + 1
  beyond_mono hab ha := Nat.lt_of_lt_of_le ha hab

/-- With the budget, the count goes on while it is within the budget; the first count beyond it is
`n + 1`, and nothing has been written since. -/
theorem shortens_tick (depth n : Nat) (span : Span) :
    (budgetCut n).Shortens id (tick ⟨depth, none⟩ span) (tick ⟨depth, some n⟩ span) := by
  have hfree : ∀ m, tick ⟨depth, none⟩ span m = .ok () { m with steps := m.steps + 1 } := fun m ↦
    (tick_eq _ span m).trans (if_pos rfl)
  refine ⟨fun m ↦ ?_, fun m hm ↦ ?_⟩
  · rw [hfree]
    exact ⟨Nat.le_succ _, List.prefix_refl _⟩
  · rw [hfree, tick_eq]
    by_cases h : m.steps + 1 ≤ n
    · rw [if_pos (by simpa [Limits.admits] using h)]
      exact .same h
    · rw [if_neg (by simpa [Limits.admits] using h)]
      have hn : m.steps = n := Nat.le_antisymm hm (Nat.not_lt.1 h)
      refine .cutOff (e := ⟨.stepLimitExceeded n, span⟩) ?_ ⟨rfl, ?_⟩ (List.prefix_refl _)
      · exact Nat.not_le.1 h
      · exact congrArg (· + 1) hn

/-- Without a cut: the second evaluation is the first. -/
def uncut : Cut where
  within _ := True
  beyond _ := False
  stopped _ _ := False
  beyond_mono _ h := h

/-- Under any limits, an evaluation only adds to what was written. -/
theorem output_evaluate (limits : Limits) (program : Program) (m : Machine) :
    m.sink.bytes <+: (reached (evaluate limits program m)).sink.bytes := by
  have htick : ∀ span, uncut.Shortens id (tick limits span) (tick limits span) := by
    refine fun span ↦ ⟨fun m ↦ ?_, fun m _ ↦ .same trivial⟩
    rw [tick_eq]
    split <;> exact ⟨Nat.le_succ _, List.prefix_refl _⟩
  exact (Cut.compared_evaluate htick rfl trivial program m).1.output

/-- What was written before does not matter to which of two outputs begins with the other. -/
theorem outputSince_prefix {start m m' : Machine} (hm : start.sink.bytes <+: m.sink.bytes)
    (h : m.sink.bytes <+: m'.sink.bytes) : start.outputSince m <+: start.outputSince m' := by
  obtain ⟨out, hout⟩ := hm
  obtain ⟨more, hmore⟩ := h
  have hm' : start.sink.bytes ++ (out ++ more) = m'.sink.bytes := by
    rw [← List.append_assoc, hout, hmore]
  rw [Machine.outputSince, Machine.outputSince, ← hout, ← hm', List.drop_left, List.drop_left]
  exact List.prefix_append out more

/-- The counter of statements never goes further than one above the budget. So 64 bits are enough
for it, with every budget below the greatest number that has them. -/
theorem steps_evaluate_le (depth n : Nat) (program : Program) (m : Machine) :
    (reached (evaluate ⟨depth, some n⟩ program m)).steps ≤ n + 1 := by
  have hzero : (budgetCut n).within 0 := Nat.zero_le n
  obtain ⟨-, hc⟩ := Cut.compared_evaluate (shortens_tick depth n) rfl hzero program m
  generalize evaluate ⟨depth, some n⟩ program m = bounded at hc ⊢
  cases hc with
  | same hwithin => exact Nat.le_succ_of_le hwithin
  | cutOff _ hstop _ => exact Nat.le_of_eq hstop.2

/-- **The budget of steps is exact and otherwise invisible.** If the evaluation without a budget
starts at most `n` statements, then a budget of `n` changes nothing about it: it has the same
outcome and leaves the same machine. If it starts more, then the evaluation with the budget fails
because of it: exactly `n` statements have passed the check and one was refused, and the output is
the beginning of what the evaluation without a budget writes. -/
theorem evaluate_budget_exact (depth n : Nat) (program : Program) (m : Machine) :
    ((reached (evaluate ⟨depth, none⟩ program m)).steps ≤ n →
      evaluate ⟨depth, some n⟩ program m = evaluate ⟨depth, none⟩ program m) ∧
    (n < (reached (evaluate ⟨depth, none⟩ program m)).steps →
      ∃ span stop, evaluate ⟨depth, some n⟩ program m = .error ⟨.stepLimitExceeded n, span⟩ stop ∧
        m.outputSince stop <+: m.outputSince (reached (evaluate ⟨depth, none⟩ program m)) ∧
        stop.steps = n + 1 ∧ stop.passed ⟨depth, some n⟩ = n) := by
  have hzero : (budgetCut n).within 0 := Nat.zero_le n
  obtain ⟨-, hc⟩ := Cut.compared_evaluate (shortens_tick depth n) rfl hzero program m
  have hstart := output_evaluate ⟨depth, some n⟩ program m
  generalize evaluate ⟨depth, some n⟩ program m = bounded at hc hstart ⊢
  cases hc with
  | same hwithin =>
    exact ⟨fun _ ↦ rfl, fun hmore ↦ absurd hwithin (Nat.not_le.2 hmore)⟩
  | @cutOff e stop hbeyond hstop hout =>
    obtain ⟨hfault, hsteps⟩ := hstop
    refine ⟨fun hfew ↦ absurd hbeyond (Nat.not_lt.2 hfew), fun _ ↦ ?_⟩
    refine ⟨e.span, stop, ?_, ?_, hsteps, ?_⟩
    · rw [← hfault]
      rfl
    · exact outputSince_prefix hstart hout
    · rw [Machine.passed_eq_min, hsteps]
      omega

/-- A program that prints three times in a repetition. -/
def printThrice : Program :=
  [.loop (.literal (.int 3) default) [.print (.literal (.str "safari") default) default] default]

/-- To print three times takes four statements: a budget of four is enough for them, and a budget
of two ends in the second iteration. -/
theorem evaluate_budget_exact_printThrice :
    (reached (evaluate ⟨200, none⟩ printThrice (.new (.new none)))).steps = 4 ∧
    evaluate ⟨200, some 4⟩ printThrice (.new (.new none)) =
      evaluate ⟨200, none⟩ printThrice (.new (.new none)) ∧
    ∃ span stop, evaluate ⟨200, some 2⟩ printThrice (.new (.new none)) =
        .error ⟨.stepLimitExceeded 2, span⟩ stop ∧
      (Machine.new (.new none)).outputSince stop <+: (Machine.new (.new none)).outputSince
        (reached (evaluate ⟨200, none⟩ printThrice (.new (.new none)))) ∧
      stop.steps = 3 ∧ stop.passed ⟨200, some 2⟩ = 2 := by
  have hsteps : (reached (evaluate ⟨200, none⟩ printThrice (.new (.new none)))).steps = 4 := by
    decide +kernel
  refine ⟨hsteps, ?_, ?_⟩
  · exact (evaluate_budget_exact 200 4 printThrice (.new (.new none))).1 (Nat.le_of_eq hsteps)
  · exact (evaluate_budget_exact 200 2 printThrice (.new (.new none))).2 (by rw [hsteps]; decide)

end SafariScript
