import SafariScript.Proofs.Evaluation.Budget
import SafariScript.Proofs.Store.Mirrors

/-!
# Sinks that close

A sink that closes after so many bytes does one of two things to an evaluation: nothing, or it ends
the evaluation when the bytes are used up. To see this, an evaluation into a sink without a bound is
put beside one into a sink that accepts `c` bytes in all. The machines are the same but for this
bound (`Machine.bounded`), as long as the bytes fit. Then the outcomes are the same as well, or the
second evaluation has ended in an error: its sink closed, after the first `c` bytes of what the
first evaluation has written (`Truncated`).

The argument is that of `Cut`, but for machines that differ: evaluation only appends to the output,
so the rest of the first evaluation does not matter once the second has ended. The one step that
looks at the sink is the writing of a line (`Truncates.writeLine`).
-/

namespace SafariScript

open EvalM ExecM

/-! ### Machines with a bound -/

namespace Machine

/-- The machine whose sink accepts `c` bytes in all. -/
def bounded (c : Nat) (m : Machine) : Machine := { m with sink := m.sink.bounded c }

/-- More was written to the sink, and its bound is the same. -/
structure Appended (m m' : Machine) : Prop where
  capacity : m'.sink.capacity = m.sink.capacity
  output : m.sink.bytes <+: m'.sink.bytes

namespace Appended

variable {m m' m'' : Machine}

theorem trans (h : m.Appended m') (h' : m'.Appended m'') : m.Appended m'' :=
  ⟨h'.capacity.trans h.capacity, h.output.trans h'.output⟩

/-- A step that leaves the sink alone appends nothing. -/
theorem of_eq (h : m'.sink = m.sink) : m.Appended m' := ⟨by rw [h], h ▸ List.prefix_refl _⟩

end Appended

end Machine

/-! ### The comparison -/

/-- The outcome with a sink that accepts `c` bytes in all, beside the outcome `r` with a sink
without a bound. An error is raised among outcomes of the kind at hand by `raised`. -/
inductive Truncated {ε α : Type} (c : Nat) (raised : RuntimeError → ε)
    (r : EStateM.Result ε Machine α) : EStateM.Result ε Machine α → Prop
  /-- The output fits: the outcome is the same. -/
  | fits : (reached r).sink.bytes.length ≤ c →
    Truncated c raised r (image id (Machine.bounded c) id r)
  /-- The output does not fit: the sink has accepted the beginning of it and closed. -/
  | closed {span : Span} {n : Machine} : c < (reached r).sink.bytes.length →
    n.sink.bytes = (reached r).sink.bytes.take c →
    Truncated c raised r (.error (raised ⟨.sinkClosed, span⟩) n)

/-- The first computation only appends to the output, and the second does the same with a bounded
sink, until the sink closes. -/
structure Truncates {ε α : Type} (c : Nat) (raised : RuntimeError → ε)
    (x x' : EStateM ε Machine α) : Prop where
  appends : ∀ m : Machine, m.Appended (reached (x m))
  truncated : ∀ m : Machine, m.sink.capacity = none → m.sink.bytes.length ≤ c →
    Truncated c raised (x m) (x' (m.bounded c))

variable {ε ε' α β : Type} {c : Nat} {raised : RuntimeError → ε} {raised' : RuntimeError → ε'}

/-- Where the first evaluation goes on, the sink of the second one stays closed. -/
theorem Truncated.of_appended {r : EStateM.Result ε Machine α} {r₂ : EStateM.Result ε' Machine β}
    {span : Span} {n : Machine} (hfull : c < (reached r).sink.bytes.length)
    (hn : n.sink.bytes = (reached r).sink.bytes.take c) (h : (reached r).Appended (reached r₂)) :
    Truncated c raised' r₂ (.error (raised' ⟨.sinkClosed, span⟩) n) := by
  obtain ⟨out, hout⟩ := h.output
  refine .closed (Nat.lt_of_lt_of_le hfull h.output.length_le) ?_
  rw [hn, ← hout, List.take_append_of_le_length (Nat.le_of_lt hfull)]

section Lines

variable {m : Machine} {text : String} {sink : Sink} (span : Span)

/-- If the sink accepts the line, writing it succeeds. -/
theorem writeLine_accepted (h : m.sink.writeLine text = (true, sink)) :
    writeLine text span m = .ok () { m with sink := sink } := by
  rw [writeLine, h]

/-- If the sink refuses the line, writing it is an error at the place of the statement. -/
theorem writeLine_refused (h : m.sink.writeLine text = (false, sink)) :
    writeLine text span m = .error ⟨.sinkClosed, span⟩ { m with sink := sink } := by
  rw [writeLine, h]

/-- Accepted or not, the machine has what the sink took. -/
theorem reached_writeLine (m : Machine) (text : String) :
    reached (writeLine text span m) = { m with sink := (m.sink.writeLine text).2 } := by
  rcases hwrite : m.sink.writeLine text with ⟨_ | _, sink⟩
  · rw [writeLine_refused span hwrite]
    rfl
  · rw [writeLine_accepted span hwrite]
    rfl

end Lines

namespace Truncates

/-! ### Putting computations together -/

/-- What leaves the sink alone and does not look at it. -/
theorem quiet {x x' : EStateM ε Machine α} (hsink : ∀ m, (reached (x m)).sink = m.sink)
    (h : Mirrors id (Machine.bounded c) id x x') : Truncates c raised x x' where
  appends m := .of_eq (hsink m)
  truncated m _ hm := by
    rw [h m]
    exact .fits (by rwa [hsink m])

theorem pure (a : α) : Truncates c raised (Pure.pure a) (Pure.pure a) :=
  .quiet (fun _ ↦ rfl) (.pure rfl)

theorem throw (e : ε) : Truncates c raised (throw e : EStateM ε Machine α) (throw e) :=
  .quiet (fun _ ↦ rfl) (.throw rfl)

/-- Once the sink has closed, the rest of the first evaluation can only write more. -/
theorem bind {x x' : EStateM ε Machine α} {f f' : α → EStateM ε Machine β}
    (hx : Truncates c raised x x') (hf : ∀ a, Truncates c raised (f a) (f' a)) :
    Truncates c raised (x >>= f) (x' >>= f') := by
  -- the first computation appends also after its first part
  have hafter : ∀ m, (reached (x m)).Appended (reached ((x >>= f) m)) := by
    intro m
    cases hr : x m with
    | ok a n =>
      rw [bind_ok f hr]
      exact (hf a).appends n
    | error e n =>
      rw [bind_error f hr]
      exact .of_eq rfl
  refine ⟨fun m ↦ (hx.appends m).trans (hafter m), fun m hnone hm ↦ ?_⟩
  have hcapacity := (hx.appends m).capacity.trans hnone
  have ht := hx.truncated m hnone hm
  generalize hr' : x' (m.bounded c) = r' at ht
  cases ht with
  | fits hn =>
    cases hr : x m with
    | ok a n =>
      rw [hr] at hn hr' hcapacity
      rw [bind_ok f hr, bind_ok f' hr']
      exact (hf a).truncated n hcapacity hn
    | error e n =>
      rw [hr] at hn hr'
      rw [bind_error f hr, bind_error f' hr']
      exact .fits hn
  | closed hfull hn =>
    rw [bind_error f' hr']
    exact .of_appended hfull hn (hafter m)

/-- What looks at the machine may look at everything but the bound of its sink. -/
theorem look {f f' : Machine → EStateM ε Machine β} (hbound : ∀ m, f' (m.bounded c) = f' m)
    (hf : ∀ m, Truncates c raised (f m) (f' m)) : Truncates c raised (get >>= f) (get >>= f') where
  appends m := (hf m).appends m
  truncated m hnone hm := by
    show Truncated c raised (f m m) (f' (m.bounded c) (m.bounded c))
    rw [hbound]
    exact (hf m).truncated m hnone hm

/-- A bracket around a computation, which passes errors on and has nothing to do with the sink. -/
theorem around {x x' : EStateM ε Machine α} (b : Bracket ε α ε' β) (hsink : b.Keeps Machine.sink)
    (henter : ∀ m, b.enter (m.bounded c) = (b.enter m).bounded c)
    (hleave : ∀ m r, b.leave (m.bounded c) (image id (Machine.bounded c) id r) =
      image id (Machine.bounded c) id (b.leave m r))
    (herror : ∀ m e n, ∃ n', b.leave m (.error (raised e) n) = .error (raised' e) n')
    (hx : Truncates c raised x x') : Truncates c raised' (b.run x) (b.run x') := by
  have hback : ∀ m r, (reached r).Appended (reached (b.leave m r)) := fun m r ↦
    .of_eq (hsink.leave m r)
  constructor
  · intro m
    have hin : m.Appended (b.enter m) := .of_eq (hsink.enter m)
    exact (hin.trans (hx.appends (b.enter m))).trans (hback m _)
  · intro m hnone hm
    have ht := hx.truncated (b.enter m) (by rwa [hsink.enter]) (by rwa [hsink.enter])
    unfold Bracket.run
    rw [henter]
    generalize x' ((b.enter m).bounded c) = r' at ht
    -- A bracket passes the error of a closed sink on and writes nothing more.
    cases ht with
    | fits hn =>
      rw [hleave]
      exact .fits (by rwa [hsink.leave])
    | @closed span n hfull hn =>
      obtain ⟨n', hn'⟩ := herror (m.bounded c) ⟨.sinkClosed, span⟩ n
      have hsink' := hsink.leave (m.bounded c) (.error (raised ⟨.sinkClosed, span⟩) n)
      rw [hn'] at hsink' ⊢
      refine .of_appended hfull ?_ (hback m _)
      rwa [show n'.sink = n.sink from hsink']

/-- A statement is cut where its expression is. -/
theorem toExec {x x' : EvalM α} (hx : Truncates c id x x') :
    Truncates c Signal.error x.toExec x'.toExec :=
  hx.around .toExec .toExec (fun _ ↦ rfl) (fun _ r ↦ by cases r <;> rfl) fun _ _ n ↦ ⟨n, rfl⟩

/-- A closed sink is no signal, so the border of a body passes it on. -/
theorem settle {x x' : ExecM α} (hx : Truncates c Signal.error x x') :
    Truncates c id x.settle x'.settle :=
  hx.around .settle .settle (fun _ ↦ rfl)
    (fun _ r ↦ by rcases r with ⟨a, n⟩ | ⟨span | e, n⟩ <;> rfl) fun _ _ n ↦ ⟨n, rfl⟩

/-- The current frame has nothing to do with the sink. -/
theorem inFrame {x x' : ExecM α} (hx : Truncates c Signal.error x x') (frame : FrameId) :
    Truncates c Signal.error (inFrame frame x) (inFrame frame x') :=
  hx.around (.inFrame frame) (.inFrame (fun _ _ ↦ rfl) frame) (fun _ ↦ rfl)
    (fun _ r ↦ by cases r <;> rfl) fun _ _ _ ↦ ⟨_, rfl⟩

/-- The number of active calls has nothing to do with the sink. -/
theorem whileActive {x x' : EvalM α} (hx : Truncates c id x x') :
    Truncates c id (whileActive x) (whileActive x') :=
  hx.around .whileActive (.whileActive fun _ _ ↦ rfl) (fun _ ↦ rfl)
    (fun _ r ↦ by cases r <;> rfl) fun _ _ _ ↦ ⟨_, rfl⟩

theorem backToGlobal {x x' : EvalM α} (hx : Truncates c id x x') :
    Truncates c id (backToGlobal x) (backToGlobal x') :=
  hx.around .backToGlobal (.backToGlobal fun _ _ ↦ rfl) (fun _ ↦ rfl)
    (fun _ r ↦ by cases r <;> rfl) fun _ _ _ ↦ ⟨_, rfl⟩

/-- The count and the log of an iteration have nothing to do with the sink. -/
theorem attempt {x x' : ExecM α} (hx : Truncates c Signal.error x x') (line i : Nat) :
    Truncates c Signal.error (attempt x line i) (attempt x' line i) :=
  hx.around (.attempt line i) (.attempt (fun _ _ ↦ rfl) (fun _ _ ↦ rfl) line i) (fun _ ↦ rfl)
    (fun _ r ↦ by rcases r with ⟨a, n⟩ | ⟨span | e, n⟩ <;> rfl) fun _ _ n ↦ ⟨n, rfl⟩

/-! ### Steps -/

/-- The store has nothing to do with the sink. -/
theorem onStore (change : Store → α × Store) :
    Truncates c id (onStore change) (onStore change) :=
  .quiet (fun _ ↦ rfl) fun _ ↦ rfl

/-- An operation of the store fails with either sink or with neither. -/
theorem inStore (span : Span) (x : StoreM α) :
    Truncates c id (inStore span x) (inStore span x) := by
  refine .quiet (fun m ↦ ?_) fun m ↦ ?_
  · unfold EvalM.inStore
    cases x m.store <;> rfl
  · show EvalM.inStore span x { m with sink := m.sink.bounded c } = _
    unfold EvalM.inStore
    cases x m.store <;> rfl

theorem tell (event : Event) : Truncates c id (EvalM.tell event) (EvalM.tell event) :=
  .quiet (fun _ ↦ rfl) fun _ ↦ rfl

theorem bindVar (name : String) (v : Value) :
    Truncates c id (bindVar name v) (bindVar name v) :=
  .quiet (fun _ ↦ rfl) fun _ ↦ rfl

theorem check (span : Span) (x : Except Fault α) :
    Truncates c id (check span x) (check span x) := by
  cases x with
  | ok a => exact .pure a
  | error fault => exact .throw _

/-- Statements are counted alike with either sink. -/
theorem tick (limits : Limits) (span : Span) :
    Truncates c id (tick limits span) (tick limits span) := by
  refine .quiet (fun m ↦ ?_) fun m ↦ ?_
  · rw [tick_eq]
    split <;> rfl
  · rw [tick_eq, tick_eq]
    show (if limits.admits (m.steps + 1) then _ else _) = _
    split <;> rfl

/-- The one step that looks at the sink. -/
theorem writeLine (text : String) (span : Span) :
    Truncates c id (writeLine text span) (writeLine text span) := by
  constructor
  · intro m
    have hcapacity : (m.sink.writeLine text).2.capacity = m.sink.capacity := by
      rw [Sink.writeLine, Sink.write_eq]
      split <;> rfl
    have hout : m.sink.bytes <+: (m.sink.writeLine text).2.bytes := m.sink.bytes_write _
    rw [reached_writeLine]
    exact ⟨hcapacity, hout⟩
  · intro m hnone hm
    have hfree := writeLine_accepted span (Sink.write_of_capacity hnone (text ++ "\n").toUTF8)
    have hwrite := m.sink.write_bounded c (text ++ "\n").toUTF8
    have hlength : (m.sink.append (text ++ "\n").toUTF8).bytes.length =
        m.sink.bytes.length + (text ++ "\n").toUTF8.size := by
      rw [Sink.bytes_append, List.length_append]
      rfl
    rw [hfree]
    -- What is accepted of a line that does not fit is what there was room for.
    by_cases hroom : (text ++ "\n").toUTF8.size ≤ c - m.sink.bytes.length
    · rw [if_pos hroom] at hwrite
      rw [writeLine_accepted (m := m.bounded c) span hwrite]
      refine .fits ?_
      show (m.sink.append _).bytes.length ≤ c
      omega
    · rw [if_neg hroom] at hwrite
      rw [writeLine_refused (m := m.bounded c) span hwrite]
      refine .closed ?_ (Sink.bytes_append_extract hm _)
      show c < (m.sink.append _).bytes.length
      omega

/-- A variable is read alike with either sink. -/
theorem readVar (name : String) (span : Span) :
    Truncates c id (readVar name span) (readVar name span) := by
  refine .look (fun _ ↦ rfl) fun m ↦ ?_
  split
  · exact .pure _
  · exact .throw _

/-- A variable is written and told alike with either sink. -/
theorem writeVar (name : String) (v : Value) (line : Nat) :
    Truncates c id (writeVar name v line) (writeVar name v line) := by
  refine .look (fun _ ↦ rfl) fun m ↦ .bind (.onStore _) fun isNew ↦ ?_
  split
  · exact .tell _
  · exact .pure _

/-- A throw is the same in the store; the lines after it may be cut. -/
theorem throwBall (zone : Nat) (target : PokemonId) (span : Span) :
    Truncates c id (throwBall zone target span) (throwBall zone target span) := by
  refine .bind (.onStore _) fun outcome ↦ .look (fun _ ↦ rfl) fun m ↦ .bind (.tell _) fun _ ↦ ?_
  induction outcome.messages (m.store.pokemonAt target).name with
  | nil => exact .pure _
  | cons line lines ih => exact .bind (.writeLine line span) fun _ ↦ ih

/-- A block makes the same frame with either sink. -/
theorem inNewFrame {x x' : ExecM α} (hx : Truncates c Signal.error x x') :
    Truncates c Signal.error (inNewFrame x) (inNewFrame x') :=
  .look (fun _ ↦ rfl) fun _ ↦ .bind (.toExec (.onStore _)) fun frame ↦ .inFrame hx frame

/-- An iteration that was cut ends the repetition. -/
theorem turn {x x' : ExecM α} {y y' : ExecM Unit} (line i : Nat)
    (hx : Truncates c Signal.error x x') (hy : Truncates c Signal.error y y') :
    Truncates c Signal.error (turn x line i y) (turn x' line i y') := by
  rw [turn_eq, turn_eq]
  refine .bind (.attempt hx line i) fun left ↦ ?_
  split
  · exact .pure ()
  · exact hy

end Truncates

/-! ### All of evaluation -/

/-- The comparison as a relation between two evaluations. -/
def truncation (c : Nat) : Lockstep where
  eval := Truncates c id
  exec := Truncates c Signal.error

/-- The comparison holds of every step, so it holds of all of evaluation. -/
theorem closed_truncation (c : Nat) (limits : Limits) : (truncation c).Closed limits limits where
  pure := .pure
  bind := .bind
  raise _ _ := .throw _
  newList _ := .onStore _
  readVar := .readVar
  writeVar := .writeVar
  applyBinary _ _ _ span := .look (fun _ ↦ rfl) fun _ ↦ .check span _
  getProperty span _ _ := .inStore span _
  setProperty span _ _ _ := .inStore span _
  callMethod span _ _ _ _ := .inStore span _
  callNative span _ _ := .inStore span _
  tick := .tick limits
  bindVar := .bindVar
  printValue _ span := .look (fun _ ↦ rfl) fun _ ↦ .writeLine _ span
  defineFunction name _ _ :=
    .look (fun _ ↦ rfl) fun _ ↦ .bind (.onStore _) fun f ↦ .bindVar name f
  throwBall := .throwBall
  toExec := .toExec
  execBind := .bind
  exit _ := .throw _
  inNewFrame := .inNewFrame
  turn := .turn
  enter _ _ _ _ hx := .bind (.onStore _) fun frame ↦ .whileActive <|
    .look (fun _ ↦ rfl) fun _ ↦ .bind (.tell _) fun _ ↦ .settle (.inFrame hx frame)

/-- A program, statement by statement. -/
theorem Truncates.runProgram (c : Nat) (limits : Limits) (program : Program) :
    Truncates c id (runProgram limits program) (runProgram limits program) := by
  have hclosed := closed_truncation c limits
  induction program with
  | nil => exact .pure ()
  | cons s ss ih =>
    exact .bind (.backToGlobal (.settle (hclosed.execStmt (hclosed.callWith rfl _) s))) fun _ ↦ ih

/-- An evaluation sets its counters back, runs the program and tells its end. -/
theorem Truncates.evaluate (c : Nat) (limits : Limits) (program : Program) :
    Truncates c id (evaluate limits program) (evaluate limits program) :=
  .bind (.quiet (fun _ ↦ rfl) fun _ ↦ rfl) fun _ ↦ .bind (.runProgram c limits program) fun _ ↦
    .look (fun _ ↦ rfl) fun _ ↦ .tell _

/-! ### Room in the sink -/

/-- The machine whose sink accepts so many more bytes, or any number of them. -/
def Machine.accepting (room : Option Nat) (m : Machine) : Machine :=
  { m with sink := { m.sink with capacity := room.map (m.sink.bytes.length + ·) } }

/-- **A sink that closes cuts the output and nothing else.** Let an evaluation write the bytes `out`
into a sink without a bound. With a sink that accepts `k` bytes from then on, the evaluation has the
same outcome and leaves the same machine, but for the bound, if `out` has at most `k` bytes. If it
has more, the evaluation fails because the sink is closed, and it has written the first `k` bytes of
`out`. -/
theorem evaluate_into_closing_sink (limits : Limits) (program : Program) (m : Machine) (k : Nat) :
    ∃ out, (reached (evaluate limits program (m.accepting none))).sink.bytes =
        m.sink.bytes ++ out ∧
      (out.length ≤ k → evaluate limits program (m.accepting (some k)) =
        image id (Machine.bounded (m.sink.bytes.length + k)) id
          (evaluate limits program (m.accepting none))) ∧
      (k < out.length → ∃ span stop, evaluate limits program (m.accepting (some k)) =
        .error ⟨.sinkClosed, span⟩ stop ∧ stop.sink.bytes = m.sink.bytes ++ out.take k) := by
  have h := Truncates.evaluate (m.sink.bytes.length + k) limits program
  obtain ⟨out, hout : m.sink.bytes ++ out = _⟩ := (h.appends (m.accepting none)).output
  have hlength := congrArg List.length hout
  rw [List.length_append] at hlength
  have ht : Truncated (m.sink.bytes.length + k) id (evaluate limits program (m.accepting none))
      (evaluate limits program (m.accepting (some k))) :=
    h.truncated (m.accepting none) rfl (Nat.le_add_right _ k)
  refine ⟨out, hout.symm, ?_⟩
  generalize evaluate limits program (m.accepting (some k)) = r at ht ⊢
  cases ht with
  | fits hfits =>
    refine ⟨fun _ ↦ rfl, fun hmore ↦ ?_⟩
    omega
  | @closed span stop hfull hstop =>
    refine ⟨fun hfew ↦ ?_, fun _ ↦ ⟨span, stop, rfl, ?_⟩⟩
    · omega
    · rw [hstop, ← hout, List.take_length_add_append]

/-- To print three times takes 21 bytes: a sink with room for them makes no difference, and a sink
with room for ten closes in the middle of the second line. -/
theorem evaluate_into_closing_sink_printThrice :
    (reached (evaluate {} printThrice ((Machine.new (.new none)).accepting none))).sink.bytes =
      "safari\nsafari\nsafari\n".toUTF8.data.toList ∧
    evaluate {} printThrice ((Machine.new (.new none)).accepting (some 21)) =
      image id (Machine.bounded 21) id
        (evaluate {} printThrice ((Machine.new (.new none)).accepting none)) ∧
    ∃ span stop, evaluate {} printThrice ((Machine.new (.new none)).accepting (some 10)) =
        .error ⟨.sinkClosed, span⟩ stop ∧ stop.sink.bytes = "safari\nsaf".toUTF8.data.toList := by
  have hbytes : (reached (evaluate {} printThrice
      ((Machine.new (.new none)).accepting none))).sink.bytes =
      "safari\nsafari\nsafari\n".toUTF8.data.toList := by decide +kernel
  refine ⟨hbytes, ?_, ?_⟩
  · obtain ⟨out, hout, hfits, -⟩ :=
      evaluate_into_closing_sink {} printThrice (.new (.new none)) 21
    rw [hbytes] at hout
    obtain rfl : _ = out := hout
    exact hfits (by decide)
  · obtain ⟨out, hout, -, hcloses⟩ :=
      evaluate_into_closing_sink {} printThrice (.new (.new none)) 10
    rw [hbytes] at hout
    obtain rfl : _ = out := hout
    exact hcloses (by decide)

end SafariScript
