import SafariScript.CommandLine.Basic
import SafariScript.Proofs.Evaluation.Places
import SafariScript.Proofs.Evaluation.Sequence
import SafariScript.Proofs.Evaluation.Transcript
import SafariScript.Proofs.Session.Chunks

/-!
# A session and a script with the same lines

An interactive session reads, parses and evaluates chunk by chunk; a script with the same lines is
read, parsed and evaluated as a whole. If every chunk is read and evaluated without a failure, then
the two print the same (`lines_print_as_script`).

The two runs are followed side by side, one chunk at a time (`Abreast`). The statements of a chunk
are those of the script up to places, and so are the functions that are bound so far. At the
beginning of a chunk the session has set its registers and counters back, while the script just goes
on: its registers have been restored by then, and nothing depends on the counters. So the evaluation
of the chunk and that part of the evaluation of the script mirror each other, and what the chunk
adds to the output is what the session prints for it.
-/

namespace SafariScript

open EvalM ExecM

/-! ### What a session shows -/

/-- The text, if it was printed. -/
def Shown.printed? : Shown → Option String
  | prompt _ => none
  | printed text => some text

namespace Interactive

/-- The texts that were printed, in order. -/
def printed (i : Interactive) : List String := i.shown.reverse.filterMap Shown.printed?

theorem printed_ask (i : Interactive) : i.ask.printed = i.printed := by
  show (Shown.prompt _ :: i.shown).reverse.filterMap _ = _
  rw [List.reverse_cons, List.filterMap_append]
  exact List.append_nil _

theorem printed_print (text : String) (i : Interactive) :
    (i.print text).printed = i.printed ++ [text] := by
  show (Shown.printed text :: i.shown).reverse.filterMap _ = _
  rw [List.reverse_cons, List.filterMap_append]
  rfl

/-! #### Failures are kept -/

theorem failures_script (source : String) (i : Interactive) :
    i.failures <:+ (i.script source).failures := by
  unfold script
  rcases i.session.parse source with ⟨failure | program, session⟩
  · exact List.suffix_cons ..
  · dsimp only
    split
    · exact List.suffix_append ..
    · exact List.suffix_append ..

theorem failures_chunk (text : String) (i : Interactive) :
    i.failures <:+ (i.chunk text).2.failures := by
  unfold chunk
  split
  · exact List.suffix_refl _
  · dsimp only
    split
    · exact List.suffix_refl _
    · unfold command
      split <;> exact List.suffix_refl _
  · exact failures_script text i

theorem failures_line (text : String) (i : Interactive) :
    i.failures <:+ (i.line text).2.failures := by
  rw [line_eq]
  split
  · exact failures_chunk _ { i with pending := "" }
  · exact List.suffix_refl _

theorem failures_lines (texts : List String) (i : Interactive) :
    i.failures <:+ (lines texts i).failures := by
  induction texts generalizing i with
  | nil => exact List.suffix_refl _
  | cons text texts ih =>
    have hline := failures_line text i.ask
    rw [lines]
    split
    · next i' h =>
      rw [h] at hline
      exact hline.trans (ih i')
    · next i' h => rwa [h] at hline

theorem lines_cons {text : String} {texts : List String} {i : Interactive}
    (h : (i.ask.line text).1 = true) :
    lines (text :: texts) i = lines texts (i.ask.line text).2 := by
  rw [lines]
  split
  · next i' hline => rw [hline]
  · next i' hline =>
    rw [hline] at h
    cases h

/-- Lines without a failure begin with a line without one. -/
theorem failures_line_eq_nil {text : String} {texts : List String} {i : Interactive}
    (h : (lines (text :: texts) i).failures = []) : (i.ask.line text).2.failures = [] := by
  rw [lines] at h
  split at h
  · next i' hline =>
    rw [hline]
    exact List.suffix_nil.1 (h ▸ failures_lines texts i')
  · next i' hline => rwa [hline]

/-- A chunk leaves alone what is pending. -/
theorem pending_chunk (text : String) (i : Interactive) :
    (i.chunk text).2.pending = i.pending := by
  unfold chunk
  split
  · rfl
  · dsimp only
    split
    · rfl
    · unfold command
      split <;> rfl
  · unfold script
    rcases i.session.parse text with ⟨failure | program, session⟩
    · rfl
    · dsimp only
      split <;> rfl

end Interactive

/-! ### Side by side -/

/-- A session and the machine of a script have come equally far: apart from places, they have the
same store, and the session has printed what the script has written. -/
structure Abreast (limits : Limits) (n : Machine) (i : Interactive) : Prop where
  limits : i.session.limits = limits
  echo : i.showOutline = false
  registers : n.registers = (globalFrame, 0)
  store : n.store.bare = i.session.machine.store.bare
  sink : n.sink = i.session.machine.sink
  printed : ∃ texts, i.printed = Interactive.banner :: texts ∧ n.sink = .holding (String.join texts)

namespace Abreast

variable {limits : Limits} {n : Machine} {i : Interactive}

theorem start (limits : Limits) :
    Abreast limits (Machine.new (.new none)).restart (.start limits) where
  limits := rfl
  echo := rfl
  registers := rfl
  store := rfl
  sink := rfl
  printed := ⟨[], rfl, rfl⟩

theorem ask (h : Abreast limits n i) : Abreast limits n i.ask :=
  { h with printed := by rw [Interactive.printed_ask]; exact h.printed }

/-- What is pending does not matter. -/
theorem setPending (h : Abreast limits n i) (text : String) :
    Abreast limits n { i with pending := text } :=
  ⟨h.limits, h.echo, h.registers, h.store, h.sink, h.printed⟩

theorem tell (h : Abreast limits n i) (event : Event) :
    Abreast limits n { i with session := i.session.tell event } :=
  ⟨h.limits, h.echo, h.registers, h.store, h.sink, h.printed⟩

/-- The two machines agree, apart from places, when the session begins an evaluation. -/
theorem agrees (h : Abreast limits n i) : n.bare.Agrees i.session.machine.restart.bare :=
  ⟨h.store, congrArg Prod.fst h.registers, congrArg Prod.snd h.registers, h.sink⟩

end Abreast

/-- An outcome whose image is a result is a result. -/
theorem of_image_eq_ok {ε α β : Type} {f : ε → ε} {g : α → β}
    {r : EStateM.Result ε Machine α} {b : β} {n : Machine}
    (h : image f Machine.bare g r = .ok b n) : ∃ a n', r = .ok a n' ∧ n'.bare = n := by
  cases r with
  | ok a n' =>
    cases h
    exact ⟨a, n', rfl, rfl⟩
  | error e n' => cases h

/-- **One program.** If a program comes to its end on a machine of a session, then the same program
at other places comes to its end on the machine of a script beside it, and the machines are the same
again but for places. -/
theorem runProgram_beside {limits : Limits} (hsteps : limits.maxSteps = none) {p p' : Program}
    (hp : p'.map Stmt.bare = p.map Stmt.bare) {m m' n : Machine} (hm : n.bare.Agrees m.bare)
    (h : runProgram limits p m = .ok () m') :
    ∃ n', runProgram limits p' n = .ok () n' ∧ n'.bare.Agrees m'.bare := by
  have hbare : runProgram limits (p.map Stmt.bare) m.bare = .ok () m'.bare := by
    rw [Mirrors.runProgram limits p m, h]
    rfl
  have halike := EndAlike.runProgram hsteps (p'.map Stmt.bare) hm
  rw [Mirrors.runProgram limits p' n, hp, hbare] at halike
  obtain ⟨_, n₁, m₁, hn₁, hm₁, hagrees⟩ | ⟨e, n₁, m₁, -, hm₁, -⟩ := halike.cases
  · cases hm₁
    obtain ⟨_, n', hn', rfl⟩ := of_image_eq_ok hn₁
    exact ⟨n', hn', hagrees⟩
  · cases hm₁

/-- An evaluation without a failure runs the program to its end. -/
theorem of_evaluate_eq_ok {limits : Limits} {p : Program} {m m' : Machine}
    (h : evaluate limits p m = .ok () m') :
    ∃ m₁, runProgram limits p m.restart = .ok () m₁ ∧
      m' = m₁.tell (.evaluated p.length m₁.steps) := by
  rw [evaluate_eq] at h
  cases hr : runProgram limits p m.restart with
  | ok a m₁ =>
    rw [bind_ok _ hr] at h
    exact ⟨m₁, rfl, (EStateM.Result.ok.inj h).2.symm⟩
  | error e m₁ =>
    rw [bind_error _ hr] at h
    cases h

/-- A session that evaluates a program without a failure prints what its sink received. -/
theorem Interactive.evaluate_eq {i : Interactive} {p : Program} (h : (i.evaluate p).failures = []) :
    ∃ m', SafariScript.evaluate i.session.limits p i.session.machine = .ok () m' ∧
      i.evaluate p = Interactive.print
        (m'.sink.textFrom i.session.machine.sink.written.size)
        { i with session := { i.session with machine := m' } } := by
  unfold Interactive.evaluate Session.evaluate at h ⊢
  cases hr : SafariScript.evaluate i.session.limits p i.session.machine with
  | ok u m' => exact ⟨m', rfl, rfl⟩
  | error e m' =>
    rw [hr] at h
    cases h

/-- A session that shows no outlines tells about a script and evaluates its program. -/
theorem Interactive.script_eq {i : Interactive} {source : String} {ts : List Token} {p : Program}
    (hscan : Token.scan source = .ok ts) (hparse : Program.ofTokens ts = .ok p)
    (hecho : i.showOutline = false) :
    i.script source = Interactive.evaluate p { i with
      session := (i.session.tell (.scanned ts.length (endOfTokens ts).position.line)).tell
        (.parsed p.length) } := by
  have hread : i.session.parse source = (.ok p,
      (i.session.tell (.scanned ts.length (endOfTokens ts).position.line)).tell
        (.parsed p.length)) := by
    unfold Session.parse
    rw [hscan]
    dsimp only
    rw [hparse]
  unfold Interactive.script
  rw [hread]
  dsimp only
  rw [hecho]
  rfl

namespace Abreast

variable {limits : Limits} {n : Machine} {i : Interactive} (hsteps : limits.maxSteps = none)

include hsteps

/-! ### One chunk -/

theorem evaluate (h : Abreast limits n i) {p p' : Program}
    (hp : p'.map Stmt.bare = p.map Stmt.bare) (hfailures : (i.evaluate p).failures = []) :
    ∃ n', runProgram limits p' n = .ok () n' ∧ Abreast limits n' (i.evaluate p) := by
  obtain ⟨m', heval, hi⟩ := Interactive.evaluate_eq hfailures
  rw [h.limits] at heval
  obtain ⟨m₁, hrun, rfl⟩ := of_evaluate_eq_ok heval
  obtain ⟨n', hn', hagrees⟩ := runProgram_beside hsteps hp h.agrees hrun
  obtain ⟨texts, hprinted, hsink⟩ := h.printed
  -- what the script has written meanwhile is a text, and the session prints it
  obtain ⟨t, ht⟩ := Prints.runProgram limits p' n _ hsink
  rw [hn'] at ht
  replace ht : n'.sink = .holding (String.join texts ++ t) := ht
  have hregisters : n'.registers = n.registers :=
    registers_runProgram (congrArg Prod.fst h.registers) hn'
  have htext : m₁.sink.textFrom i.session.machine.sink.written.size = t := by
    rw [← h.sink, hsink, ← show n'.sink = m₁.sink from hagrees.sink, ht,
      Sink.size_written_holding, Sink.textFrom_holding]
  refine ⟨n', hn', ?_⟩
  rw [hi]
  refine ⟨h.limits, h.echo, hregisters.trans h.registers, hagrees.store, hagrees.sink,
    texts ++ [t], ?_, ?_⟩
  · rw [Interactive.printed_print]
    exact congrArg₂ (· ++ [·]) hprinted htext
  · rw [ht, String.join_append, String.join_cons, String.join_nil, String.append_empty]

/-- A chunk that is read as a program is handled beside the same statements of a script. -/
theorem chunk (h : Abreast limits n i) {source : String} {p p' : Program} (hread : ReadAs source p)
    (hp : p'.map Stmt.bare = p.map Stmt.bare) (hfailures : (i.chunk source).2.failures = []) :
    (i.chunk source).1 = true ∧
      ∃ n', runProgram limits p' n = .ok () n' ∧ Abreast limits n' (i.chunk source).2 := by
  obtain ⟨ts, hscan, hparse⟩ := hread
  obtain ⟨hchunk, place, rfl⟩ | hchunk := Interactive.chunk_of_scan hscan i
  · have hnone : p = [] := ReadAs.eq_nil ⟨_, hscan, hparse⟩ hscan
    rw [hnone, List.map_nil, List.map_eq_nil_iff] at hp
    rw [hchunk, hp]
    exact ⟨rfl, n, rfl, h⟩
  · rw [hchunk, Interactive.script_eq hscan hparse h.echo] at hfailures ⊢
    exact ⟨rfl, ((h.tell _).tell _).evaluate hsteps hp hfailures⟩

/-! ### All chunks -/

/-- **Line by line.** If the lines that come to what is pending form chunks, none of them left over,
and a script consists of the statements of these chunks up to places, then the script is run to its
end beside the lines. -/
theorem lines (h : Abreast limits n i) {texts cs : List String}
    (hchunks : Interactive.chunks i.pending texts = (cs, "")) {q : Program}
    (hread : ReadInTurn cs q) (hfailures : (Interactive.lines texts i).failures = []) :
    ∃ n', runProgram limits q n = .ok () n' ∧ Abreast limits n' (Interactive.lines texts i) := by
  induction texts generalizing n i cs q with
  | nil =>
    rw [Interactive.chunks, Prod.mk.injEq] at hchunks
    obtain ⟨rfl, -⟩ := hchunks
    cases hread
    exact ⟨n, rfl, h.ask⟩
  | cons text texts ih =>
    rw [Interactive.chunks] at hchunks
    have hline := Interactive.line_eq text i.ask
    have hnone := Interactive.failures_line_eq_nil hfailures
    split at hchunks
    · next hcomplete =>
      -- the chunk is handled, and the rest begins with nothing pending
      obtain ⟨rfl, hrest⟩ := Prod.mk.inj hchunks
      obtain _ | ⟨hp, hbare, hturn⟩ := hread
      rw [show i.ask.pending = i.pending from rfl, if_pos hcomplete] at hline
      rw [hline] at hnone
      obtain ⟨hon, n', hn', hi'⟩ := (h.ask.setPending "").chunk hsteps hp hbare hnone
      rw [← hline] at hon hi'
      rw [Interactive.lines_cons hon] at hfailures ⊢
      have hpending : (i.ask.line text).2.pending = "" := by
        rw [hline]
        exact Interactive.pending_chunk _ { i.ask with pending := "" }
      have hchunks' : Interactive.chunks (i.ask.line text).2.pending texts =
          ((Interactive.chunks "" texts).1, "") := by
        rw [hpending]
        exact Prod.ext rfl hrest
      obtain ⟨n'', hn'', hlast⟩ := ih hi' hchunks' hturn hfailures
      exact ⟨n'', by rw [runProgram_append, bind_ok _ hn', hn''], hlast⟩
    · next hopen =>
      -- the line is kept for a longer chunk
      rw [show i.ask.pending = i.pending from rfl, if_neg hopen] at hline
      rw [Interactive.lines_cons (by rw [hline]), hline] at hfailures ⊢
      exact ih (h.ask.setPending _) hchunks hread hfailures

end Abreast

/-- The outcome of a script whose program comes to its end. -/
theorem CommandLine.runScript_eq {o : Options} (htokens : o.dumpTokens = false)
    (houtline : o.dumpOutline = false) {source : String} {p : Program} (hread : ReadAs source p)
    {n : Machine} (hrun : runProgram o.limits p (Machine.new (.new none)).restart = .ok () n) :
    runScript o source = ⟨n.sink.textFrom 0, [], 0⟩ := by
  obtain ⟨ts, hscan, hparse⟩ := hread
  have heval : SafariScript.evaluate o.limits p (Machine.new (.new none)) =
      .ok () (n.tell (.evaluated p.length n.steps)) := by
    rw [SafariScript.evaluate_eq, bind_ok _ hrun]
    rfl
  have hsession : (Session.new o.limits (.new none)).evaluate p =
      (none, ⟨o.limits, n.tell (.evaluated p.length n.steps)⟩) := by
    unfold Session.evaluate
    rw [show SafariScript.evaluate (Session.new o.limits (.new none)).limits p
      (Session.new o.limits (.new none)).machine = _ from heval]
    rfl
  unfold runScript
  rw [hscan]
  dsimp only
  rw [hparse, htokens, houtline]
  dsimp only
  rw [hsession]
  rfl

/-- **A session prints what the script prints.** Let lines form chunks, with no line left over, let
every chunk be read as a program, and let the session on these lines report no failure. Then,
without a budget of steps, what the session prints behind its banner is the output of the script
that consists of the lines joined by line feeds, under the same limit on the depth of calls; and the
script ends without a failure, with the exit status zero. -/
theorem lines_print_as_script {o : CommandLine.Options} (htokens : o.dumpTokens = false)
    (houtline : o.dumpOutline = false) (hsteps : o.maxSteps = none) {texts cs : List String}
    (hchunks : Interactive.chunks "" texts = (cs, "")) (hread : ∀ c ∈ cs, ∃ p, ReadAs c p)
    (hfailures : (Interactive.lines texts (.start o.limits)).failures = []) :
    ∃ printed,
      (Interactive.lines texts (.start o.limits)).printed = Interactive.banner :: printed ∧
      CommandLine.runScript o ("\n".intercalate texts) = ⟨String.join printed, [], 0⟩ := by
  obtain ⟨q, hq, hturn⟩ := readAs_intercalate hread
  rw [← Interactive.intercalate_chunks hchunks] at hq
  obtain ⟨n, hn, hend⟩ := (Abreast.start o.limits).lines hsteps hchunks hturn hfailures
  obtain ⟨printed, hprinted, hsink⟩ := hend.printed
  refine ⟨printed, hprinted, ?_⟩
  have htext : n.sink.textFrom 0 = String.join printed := by
    have hall := Sink.textFrom_holding "" (String.join printed)
    rwa [String.empty_append, ← hsink] at hall
  rw [← htext]
  exact CommandLine.runScript_eq htokens houtline hq hn

/-- A function that takes two lines, with a comment behind it, is called in a later chunk, after a
blank one and one that binds the variable which the function prints. -/
theorem lines_print_as_script_closure :
    let o : CommandLine.Options := {}
    let texts := [r"define f() {", r"print x; } //", "", "var x = \"é\";", "f();"]
    let cs := [r"define f() {
print x; } //", "", "var x = \"é\";", "f();"]
    (Interactive.chunks "" texts = (cs, "") ∧ (∀ c ∈ cs, ∃ p, ReadAs c p) ∧
      (Interactive.lines texts (.start o.limits)).failures = []) ∧
    (Interactive.lines texts (.start o.limits)).printed = [Interactive.banner, "", "", "é\n"] ∧
    CommandLine.runScript o ("\n".intercalate texts) = ⟨"é\n", [], 0⟩ := by
  intro o texts cs
  have hchunks : Interactive.chunks "" texts = (cs, "") := by decide
  have hread : ∀ c ∈ cs, ∃ p, ReadAs c p := by decide +kernel
  have hfailures : (Interactive.lines texts (.start o.limits)).failures = [] :=
    List.isEmpty_iff.1 (by decide +kernel)
  have hshown : (Interactive.lines texts (.start o.limits)).printed =
      [Interactive.banner, "", "", "é\n"] := by decide +kernel
  obtain ⟨printed, hprinted, hscript⟩ :=
    lines_print_as_script (o := o) rfl rfl rfl hchunks hread hfailures
  obtain rfl : ["", "", "é\n"] = printed := (List.cons.inj (hshown.symm.trans hprinted)).2
  exact ⟨⟨hchunks, hread, hfailures⟩, hshown, hscript⟩

end SafariScript
