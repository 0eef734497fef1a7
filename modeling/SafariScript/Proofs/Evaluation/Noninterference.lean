import SafariScript.Proofs.Evaluation.Discipline
import SafariScript.Proofs.Evaluation.Outcome
import SafariScript.Proofs.Machine.Output
import SafariScript.Proofs.Store.Sharing

/-!
# Calls do not depend on the caller

A function runs in a frame inside the one where it was defined, so the variables of whoever calls it
are none of its business. This is stated as **noninterference**: if two machines agree on what can
be got at from the function, its arguments and the global frame (`Machine.AgreesOn`), then the call
has the same value or the same error in both and appends the same output, and the machines agree
again afterwards; whatever else is in their frames and objects, and whichever frame is the current
one.

The part that the machines share is fixed when the call starts: what can be got at then, and all
that is not yet there. It does not shrink, and evaluation never leaves it: that is a discipline, in
which the values at hand refer into the part (`shareDiscipline`). Inside a call the current frame
is the same in both machines and in the part (`Inside`); only around the call as a whole it may
differ, and there nothing looks at it (`Twins`).
-/

namespace SafariScript

open EvalM ExecM

/-! ### Machines side by side -/

/-- Two machines that share the part `A`, have counted alike, and have written the same since they
had written `b` and `b'`. -/
structure Twins (A : Ref → Prop) (b b' : List UInt8) (m m' : Machine) : Prop where
  store : Store.Shared A m.store m'.store
  active : m.active = m'.active
  steps : m.steps = m'.steps
  iterations : m.iterations = m'.iterations
  room : m.sink.room? = m'.sink.room?
  output : ∃ out, m.sink.bytes = b ++ out ∧ m'.sink.bytes = b' ++ out

/-- The two machines are also in the same frame, which belongs to the part. -/
structure Inside (A : Ref → Prop) (b b' : List UInt8) (m m' : Machine) : Prop
    extends Twins A b b' m m' where
  frame : m'.frame = m.frame
  inside : A (.frame m.frame)

/-- The same value or the same error, in machines that are related. -/
inductive SameOutcome {ε α : Type} (R : Machine → Machine → Prop) (P : α → Prop) :
    EStateM.Result ε Machine α → EStateM.Result ε Machine α → Prop
  | ok {a : α} {n n' : Machine} : P a → R n n' → SameOutcome R P (.ok a n) (.ok a n')
  | error {e : ε} {n n' : Machine} : R n n' → SameOutcome R P (.error e n) (.error e n')

namespace SameOutcome

variable {ε α β : Type} {R R' : Machine → Machine → Prop} {P : α → Prop} {m m' : Machine}

theorem mono {Q : α → Prop} {r r' : EStateM.Result ε Machine α} (hR : ∀ n n', R n n' → R' n n')
    (hP : ∀ a, P a → Q a) (h : SameOutcome R P r r') : SameOutcome R' Q r r' := by
  cases h with
  | ok ha hn => exact .ok (hP _ ha) (hR _ _ hn)
  | error hn => exact .error (hR _ _ hn)

/-! ### Sequences and brackets -/

/-- The rest starts in related machines, with a value that they have in common. -/
theorem bind {Q : β → Prop} {x x' : EStateM ε Machine α} {f f' : α → EStateM ε Machine β}
    (hx : SameOutcome R P (x m) (x' m'))
    (hf : ∀ a n n', P a → R n n' → SameOutcome R Q (f a n) (f' a n')) :
    SameOutcome R Q ((x >>= f) m) ((x' >>= f') m') := by
  generalize hr : x m = r at hx
  generalize hr' : x' m' = r' at hx
  cases hx with
  | ok ha hn =>
    rw [bind_ok f hr, bind_ok f' hr']
    exact hf _ _ _ ha hn
  | error hn =>
    rw [bind_error f hr, bind_error f' hr']
    exact .error hn

/-- An error of an expression is the same error of the statement. -/
theorem toExec {x x' : EvalM α} (h : SameOutcome R P (x m) (x' m')) :
    SameOutcome R P (x.toExec m) (x'.toExec m') := by
  unfold EvalM.toExec
  generalize x m = r at h ⊢
  generalize x' m' = r' at h ⊢
  cases h with
  | ok ha hn => exact .ok ha hn
  | error hn => exact .error hn

/-- Both bodies are left at the same place, or neither is. -/
theorem settle {x x' : ExecM α} (h : SameOutcome R P (x m) (x' m')) :
    SameOutcome R P (x.settle m) (x'.settle m') := by
  unfold ExecM.settle
  generalize x m = r at h ⊢
  generalize x' m' = r' at h ⊢
  cases h with
  | ok ha hn => exact .ok ha hn
  | @error e n n' hn =>
    cases e with
    | exit span => exact .error hn
    | error e => exact .error hn

/-- A call is counted and uncounted in both machines. -/
theorem whileActive {x x' : EvalM α}
    (hR : ∀ n n', R n n' → R' { n with active := n.active - 1 } { n' with active := n'.active - 1 })
    (h : SameOutcome R P (x { m with active := m.active + 1 })
      (x' { m' with active := m'.active + 1 })) :
    SameOutcome R' P (whileActive x m) (whileActive x' m') := by
  unfold EvalM.whileActive
  generalize x { m with active := m.active + 1 } = r at h ⊢
  generalize x' { m' with active := m'.active + 1 } = r' at h ⊢
  cases h with
  | ok ha hn => exact .ok ha (hR _ _ hn)
  | error hn => exact .error (hR _ _ hn)

/-- Each machine goes back to its own frame. -/
theorem inFrame {x x' : ExecM α} {frame : FrameId}
    (hR : ∀ n n', R n n' → R' { n with frame := m.frame } { n' with frame := m'.frame })
    (h : SameOutcome R P (x { m with frame := frame }) (x' { m' with frame := frame })) :
    SameOutcome R' P (inFrame frame x m) (inFrame frame x' m') := by
  unfold ExecM.inFrame
  generalize x { m with frame := frame } = r at h ⊢
  generalize x' { m' with frame := frame } = r' at h ⊢
  cases h with
  | ok ha hn => exact .ok ha (hR _ _ hn)
  | error hn => exact .error (hR _ _ hn)

/-- An iteration counts alike, and both machines tell that it was left or neither does. -/
theorem attempt {x x' : ExecM α} {line i : Nat}
    (hR : ∀ n n', R n n' → R (n.tell (.leftRepeat i line)) (n'.tell (.leftRepeat i line)))
    (h : SameOutcome R P (x { m with iterations := m.iterations + 1 })
      (x' { m' with iterations := m'.iterations + 1 })) :
    SameOutcome R (fun _ ↦ True) (attempt x line i m) (attempt x' line i m') := by
  unfold ExecM.attempt
  generalize x { m with iterations := m.iterations + 1 } = r at h ⊢
  generalize x' { m' with iterations := m'.iterations + 1 } = r' at h ⊢
  cases h with
  | ok ha hn => exact .ok trivial hn
  | @error e n n' hn =>
    cases e with
    | exit span => exact .ok trivial (hR _ _ hn)
    | error e => exact .error hn

/-- An operation of the store that does the same to both stores. -/
theorem inStore {A : Ref → Prop} {c : α → List Value} {span : Span} {x : StoreM α}
    (hx : Store.SameResult A c (x m.store) (x m'.store))
    (hR : ∀ s s', Store.Shared A s s' → R { m with store := s } { m' with store := s' }) :
    SameOutcome R (fun a ↦ ∀ v ∈ c a, v.RefersInto A) (inStore span x m) (inStore span x m') := by
  unfold EvalM.inStore
  generalize x m.store = r at hx ⊢
  generalize x m'.store = r' at hx ⊢
  cases hx with
  | ok hvalues hstore => exact .ok hvalues (hR _ _ hstore)
  | error hstore => exact .error (hR _ _ hstore)

end SameOutcome

/-! ### Steps of the machines -/

section Steps

variable {A : Ref → Prop} {b b' : List UInt8} {m m' : Machine}

/-- The part stays shared when both stores change alike. -/
theorem Twins.withStore (h : Twins A b b' m m') {s s' : Store} (hs : Store.Shared A s s') :
    Twins A b b' { m with store := s } { m' with store := s' } :=
  ⟨hs, h.active, h.steps, h.iterations, h.room, h.output⟩

/-- Two machines inside the part stay there, if their stores still share it. -/
theorem Inside.withStore (h : Inside A b b' m m') {s s' : Store} (hs : Store.Shared A s s') :
    Inside A b b' { m with store := s } { m' with store := s' } :=
  ⟨h.toTwins.withStore hs, h.frame, h.inside⟩

/-- Both machines go into a body, in frames of the same number. -/
theorem Twins.enterBody (h : Twins A b b' m m') {f : Function} {args : List Value}
    (hf : (Value.function f).RefersInto A) (hargs : ∀ v ∈ args, v.RefersInto A) :
    Inside A b b' (m.enterBody f args) (m'.enterBody f args) := by
  have hclosure : A (.frame f.closure) := hf _ List.mem_cons_self
  obtain ⟨hnumber, hnew, hstore⟩ := h.store.newFrame hclosure
  have hbindings : ∀ bd ∈ f.params.zip args, bd.2.RefersInto A := fun bd hbd ↦
    hargs bd.2 (List.of_mem_zip hbd).2
  have hdefined := hstore.defineAll hbindings (m.store.newFrame f.closure).1
  refine ⟨⟨?_, h.active, h.steps, h.iterations, h.room, h.output⟩, hnumber.symm, hnew⟩
  show Store.Shared A _ ((m'.store.newFrame f.closure).2.defineAll
    (m'.store.newFrame f.closure).1 (f.params.zip args))
  rw [← hnumber]
  exact hdefined

/-- Both machines go into a block, in frames of the same number. -/
theorem Inside.enterBlock (h : Inside A b b' m m') :
    Inside A b b' m.enterBlock m'.enterBlock := by
  obtain ⟨hnumber, hnew, hstore⟩ := h.store.newFrame h.inside
  refine ⟨⟨?_, h.active, h.steps, h.iterations, h.room, h.output⟩, ?_, hnew⟩
  · show Store.Shared A _ (m'.store.newFrame m'.frame).2
    rw [h.frame]
    exact hstore
  · show (m'.store.newFrame m'.frame).1 = _
    rw [h.frame]
    exact hnumber.symm

end Steps

/-! ### Computations that do not look outside -/

/-- From machines inside the part, the two computations have the same outcome, and the values it
carries refer into the part. -/
def Blind {ε α : Type} (A : Ref → Prop) (b b' : List UInt8) (c : α → List Value)
    (x x' : EStateM ε Machine α) : Prop :=
  ∀ ⦃m m' : Machine⦄, Inside A b b' m m' →
    SameOutcome (Inside A b b') (fun a ↦ ∀ v ∈ c a, v.RefersInto A) (x m) (x' m')

namespace Blind

variable {ε α β : Type} {A : Ref → Prop} {b b' : List UInt8} {c : α → List Value}
  {d : β → List Value}

/-! #### Putting computations together -/

theorem pure {a : α} (ha : ∀ v ∈ c a, v.RefersInto A) :
    Blind A b b' c (Pure.pure a : EStateM ε Machine α) (Pure.pure a) :=
  fun _ _ h ↦ .ok ha h

theorem throw (e : ε) : Blind A b b' c (throw e : EStateM ε Machine α) (throw e) :=
  fun _ _ h ↦ .error h

/-- The rest may rely on values that refer into the part. -/
theorem bind {x x' : EStateM ε Machine α} {f f' : α → EStateM ε Machine β}
    (hx : Blind A b b' c x x')
    (hf : ∀ a, (∀ v ∈ c a, v.RefersInto A) → Blind A b b' d (f a) (f' a)) :
    Blind A b b' d (x >>= f) (x' >>= f') :=
  fun _ _ h ↦ (hx h).bind fun a _ _ ha hn ↦ hf a ha hn

theorem toExec {x x' : EvalM α} (hx : Blind A b b' c x x') :
    Blind A b b' c x.toExec x'.toExec :=
  fun _ _ h ↦ (hx h).toExec

/-- The new frame has the same number in both machines, and it belongs to the part. -/
theorem inNewFrame {x x' : ExecM α} (hx : Blind A b b' c x x') :
    Blind A b b' c (inNewFrame x) (inNewFrame x') := by
  intro m m' h
  have hin := h.enterBlock
  rw [inNewFrame_eq, inNewFrame_eq, hin.frame]
  refine .inFrame (fun n n' hn ↦ ⟨⟨hn.store, hn.active, hn.steps, hn.iterations, hn.room,
    hn.output⟩, h.frame, h.inside⟩) (hx ?_)
  exact ⟨⟨hin.store, h.active, h.steps, h.iterations, h.room, h.output⟩, rfl, hin.inside⟩

/-- What leaves the iteration is caught in both machines. -/
theorem turn {x x' : ExecM α} {y y' : ExecM Unit} {line i : Nat} (hx : Blind A b b' c x x')
    (hy : Blind A b b' Discipline.nothing y y') :
    Blind A b b' Discipline.nothing (turn x line i y) (turn x' line i y') := by
  have hattempt : Blind A b b' Discipline.nothing (attempt x line i) (attempt x' line i) := by
    intro m m' h
    have hstart : Inside A b b' { m with iterations := m.iterations + 1 }
        { m' with iterations := m'.iterations + 1 } :=
      ⟨⟨h.store, h.active, h.steps, congrArg (· + 1) h.iterations, h.room, h.output⟩, h.frame,
        h.inside⟩
    refine (SameOutcome.attempt (fun n n' hn ↦ ?_) (hx hstart)).mono (fun _ _ hn ↦ hn)
      fun _ _ ↦ nofun
    exact ⟨⟨hn.store, hn.active, hn.steps, hn.iterations, hn.room, hn.output⟩, hn.frame, hn.inside⟩
  rw [turn_eq, turn_eq]
  refine hattempt.bind fun left _ ↦ ?_
  split
  · exact .pure nofun
  · exact hy

/-- What looks at the machine may look at what is shared. -/
theorem look {f : Machine → EStateM ε Machine β}
    (hf : ∀ m m', Inside A b b' m m' →
      SameOutcome (Inside A b b') (fun a ↦ ∀ v ∈ d a, v.RefersInto A) (f m m) (f m' m')) :
    Blind A b b' d (get >>= f) (get >>= f) :=
  fun m m' h ↦ hf m m' h

/-! #### Steps -/

theorem tell (event : Event) :
    Blind A b b' Discipline.nothing (EvalM.tell event) (EvalM.tell event) := fun _ _ h ↦
  .ok nofun ⟨⟨h.store, h.active, h.steps, h.iterations, h.room, h.output⟩, h.frame, h.inside⟩

/-- A change of the store that does the same to two stores that share the part. -/
theorem onStore {change : Store → α × Store}
    (hchange : ∀ s s', Store.Shared A s s' → (change s').1 = (change s).1 ∧
      (∀ v ∈ c (change s).1, v.RefersInto A) ∧ Store.Shared A (change s).2 (change s').2) :
    Blind A b b' c (onStore change) (onStore change) := by
  intro m m' h
  obtain ⟨hvalue, hcarried, hstore⟩ := hchange m.store m'.store h.store
  show SameOutcome _ _ (.ok (change m.store).1 _) (.ok (change m'.store).1 _)
  rw [hvalue]
  exact .ok hcarried (h.withStore hstore)

/-- A new list has the same number in both machines. -/
theorem newList {vs : List Value} (hvs : ∀ v ∈ vs, v.RefersInto A) :
    Blind A b b' (fun v ↦ [v]) (EvalM.onStore (Store.newList vs))
      (EvalM.onStore (Store.newList vs)) := by
  refine onStore fun s s' h ↦ ?_
  obtain ⟨hvalue, hstore⟩ := h.newList vs
  exact ⟨hvalue, fun v hv ↦ List.mem_singleton.1 hv ▸ .list hvs, hstore⟩

/-- An operation of the store that does not look outside of the part. -/
theorem inStore {span : Span} {x : StoreM α}
    (hx : ∀ s s', Store.Shared A s s' → Store.SameResult A c (x s) (x s')) :
    Blind A b b' c (inStore span x) (inStore span x) := fun m m' h ↦
  .inStore (hx m.store m'.store h.store) fun _ _ ↦ h.withStore

/-- A check looks at no store. -/
theorem check {span : Span} {x : Except Fault α}
    (h : ∀ a, x = .ok a → ∀ v ∈ c a, v.RefersInto A) :
    Blind A b b' c (check span x) (check span x) := by
  cases x with
  | ok a => exact .pure (h a rfl)
  | error fault => exact .throw _

/-- The sinks have the same room, so both accept the line or both refuse it. -/
theorem writeLine (text : String) (span : Span) :
    Blind A b b' Discipline.nothing (writeLine text span) (writeLine text span) := by
  intro m m' h
  obtain ⟨hdone, hroom, more, hm, hm'⟩ := Sink.write_alike h.room (text ++ "\n").toUTF8
  obtain ⟨out, hout, hout'⟩ := h.output
  have hn : Inside A b b' { m with sink := (m.sink.writeLine text).2 }
      { m' with sink := (m'.sink.writeLine text).2 } := by
    refine ⟨⟨h.store, h.active, h.steps, h.iterations, hroom, out ++ more, ?_, ?_⟩, h.frame,
      h.inside⟩
    · rw [← List.append_assoc, ← hout]
      exact hm
    · rw [← List.append_assoc, ← hout']
      exact hm'
  have hflag : (m.sink.writeLine text).1 = (m'.sink.writeLine text).1 := hdone
  unfold EvalM.writeLine
  generalize m.sink.writeLine text = w at hn hflag ⊢
  generalize m'.sink.writeLine text = w' at hn hflag ⊢
  obtain ⟨done, sink⟩ := w
  obtain ⟨done', sink'⟩ := w'
  obtain rfl : done = done' := hflag
  cases done with
  | true => exact .ok nofun hn
  | false => exact .error hn

theorem writeLines (lines : List String) (span : Span) :
    Blind A b b' Discipline.nothing (lines.forM fun line ↦ EvalM.writeLine line span)
      (lines.forM fun line ↦ EvalM.writeLine line span) := by
  induction lines with
  | nil => exact .pure nofun
  | cons line lines ih => exact .bind (.writeLine line span) fun _ _ ↦ ih

/-- The counts are the same, so both stop or neither. -/
theorem tick (limits : Limits) (span : Span) :
    Blind A b b' Discipline.nothing (tick limits span) (tick limits span) := by
  intro m m' h
  have hn : Inside A b b' { m with steps := m.steps + 1 } { m' with steps := m'.steps + 1 } :=
    ⟨⟨h.store, h.active, congrArg (· + 1) h.steps, h.iterations, h.room, h.output⟩, h.frame,
      h.inside⟩
  rw [tick_eq, tick_eq, ← h.steps]
  rw [← h.steps] at hn
  split
  · exact .ok nofun hn
  · exact .error hn

/-- The current frame is in the part, and so is all that its names stand for. -/
theorem readVar (name : String) (span : Span) :
    Blind A b b' (fun v ↦ [v]) (readVar name span) (readVar name span) := by
  intro m m' h
  have hsame : m'.store.frames.get? m'.frame name = m.store.frames.get? m.frame name := by
    rw [h.frame, h.store.get?_eq h.inside]
  cases hv : m.store.frames.get? m.frame name with
  | none =>
    rw [readVar_none hv, readVar_none (hsame.trans hv)]
    exact .error h
  | some v =>
    rw [readVar_some hv, readVar_some (hsame.trans hv)]
    refine .ok (fun u hu ↦ ?_) h
    rw [List.mem_singleton.1 hu]
    exact h.store.refersInto_get? h.inside hv

/-- The assignment changes a frame of the part. -/
theorem writeVar {name : String} {v : Value} {line : Nat} (hv : v.RefersInto A) :
    Blind A b b' Discipline.nothing (writeVar name v line) (writeVar name v line) := by
  intro m m' h
  obtain ⟨-, hstore⟩ := h.store.assign h.inside hv name
  rw [writeVar_eq, writeVar_eq, h.frame]
  exact .ok nofun ⟨⟨hstore, h.active, h.steps, h.iterations, h.room, h.output⟩, rfl, h.inside⟩

/-- The definition changes the current frame, which is in the part. -/
theorem bindVar (name : String) {v : Value} (hv : v.RefersInto A) :
    Blind A b b' Discipline.nothing (bindVar name v) (bindVar name v) := by
  intro m m' h
  have hstore := h.store.define hv m.frame name
  show SameOutcome _ _ (.ok () _) (.ok () { m' with store := m'.store.define m'.frame name v })
  rw [h.frame]
  exact .ok nofun ⟨⟨hstore, h.active, h.steps, h.iterations, h.room, h.output⟩, rfl, h.inside⟩

/-- A function remembers the current frame, which is in the part. -/
theorem defineFunction (name : String) (params : List String) (body : List Stmt) :
    Blind A b b' Discipline.nothing (defineFunction name params body)
      (defineFunction name params body) := by
  intro m m' h
  obtain ⟨hvalue, hstore⟩ := h.store.newFunction name params body m.frame
  have hf : (m.store.newFunction name params body m.frame).1.RefersInto A := fun r hr ↦
    List.mem_singleton.1 hr ▸ h.inside
  have hbind := bindVar name hf (h.withStore hstore)
  show SameOutcome _ _
    (SafariScript.bindVar name (m.store.newFunction name params body m.frame).1
      { m with store := (m.store.newFunction name params body m.frame).2 })
    (SafariScript.bindVar name (m'.store.newFunction name params body m'.frame).1
      { m' with store := (m'.store.newFunction name params body m'.frame).2 })
  rw [h.frame] at hbind
  rw [h.frame, hvalue]
  exact hbind

/-- Operators compare what their operands refer to, all of it in the part. -/
theorem applyBinary {op : BinaryOp} {l r : Value} {span : Span} (hl : l.RefersInto A)
    (hr : r.RefersInto A) :
    Blind A b b' (fun v ↦ [v]) (applyBinary op l r span) (applyBinary op l r span) := by
  refine look fun m m' h ↦ ?_
  have happly : op.apply m'.text l r = op.apply m.text l r :=
    binary_congr (h.store.text_eq hl) (h.store.text_eq hr) op
  rw [happly]
  exact check (fun v hv u hu ↦ .of_refs_eq_nil (List.mem_singleton.1 hu ▸ refs_binary hv)) h

/-- What is printed for a value depends on what it refers to. -/
theorem printValue {v : Value} {span : Span} (hv : v.RefersInto A) :
    Blind A b b' Discipline.nothing (printValue v span) (printValue v span) := by
  refine look fun m m' h ↦ ?_
  have htext : m'.text v = m.text v := h.store.text_eq hv
  rw [htext]
  exact writeLine _ span h

/-- A throw changes the zone and the Pokémon, which are in the part. -/
theorem throwBall {zone : Nat} {target : PokemonId} {span : Span}
    (hzone : A (.object (.zone zone))) (htarget : A (.object (.pokemon target))) :
    Blind A b b' Discipline.nothing (throwBall zone target span) (throwBall zone target span) := by
  have hthrow : Blind A b b' Discipline.nothing (EvalM.onStore (Store.throwBall zone target))
      (EvalM.onStore (Store.throwBall zone target)) := by
    refine onStore fun s s' h ↦ ?_
    obtain ⟨houtcome, hstore⟩ := h.throwBall hzone htarget
    exact ⟨houtcome, nofun, hstore⟩
  refine hthrow.bind fun outcome _ ↦ look fun m m' h ↦ ?_
  rw [h.store.pokemonAt_eq htarget]
  exact bind (tell _) (fun _ _ ↦ writeLines _ span) h

end Blind

/-- A call runs its body inside the part, also when it starts in different frames; these are put
back. -/
theorem Twins.enter {α : Type} {A : Ref → Prop} {b b' : List UInt8} {c : α → List Value}
    {m m' : Machine} (h : Twins A b b' m m') {f : Function} {args : List Value}
    (hf : (Value.function f).RefersInto A) (hargs : ∀ v ∈ args, v.RefersInto A) {x x' : ExecM α}
    (hx : Blind A b b' c x x') :
    SameOutcome (fun n n' ↦ Twins A b b' n n' ∧ n.frame = m.frame ∧ n'.frame = m'.frame)
      (fun a ↦ ∀ v ∈ c a, v.RefersInto A)
      ((parameterFrame f args >>= fun frame ↦ inCall f.name frame x) m)
      ((parameterFrame f args >>= fun frame ↦ inCall f.name frame x') m') := by
  have hin := h.enterBody hf hargs
  rw [enter_eq, enter_eq, hin.frame]
  refine .whileActive (R := fun n n' ↦
    Twins A b b' { n with active := n.active - 1 } { n' with active := n'.active - 1 } ∧
      n.frame = m.frame ∧ n'.frame = m'.frame) (fun _ _ hn ↦ hn) ?_
  refine .settle (.inFrame (R := Inside A b b') (fun n n' hn ↦ ?_) (hx ?_))
  · exact ⟨⟨hn.store, congrArg (· - 1) hn.active, hn.steps, hn.iterations, hn.room, hn.output⟩,
      rfl, rfl⟩
  · exact ⟨⟨hin.store, congrArg (· + 1) h.active, h.steps, h.iterations, h.room, h.output⟩, rfl,
      hin.inside⟩

/-- The frame of the parameters is new, so both machines are inside the part while the body runs. -/
theorem Blind.enter {α : Type} {A : Ref → Prop} {b b' : List UInt8} {c : α → List Value}
    {f : Function} {args : List Value} (hf : (Value.function f).RefersInto A)
    (hargs : ∀ v ∈ args, v.RefersInto A) {x x' : ExecM α} (hx : Blind A b b' c x x') :
    Blind A b b' c (parameterFrame f args >>= fun frame ↦ inCall f.name frame x)
      (parameterFrame f args >>= fun frame ↦ inCall f.name frame x') := by
  intro m m' h
  refine (h.toTwins.enter hf hargs hx).mono (fun n n' hn ↦ ?_) fun _ ha ↦ ha
  obtain ⟨htwins, hframe, hframe'⟩ := hn
  exact ⟨htwins, by rw [hframe', hframe, h.frame], by rw [hframe]; exact h.inside⟩

/-! ### All of evaluation -/

/-- Not to look outside of the part, as a discipline: the values at hand refer into it. -/
def shareDiscipline (A : Ref → Prop) (b b' : List UInt8) : Discipline where
  World := Unit
  le _ _ := True
  holds _ v := v.RefersInto A
  place _ := True
  act _ := True
  leave _ := True
  eval _ x x' c := Blind A b b' c x x'
  exec _ _ x x' c := Blind A b b' c x x'

theorem free_shareDiscipline (A : Ref → Prop) (b b' : List UInt8) :
    (shareDiscipline A b b').Free :=
  ⟨fun _ ↦ trivial, fun _ ↦ trivial, fun _ ↦ trivial⟩

/-- No step looks outside of the part. -/
theorem closed_shareDiscipline (A : Ref → Prop) (b b' : List UInt8) (limits : Limits) :
    (shareDiscipline A b b').Closed limits limits where
  trans _ _ := trivial
  mono _ hv := hv
  plain value := .of_refs_eq_nil (Value.refs_ofLiteral value)
  keeps _ := (free_shareDiscipline A b b').body _
  pure := .pure
  bind hx hf := .bind hx fun a ha ↦ hf () a trivial ha
  raise _ _ := .throw _
  newList hvs := .newList hvs
  readVar _ := .readVar _ _
  writeVar hv := .writeVar hv
  applyUnary _ _ := .check fun _ h _ hv ↦ .of_refs_eq_nil (List.mem_singleton.1 hv ▸ refs_unary h)
  applyBinary _ hl hr := .applyBinary hl hr
  getProperty _ ho := .inStore fun _ _ h ↦ .getProperty h (ho _ List.mem_cons_self) _
  setProperty _ _ ho _ := .inStore fun _ _ h ↦ .setProperty h (ho _ List.mem_cons_self) _ _
  callMethod _ _ ho hvs _ := .inStore fun _ _ h ↦ .callMethod h (ho _ List.mem_cons_self) _ hvs _
  callNative _ _ := .inStore fun _ _ h ↦ .callNative h _ _
  tick _ := .tick limits _
  printValue _ hv := .printValue hv
  throwBall _ _ hz hp := .throwBall (hz _ List.mem_cons_self) (hp _ List.mem_cons_self)
  bindVar _ hv := .toExec (.bindVar _ hv)
  defineFunction _ _ := .toExec (.defineFunction _ _ _)
  toExec := .toExec
  execBind hx hf := .bind hx fun a ha ↦ hf () a trivial ha
  exit _ _ := .throw _
  inNewFrame hx := .inNewFrame (hx () trivial)
  turn hx hy := .turn (hx () trivial) (hy () trivial)
  enter hf hargs hx := .enter hf hargs (hx () trivial)

/-- What a call hands over: the global frame, the function and the arguments. -/
def callRoots (callee : Value) (args : List Value) : List Ref :=
  .frame globalFrame :: (callee.refs ++ Value.refsAll args)

section Calls

variable {A : Ref → Prop} {b b' : List UInt8} {m m' : Machine}

/-- A call from machines that share a part, in whichever frames. -/
theorem Twins.callValue (h : Twins A b b' m m') (limits : Limits) (room : Nat) {callee : Value}
    {args : List Value} (span : Span) (hcallee : callee.RefersInto A)
    (hargs : ∀ v ∈ args, v.RefersInto A) :
    SameOutcome (Twins A b b') (fun v ↦ v.RefersInto A)
      (callValue (callWith limits room) callee args span m)
      (callValue (callWith limits room) callee args span m') := by
  have hclosed := closed_shareDiscipline A b b' limits
  have hone : ∀ v : Value, (∀ u ∈ [v], u.RefersInto A) → v.RefersInto A := fun v hv ↦
    hv v List.mem_cons_self
  cases callee with
  -- Whether the arguments are as many as the parameters is seen without the store.
  | function f =>
    have harity : SameOutcome (Twins A b b') (fun _ ↦ True) (checkArity f args span m)
        (checkArity f args span m') := by
      unfold checkArity
      split
      · exact .ok trivial h
      · exact .error h
    cases room with
    | zero => exact harity.bind fun _ _ _ _ hn ↦ .error hn
    | succ room =>
      have hbody : Blind A b b' (fun v ↦ [v])
          (execStmts limits (callWith limits room) .null f.body)
          (execStmts limits (callWith limits room) .null f.body) :=
        hclosed.execStmts (hclosed.callWith rfl room) f.body (hclosed.keeps (w := ()) hcallee) ()
          (hclosed.plain .null)
      exact harity.bind fun _ _ _ _ hn ↦
        (hn.enter hcallee hargs hbody).mono (fun _ _ hn ↦ hn.1) hone
  | native n =>
    have hnative := Store.SameResult.callNative h.store n args
    exact (SameOutcome.inStore hnative fun _ _ ↦ h.withStore).mono (fun _ _ hn ↦ hn) hone
  | _ => exact .error h

end Calls

/-- Two machines that agree on what can be got at from the given references: they have the same
frames, lists and objects and have counted alike, their sinks have the same room, and at what can be
got at they hold the same. -/
structure Machine.AgreesOn (roots : List Ref) (m m' : Machine) : Prop where
  shape : m.store.SameShape m'.store
  active : m.active = m'.active
  steps : m.steps = m'.steps
  iterations : m.iterations = m'.iterations
  room : m.sink.room? = m'.sink.room?
  same : ∀ r, m.store.Reaches roots r → m.store.SameAt m'.store r

/-- Machines that share a part agree on everything in it. -/
theorem Twins.agreesOn {A : Ref → Prop} {b b' : List UInt8} {m m' : Machine}
    (h : Twins A b b' m m') {roots : List Ref} (hroots : ∀ r ∈ roots, A r) :
    m.AgreesOn roots m' where
  shape := h.store.shape
  active := h.active
  steps := h.steps
  iterations := h.iterations
  room := h.room
  same r hr := h.store.same r (h.store.reaches hroots hr)

/-- **Noninterference of calls.** If two machines agree on what can be got at from the global frame,
the function and the arguments, then the call has the same value or the same error in both, appends
the same output to what was written before, and leaves machines that agree on what can be got at
from the global frame, the function, the arguments and the value; whatever the current frames are,
and whatever else the machines hold. -/
theorem callValue_noninterference {m m' : Machine} {callee : Value} {args : List Value}
    (h : m.AgreesOn (callRoots callee args) m') (limits : Limits) (room : Nat) (span : Span) :
    ∃ out : List UInt8,
      (∃ v n n', callValue (callWith limits room) callee args span m = .ok v n ∧
        callValue (callWith limits room) callee args span m' = .ok v n' ∧
        n.AgreesOn (callRoots callee args ++ v.refs) n' ∧
        n.sink.bytes = m.sink.bytes ++ out ∧ n'.sink.bytes = m'.sink.bytes ++ out) ∨
      ∃ e n n', callValue (callWith limits room) callee args span m = .error e n ∧
        callValue (callWith limits room) callee args span m' = .error e n' ∧
        n.AgreesOn (callRoots callee args) n' ∧
        n.sink.bytes = m.sink.bytes ++ out ∧ n'.sink.bytes = m'.sink.bytes ++ out := by
  -- The part is what can be got at, and all that is not there yet.
  let A : Ref → Prop := fun r ↦ m.store.Reaches (callRoots callee args) r ∨ ¬ m.store.Has r
  have htwins : Twins A m.sink.bytes m'.sink.bytes m m' :=
    ⟨h.shape.shared h.same, h.active, h.steps, h.iterations, h.room, [],
      (List.append_nil _).symm, (List.append_nil _).symm⟩
  have hroots : ∀ r ∈ callRoots callee args, A r := fun r hr ↦ .inl (.root hr)
  have hcallee : callee.RefersInto A := fun r hr ↦
    hroots r (List.mem_cons_of_mem _ (List.mem_append_left _ hr))
  have hargs : ∀ v ∈ args, v.RefersInto A := fun v hv r hr ↦ hroots r
    (List.mem_cons_of_mem _ (List.mem_append_right _ (Value.mem_refsAll.2 ⟨v, hv, hr⟩)))
  have hcall := htwins.callValue limits room span hcallee hargs
  generalize callValue (callWith limits room) callee args span m = r at hcall
  generalize callValue (callWith limits room) callee args span m' = r' at hcall
  cases hcall with
  | @ok v n n' hv hn =>
    obtain ⟨out, hout, hout'⟩ := hn.output
    have hagree : n.AgreesOn (callRoots callee args ++ v.refs) n' := hn.agreesOn fun r hr ↦
      (List.mem_append.1 hr).elim (hroots r) (hv r)
    exact ⟨out, .inl ⟨v, n, n', rfl, rfl, hagree, hout, hout'⟩⟩
  | @error e n n' hn =>
    obtain ⟨out, hout, hout'⟩ := hn.output
    exact ⟨out, .inr ⟨e, n, n', rfl, rfl, hn.agreesOn hroots, hout, hout'⟩⟩

/-- A block, after `define f() { g = 1; print x }` and `var x = 0`. -/
def blockAfterDefinitions : Machine :=
  (reached (evaluate {} [
    .define "f" [] [.expr (.assign (.ident "g" default) (.literal (.int 1) default) default),
      .print (.ident "x" default) default] default,
    .var "x" (some (.literal (.int 0) default)) default] (.new (.new none)))).enterBlock

/-- The machine with a variable `x` in the block, and with the given current frame. -/
def callerWith (x : Value) (frame : FrameId) : Machine :=
  { blockAfterDefinitions with
    store := blockAfterDefinitions.store.define blockAfterDefinitions.frame "x" x
    frame := frame }

/-- The value of `f`. -/
def printGlobal : Value := (blockAfterDefinitions.globals.get? "f").getD .null

/-- A call of `f` from the block where `x` is one, and a call from the global frame while `x` is two
in the block: both print the global variable `x`, which is zero. -/
theorem callValue_noninterference_printGlobal :
    (callerWith (.int 1) 1).AgreesOn (callRoots printGlobal []) (callerWith (.int 2) 0) ∧
    (reached (callValue (callWith {} 1) printGlobal [] default
      (callerWith (.int 1) 1))).sink.bytes = "0\n".toUTF8.data.toList ∧
    ∃ out : List UInt8,
      (∃ v n n',
        callValue (callWith {} 1) printGlobal [] default (callerWith (.int 1) 1) = .ok v n ∧
        callValue (callWith {} 1) printGlobal [] default (callerWith (.int 2) 0) = .ok v n' ∧
        n.AgreesOn (callRoots printGlobal [] ++ v.refs) n' ∧
        n.sink.bytes = (callerWith (.int 1) 1).sink.bytes ++ out ∧
        n'.sink.bytes = (callerWith (.int 2) 0).sink.bytes ++ out) ∨
      ∃ e n n',
        callValue (callWith {} 1) printGlobal [] default (callerWith (.int 1) 1) = .error e n ∧
        callValue (callWith {} 1) printGlobal [] default (callerWith (.int 2) 0) = .error e n' ∧
        n.AgreesOn (callRoots printGlobal []) n' ∧
        n.sink.bytes = (callerWith (.int 1) 1).sink.bytes ++ out ∧
        n'.sink.bytes = (callerWith (.int 2) 0).sink.bytes ++ out := by
  -- only the global frame can be got at
  have hreach : ∀ r, (callerWith (.int 1) 1).store.Reaches (callRoots printGlobal []) r →
      r = .frame globalFrame := by
    intro r hr
    induction hr with
    | root hmem =>
      have hroots : ∀ r ∈ callRoots printGlobal [], r = .frame globalFrame := by decide +kernel
      exact hroots _ hmem
    | next _ hmem ih =>
      have htargets : ∀ r ∈ (callerWith (.int 1) 1).store.targets (.frame globalFrame),
          r = .frame globalFrame := by decide +kernel
      rw [ih] at hmem
      exact htargets _ hmem
  have hagree : (callerWith (.int 1) 1).AgreesOn (callRoots printGlobal [])
      (callerWith (.int 2) 0) := by
    refine ⟨⟨?_, ?_, ?_, ?_, ?_⟩, ?_, ?_, ?_, ?_, fun r hr ↦ ?_⟩
    case refine_10 =>
      have hlocal : blockAfterDefinitions.frame ≠ globalFrame := by decide +kernel
      rw [hreach r hr]
      show (blockAfterDefinitions.store.frames.define _ "x" (.int 1)).frame? globalFrame =
        (blockAfterDefinitions.store.frames.define _ "x" (.int 2)).frame? globalFrame
      rw [Frames.frame?_define, Frames.frame?_define, if_neg hlocal, if_neg hlocal]
    all_goals decide +kernel
  exact ⟨hagree, by decide +kernel, callValue_noninterference hagree {} 1 default⟩

end SafariScript
