import SafariScript.Proofs.Evaluation.Hosted
import SafariScript.Proofs.Evaluation.Registers

/-!
# Computations beside a host

A host that gives frames back, and a machine in which all frames stay, are `Beside` each other if
their stores share a part into which all handles of the host lead, and all values that it holds.
When a frame is gone or is given back, the part gets smaller (`Beside.sweep`, `Beside.release`).

A computation `Accompanies` another one if both have the same outcome from there. The values at
hand when it starts are in the part then. Afterwards only those are that were held meanwhile
(`Accompanies.holding`) and those that the outcome carries, unless it is a single step in the
machine (`Accompanies.onMachine`). So whatever a computation goes on with has to have been held.
-/

namespace SafariScript

open EvalM

/-! ### Frames that are gone -/

section Sweep

variable {A : Ref → Prop} {s s' : Store} {gone : FrameId → Bool}

/-- A frame that is gone has nothing around it and binds no names. -/
theorem Frames.frame?_sweep (fs : Frames) (gone : FrameId → Bool) (i : FrameId) :
    (fs.sweep gone).frame? i =
      (fs.frame? i).map fun f ↦ if gone i then ⟨none, []⟩ else f :=
  Array.getElem?_mapIdx

namespace Store

theorem sameShape_sweep (s : Store) (gone : FrameId → Bool) : s.SameShape (s.sweep gone) :=
  ⟨Array.size_mapIdx.symm, rfl, rfl, rfl, rfl⟩

/-- All that is not gone is as before. -/
theorem sameAt_sweep {r : Ref} (h : ∀ i, gone i = true → r ≠ .frame i) :
    s.SameAt (s.sweep gone) r := by
  rcases r with i | id | id | id
  · have hi : gone i = false := Bool.eq_false_iff.2 fun hgone ↦ h i hgone rfl
    show s.frames.frame? i = (s.frames.sweep gone).frame? i
    rw [Frames.frame?_sweep, hi]
    cases s.frames.frame? i <;> rfl
  all_goals rfl

/-- What is left is numbered as before. -/
theorem Numbered.sweep {c : Catalogue} (h : s.Numbered c) (gone : FrameId → Bool) :
    (s.sweep gone).Numbered c := by
  refine ⟨h.fresh, fun i v hv ↦ h.bound i v ?_⟩
  have hvars : (s.sweep gone).frames.vars i = if gone i then [] else s.frames.vars i := by
    show (((s.frames.sweep gone).frame? i).map Frame.vars).getD [] = _
    rw [Frames.frame?_sweep, Frames.vars]
    cases s.frames.frame? i <;> cases gone i <;> rfl
  rw [hvars] at hv
  cases hgone : gone i with
  | true =>
    rw [hgone] at hv
    cases hv
  | false =>
    rw [hgone] at hv
    exact hv

/-- If only frames are gone that cannot be got at from references of the part, then all that can be
got at from these is still shared. -/
theorem Shared.sweep (h : Shared A s s') {rs : List Ref} (hrs : ∀ r ∈ rs, A r)
    (hgone : ∀ i, gone i = true → ¬ s.Reaches rs (.frame i)) :
    Shared (fun r ↦ s.Reaches rs r ∨ ¬ s.Has r) (s.sweep gone) s' := by
  have hkept : Shared (fun r ↦ s.Reaches rs r ∨ ¬ s.Has r) s (s.sweep gone) :=
    (sameShape_sweep s gone).shared fun r hr ↦
      sameAt_sweep fun i hi heq ↦ hgone i hi (heq ▸ hr)
  have hpart : ∀ r, s.Reaches rs r ∨ ¬ s.Has r → A r := fun r hr ↦
    hr.elim (h.reaches hrs) (h.unused r)
  have hback := hkept.symm
  exact ⟨⟨hback.shape.frames.trans h.shape.frames, h.shape.zones, h.shape.teams, h.shape.pokemon,
    h.shape.fresh⟩, fun r hr ↦ (hback.same r hr).trans (h.same r (hpart r hr)), hback.closed,
    hback.unused⟩

end Store

end Sweep

/-! ### The two evaluations side by side -/

/-- Where the latest handle is, and what is left without it. -/
theorem latest_handle {l handles : List FrameId} {i : FrameId} (h : l = handles ++ [i]) :
    l[handles.length]? = some i ∧ l.eraseIdx handles.length = handles := by
  subst h
  refine ⟨List.getElem?_concat_length, ?_⟩
  rw [List.eraseIdx_append_of_length_le (Nat.le_refl _), Nat.sub_self]
  exact List.append_nil _

/-- The host after a frame, if the handle on the frame is its latest. -/
theorem Hosted.leave_eq (C : Collector) {h n : Host} {i : FrameId}
    (hhandles : n.handles = h.handles ++ [i]) :
    Hosted.leave C h n = ⟨{ n.machine with
      store := (n.machine.store.sweep (C.gone n)).release n.roots i
      frame := h.machine.frame }, h.handles, h.values⟩ := by
  obtain ⟨hk, hrest⟩ := latest_handle hhandles
  have hk' : (n.withStore (n.machine.store.sweep (C.gone n))).handles[h.handles.length]? =
      some i := hk
  rw [Hosted.leave, Host.release_eq true hk']
  show Host.mk _ (n.handles.eraseIdx h.handles.length) _ = _
  rw [hrest]
  rfl

/-- A host that gives frames back, and a machine in which all frames stay. What the host can get at
is the same in both. -/
structure Beside (h : Host) (m : Machine) : Prop where
  sound : h.Sound
  alike : ∃ A, h.Alike A ⟨m, h.handles, h.values⟩
  frame : m.frame = h.machine.frame
  /-- The host has a handle on its current frame. -/
  current : h.machine.frame ∈ h.handles
  global : globalFrame ∈ h.handles

namespace Beside

variable {h : Host} {m : Machine} {us vs : List Value}

/-- Fewer values. -/
theorem of_subset (hb : Beside h m) {values : List Value} (hsub : values ⊆ h.values) :
    Beside ⟨h.machine, h.handles, values⟩ m := by
  obtain ⟨A, halike⟩ := hb.alike
  exact ⟨hb.sound.of_subset hsub, ⟨A, halike.of_subset (List.Subset.refl _) hsub⟩, hb.frame,
    hb.current, hb.global⟩

/-- Fewer values at hand. -/
theorem mono (hb : Beside (h.hold vs) m) (hsub : us ⊆ vs) : Beside (h.hold us) m :=
  hb.of_subset (List.append_subset.2 ⟨List.subset_append_left _ _,
    List.subset_append_of_subset_right _ hsub⟩)

theorem hold_nil (hb : Beside h m) : Beside (h.hold []) m :=
  hb.of_subset (List.append_subset.2 ⟨List.Subset.refl _, List.nil_subset _⟩)

/-- The value of a literal is the same everywhere. -/
theorem literal (hb : Beside (h.hold vs) m) (value : Literal) :
    Beside (h.hold (.ofLiteral value :: vs)) m := by
  obtain ⟨A, halike⟩ := hb.alike
  obtain ⟨w, hstore, hlisted⟩ := hb.sound
  obtain ⟨hown, hvs⟩ := List.forall_mem_append.1 hlisted
  obtain ⟨hinto, hintos⟩ := List.forall_mem_append.1 halike.into
  have hplain : (Value.ofLiteral value).Listed w := (closed_numberDiscipline {}).plain value
  have hnone : (Value.ofLiteral value).RefersInto A := .of_refs_eq_nil (Value.refs_ofLiteral value)
  exact ⟨⟨w, hstore, List.forall_mem_append.2 ⟨hown, List.forall_mem_cons.2 ⟨hplain, hvs⟩⟩⟩,
    ⟨A, halike.twins, rfl, rfl, halike.frames,
      List.forall_mem_append.2 ⟨hinto, List.forall_mem_cons.2 ⟨hnone, hintos⟩⟩⟩,
    hb.frame, hb.current, hb.global⟩

/-- The machines change alike, in what is no part of their stores and sinks. -/
theorem withMachine (hb : Beside h m) {n n' : Machine} (hn : n.store = h.machine.store)
    (hsink : n.sink = h.machine.sink) (hn' : n'.store = m.store) (hsink' : n'.sink = m.sink)
    (hactive : h.machine.active = m.active → n.active = n'.active)
    (hsteps : h.machine.steps = m.steps → n.steps = n'.steps)
    (hiterations : h.machine.iterations = m.iterations → n.iterations = n'.iterations)
    (hframe : n'.frame = n.frame) (hcurrent : n.frame ∈ h.handles) :
    Beside { h with machine := n } n' := by
  obtain ⟨A, halike⟩ := hb.alike
  obtain ⟨hstore, hactive₀, hsteps₀, hiterations₀, hroom, houtput⟩ := halike.twins
  refine ⟨?_, ⟨A, halike.withMachine ⟨?_, hactive hactive₀, hsteps hsteps₀,
    hiterations hiterations₀, ?_, ?_⟩⟩, hframe, hcurrent, hb.global⟩
  · obtain ⟨c, hnumbered, hlisted⟩ := hb.sound
    exact ⟨c, hn ▸ hnumbered, hlisted⟩
  · rw [hn, hn']
    exact hstore
  · rw [hsink, hsink']
    exact hroom
  · rw [hsink, hsink']
    exact houtput

theorem tell (hb : Beside h m) (event : Event) :
    Beside { h with machine := h.machine.tell event } (m.tell event) :=
  hb.withMachine rfl rfl rfl rfl id id id hb.frame hb.current

theorem called (hb : Beside h m) (name : String) :
    Beside { h with machine := h.machine.called name } (m.called name) :=
  hb.withMachine rfl rfl rfl rfl (congrArg (· + 1)) id id hb.frame hb.current

/-- What is gone was not to be got at. -/
theorem sweep (hb : Beside h m) (C : Collector) :
    Beside (h.withStore (h.machine.store.sweep (C.gone h))) m := by
  obtain ⟨A, halike⟩ := hb.alike
  have hrefs : ∀ r ∈ h.refs, A r := by
    intro r hr
    rcases List.mem_append.1 hr with hhandle | hvalue
    · obtain ⟨i, hi, rfl⟩ := List.mem_map.1 hhandle
      exact halike.frames i hi
    · obtain ⟨v, hv, hmem⟩ := Value.mem_refsAll.1 hvalue
      exact halike.into v hv r hmem
  have hroot : ∀ r ∈ h.refs, h.machine.store.Reaches h.refs r ∨ ¬ h.machine.store.Has r :=
    fun r hr ↦ .inl (.root hr)
  have ht := halike.twins
  have hshared := ht.store.sweep hrefs (C.unreachable h)
  refine ⟨hb.sound.withStore fun c hstore _ ↦ hstore.sweep _, ⟨_, ⟨hshared, ht.active, ht.steps,
    ht.iterations, ht.room, ht.output⟩, rfl, rfl, fun i hi ↦ ?_, fun v hv r hr ↦ ?_⟩, hb.frame,
    hb.current, hb.global⟩
  · exact hroot _ (List.mem_append_left _ (List.mem_map_of_mem hi))
  · exact hroot r (List.mem_append_right _ (Value.mem_refsAll.2 ⟨v, hv, hr⟩))

/-- The latest handle is given back, and the host goes to a frame that it still has. -/
theorem release (hb : Beside h m) {handles : List FrameId} {i frame : FrameId}
    (hhandles : h.handles = handles ++ [i]) (hcurrent : frame ∈ handles)
    (hglobal : globalFrame ∈ handles) :
    Beside ⟨{ h.machine with store := h.machine.store.release h.roots i, frame := frame }, handles,
      h.values⟩ { m with frame := frame } := by
  obtain ⟨A, halike⟩ := hb.alike
  obtain ⟨hk, hrest⟩ := latest_handle hhandles
  have ht := halike.twins
  obtain ⟨B, hshared, hframes, hinto⟩ := hb.sound.shared_release hk true ht.store
  have hsound := hb.sound.release true handles.length
  rw [Host.release_eq true hk] at hsound
  rw [hrest] at hframes
  refine ⟨hsound, ⟨B, ⟨hshared, ht.active, ht.steps, ht.iterations, ht.room, ht.output⟩, rfl, rfl,
    fun j hj ↦ ?_, fun v hv ↦ hinto v hv (halike.into v hv)⟩, rfl, hcurrent, hglobal⟩
  exact hframes j hj (halike.frames j (hhandles ▸ List.mem_append_left _ hj))

/-- A host that comes back from a frame has the handles that it had, and what it held there besides
its own values is still at hand. -/
theorem leave {n : Host} (hb : Beside n m) (C : Collector) {frame : FrameId}
    (hhandles : n.handles = h.handles ++ [frame]) (hvalues : n.values = h.values ++ us)
    (hcurrent : h.machine.frame ∈ h.handles) (hglobal : globalFrame ∈ h.handles) :
    (Hosted.leave C h n).handles = h.handles ∧
      Beside ((Hosted.leave C h n).hold us) { m with frame := h.machine.frame } := by
  have hreleased := (hb.sweep C).release hhandles hcurrent hglobal
  have hsame : (n.withStore (n.machine.store.sweep (C.gone n))).values = h.values ++ us := hvalues
  rw [hsame] at hreleased
  rw [Hosted.leave_eq C hhandles]
  exact ⟨rfl, hreleased⟩

/-- Both machines go into frames of the same number, on which the host gets a handle. -/
theorem enter (hb : Beside h m) {n n' : Machine}
    (hin : ∀ A, h.Alike A ⟨m, h.handles, h.values⟩ → Inside A [] [] n n')
    (hnumbered : ∀ c, h.machine.store.Numbered c → (∀ v ∈ h.values, v.Listed c) →
      n.store.Numbered c) :
    Beside ⟨n, h.handles ++ [n.frame], h.values⟩ n' := by
  obtain ⟨A, halike⟩ := hb.alike
  obtain ⟨c, hstore, hlisted⟩ := hb.sound
  have hn := hin A halike
  refine ⟨⟨c, hnumbered c hstore hlisted, hlisted⟩, ⟨A, hn.toTwins, rfl, rfl, ?_, halike.into⟩,
    hn.frame, ?_, List.mem_append_left _ hb.global⟩
  · exact List.forall_mem_append.2 ⟨halike.frames, List.forall_mem_singleton.2 hn.inside⟩
  · exact List.mem_append_right _ List.mem_cons_self

end Beside

/-! ### Computations side by side -/

section Computations

variable {ε ε' α β : Type}

/-- The same outcome of both computations; the host has the handles and the values that it had, and
the values that a result carries are the same in both. -/
inductive SameEnd (h : Host) (c : α → List Value) :
    EStateM.Result ε Host α → EStateM.Result ε Machine α → Prop
  | ok {a : α} {n : Host} {m : Machine} : n.handles = h.handles → n.values = h.values →
    Beside (n.hold (c a)) m → SameEnd h c (.ok a n) (.ok a m)
  | error {e : ε} {n : Host} {m : Machine} : n.handles = h.handles → n.values = h.values →
    Beside n m → SameEnd h c (.error e n) (.error e m)

namespace SameEnd

variable {c : α → List Value} {d : β → List Value} {h n : Host} {m : Machine}

/-- Only the handles and the values of the host before matter. -/
theorem of_eq {r : EStateM.Result ε Host α} {r' : EStateM.Result ε Machine α}
    (hend : SameEnd n c r r') (hhandles : n.handles = h.handles) (hvalues : n.values = h.values) :
    SameEnd h c r r' := by
  cases hend with
  | ok hhandles' hvalues' hn =>
    exact .ok (hhandles'.trans hhandles) (hvalues'.trans hvalues) hn
  | error hhandles' hvalues' hn =>
    exact .error (hhandles'.trans hhandles) (hvalues'.trans hvalues) hn

/-- A bracket that ends alike for both. -/
theorem inside {b : Bracket ε α ε' β} {X : HostedM ε α} {x : EStateM ε Machine α}
    (hok : ∀ {n : Host} {m : Machine} (l l' : Machine) (a : α), Beside (n.hold (c a)) m →
      SameEnd n d (Hosted.onMachine (fun m ↦ b.leave l (.ok a m)) n) (b.leave l' (.ok a m)))
    (herror : ∀ {n : Host} {m : Machine} (l l' : Machine) (e : ε), Beside n m →
      SameEnd n d (Hosted.onMachine (fun m ↦ b.leave l (.error e m)) n) (b.leave l' (.error e m)))
    (hend : SameEnd { h with machine := b.enter h.machine } c
      (X { h with machine := b.enter h.machine }) (x (b.enter m))) :
    SameEnd h d (Hosted.inside b X h) (b.run x m) := by
  unfold Hosted.inside Bracket.run
  generalize X { h with machine := b.enter h.machine } = r at hend
  generalize x (b.enter m) = r' at hend
  cases hend with
  | ok hhandles hvalues hn => exact (hok _ _ _ hn).of_eq hhandles hvalues
  | error hhandles hvalues hn => exact (herror _ _ _ hn).of_eq hhandles hvalues

/-- An expression as part of a statement. -/
theorem toExec {X : HostedM RuntimeError α} {x : EvalM α} (hend : SameEnd h c (X h) (x m)) :
    SameEnd h c (Hosted.inside .toExec X h) (x.toExec m) :=
  inside (fun _ _ _ hn ↦ .ok rfl rfl hn) (fun _ _ _ hn ↦ .error rfl rfl hn) hend

/-- Leaving is an error at the border, in both. -/
theorem settle {X : HostedM Signal α} {x : ExecM α} (hend : SameEnd h c (X h) (x m)) :
    SameEnd h c (Hosted.inside .settle X h) (x.settle m) := by
  refine inside (fun _ _ _ hn ↦ .ok rfl rfl hn) (fun _ _ e hn ↦ ?_) hend
  cases e with
  | exit span => exact .error rfl rfl hn
  | error e => exact .error rfl rfl hn

/-- After an error both are in the global frame. -/
theorem backToGlobal {X : HostedM RuntimeError α} {x : EvalM α} (hend : SameEnd h c (X h) (x m)) :
    SameEnd h c (Hosted.inside .backToGlobal X h) (x.backToGlobal m) := by
  refine inside (fun _ _ _ hn ↦ .ok rfl rfl hn) (fun _ _ e hn ↦ .error rfl rfl ?_) hend
  exact hn.withMachine rfl rfl rfl rfl id id id rfl hn.global

/-- A call is counted in both. -/
theorem inCall {name : String} {X : HostedM RuntimeError α} {x : EvalM α}
    (hend : SameEnd { h with machine := h.machine.called name } c
      (X { h with machine := h.machine.called name }) (x (m.called name))) :
    SameEnd h c (Hosted.inside (.inCall name) X h) ((Bracket.inCall name).run x m) := by
  have hleave : ∀ {n : Host} {m : Machine}, Beside n m →
      Beside { n with machine := { n.machine with active := n.machine.active - 1 } }
        { m with active := m.active - 1 } := fun hn ↦
    hn.withMachine rfl rfl rfl rfl (congrArg (· - 1)) id id hn.frame hn.current
  refine inside (b := .inCall name) (fun _ _ _ hn ↦ ?_) (fun _ _ _ hn ↦ ?_) hend
  · exact .ok rfl rfl (hleave hn)
  · exact .error rfl rfl (hleave hn)

end SameEnd

/-- From a host and a machine side by side that also have the values `vs` at hand, the two
computations have the same outcome. -/
def Accompanies (vs : List Value) (c : α → List Value) (X : HostedM ε α) (x : EStateM ε Machine α) :
    Prop :=
  ∀ ⦃h : Host⦄ ⦃m : Machine⦄, Beside (h.hold vs) m → SameEnd h c (X h) (x m)

/-- A step of a machine that does not look outside of a part, keeps numbers apart and stays in its
frame, when it has the values `vs` at hand. -/
structure SafeStep (vs : List Value) (c : α → List Value) (x : EStateM ε Machine α) : Prop where
  blind : ∀ A, (∀ v ∈ vs, v.RefersInto A) → Blind A [] [] c x x
  traced : ∀ w, (∀ v ∈ vs, v.Listed w) → Traced w c x
  keeps : KeepsRegisters x

/-- A step is what every discipline says it is. -/
theorem SafeStep.of_discipline {vs : List Value} {c : α → List Value} {x : EvalM α}
    (h : ∀ D : Discipline, D.Free → D.Stepwise {} {} → ∀ w, (∀ v ∈ vs, D.holds w v) →
      D.eval w x x c) : SafeStep vs c x where
  blind A hvs := h (shareDiscipline A [] []) (free_shareDiscipline A [] [])
    (closed_shareDiscipline A [] [] {}).toStepwise () hvs
  traced w hvs := h numberDiscipline free_numberDiscipline
    (closed_numberDiscipline {}).toStepwise w hvs
  keeps := h registerLockstep.discipline registerLockstep.free_discipline
    (closed_registerLockstep {}).toStepwise.discipline () fun _ _ ↦ trivial

/-- A step is one also as part of a statement. -/
theorem SafeStep.toExec {vs : List Value} {c : α → List Value} {x : EvalM α} (h : SafeStep vs c x) :
    SafeStep vs c x.toExec where
  blind A hvs := .toExec (h.blind A hvs)
  traced w hvs := fun m hm ↦ .toExec (h.traced w hvs m hm)
  keeps := .toExec h.keeps

namespace Accompanies

variable {vs : List Value} {c : α → List Value} {d : β → List Value}

/-- More values at hand before, and fewer afterwards. -/
theorem mono {X : HostedM ε α} {x : EStateM ε Machine α} {us : List Value} {c' : α → List Value}
    (hX : Accompanies vs c X x) (hvs : vs ⊆ us) (hc : ∀ a, c' a ⊆ c a) : Accompanies us c' X x := by
  intro h m hb
  have hend := hX (hb.mono hvs)
  generalize X h = r at hend
  generalize x m = r' at hend
  cases hend with
  | ok hhandles hvalues hn => exact .ok hhandles hvalues (hn.mono (hc _))
  | error hhandles hvalues hn => exact .error hhandles hvalues hn

theorem pure {a : α} (ha : c a ⊆ vs) :
    Accompanies vs c (Pure.pure a : HostedM ε α) (Pure.pure a) :=
  fun _ _ hb ↦ .ok rfl rfl (hb.mono ha)

/-- The value of a literal is at hand at any time. -/
theorem of_literal {X : HostedM ε α} {x : EStateM ε Machine α} (value : Literal)
    (hX : Accompanies (.ofLiteral value :: vs) c X x) : Accompanies vs c X x :=
  fun _ _ hb ↦ hX (hb.literal value)

theorem literal (value : Literal) : Accompanies vs (fun v ↦ [v])
    (Pure.pure (.ofLiteral value) : HostedM ε Value) (Pure.pure (.ofLiteral value)) :=
  of_literal value (pure (List.cons_subset.2 ⟨List.mem_cons_self, List.nil_subset _⟩))

theorem throw (e : ε) : Accompanies vs c (throw e : HostedM ε α) (throw e) :=
  fun _ _ hb ↦ .error rfl rfl (hb.of_subset (List.subset_append_left _ _))

/-- What the first computation carries is all that is at hand for the second one. -/
theorem bind {X : HostedM ε α} {x : EStateM ε Machine α} {F : α → HostedM ε β}
    {f : α → EStateM ε Machine β} (hX : Accompanies vs c X x)
    (hF : ∀ a, Accompanies (c a) d (F a) (f a)) : Accompanies vs d (X >>= F) (x >>= f) := by
  intro h m hb
  have hend := hX hb
  show SameEnd h d (EStateM.bind X F h) (EStateM.bind x f m)
  rw [EStateM.bind, EStateM.bind]
  generalize X h = r at hend
  generalize x m = r' at hend
  cases hend with
  | @ok a n n' hhandles hvalues hn => exact (hF a hn).of_eq hhandles hvalues
  | error hhandles hvalues hn => exact .error hhandles hvalues hn

/-- A step in the machine. The values that were at hand stay so. -/
theorem onMachine {x : EStateM ε Machine α} (hx : SafeStep vs c x) :
    Accompanies vs (fun a ↦ vs ++ c a) (Hosted.onMachine x) x := by
  intro h m hb
  obtain ⟨A, halike⟩ := hb.alike
  have hin : Inside A [] [] h.machine m := ⟨halike.twins, hb.frame, halike.frames _ hb.current⟩
  have hend := hx.blind A (fun v hv ↦ halike.into v (List.mem_append_right _ hv)) hin
  -- The part that the machines share stays what it is, and the catalogue may have grown.
  obtain ⟨w, hstore, hlisted⟩ := hb.sound
  obtain ⟨w', hle, hstore', hcarried⟩ :=
    hx.traced w (fun v hv ↦ hlisted v (List.mem_append_right _ hv)) h.machine hstore
  have hframe : (reached (x h.machine)).frame = h.machine.frame :=
    congrArg Prod.fst (hx.keeps h.machine)
  have hkept : ∀ v ∈ h.values ++ vs, v.Listed w' := fun v hv ↦ (hlisted v hv).mono hle
  unfold Hosted.onMachine
  generalize x h.machine = r at hend hstore' hcarried hframe
  generalize x m = r' at hend
  cases hend with
  | @ok a n n' hinto hn =>
    have hcurrent : n.frame ∈ h.handles := by
      have hsame : n.frame = h.machine.frame := hframe
      exact hsame ▸ hb.current
    refine .ok rfl rfl ⟨⟨w', hstore', fun v hv ↦ ?_⟩, ⟨A, hn.toTwins, rfl, rfl, halike.frames,
      fun v hv ↦ ?_⟩, hn.frame, hcurrent, hb.global⟩
    · rw [Host.hold, ← List.append_assoc] at hv
      exact (List.mem_append.1 hv).elim (hkept v) (hcarried v)
    · rw [Host.hold, ← List.append_assoc] at hv
      exact (List.mem_append.1 hv).elim (halike.into v) (hinto v)
  | @error e n n' hn =>
    have hcurrent : n.frame ∈ h.handles := by
      have hsame : n.frame = h.machine.frame := hframe
      exact hsame ▸ hb.current
    refine .error rfl rfl ⟨⟨w', hstore', fun v hv ↦ hkept v (List.mem_append_left _ hv)⟩,
      ⟨A, hn.toTwins, rfl, rfl, halike.frames, fun v hv ↦ ?_⟩, hn.frame, hcurrent, hb.global⟩
    exact halike.into v (List.mem_append_left _ hv)

/-- Values that are held stay at hand. -/
theorem holding {X : HostedM ε α} {x : EStateM ε Machine α} (us : List Value)
    (hX : Accompanies vs c X x) :
    Accompanies (us ++ vs) (fun a ↦ us ++ c a) (Hosted.holding us X) x := by
  intro h m hb
  have hheld : Beside ((h.hold us).hold vs) m := by
    rw [Host.hold, Host.hold, List.append_assoc]
    exact hb
  have hend := hX hheld
  unfold Hosted.holding
  generalize X (h.hold us) = r at hend
  generalize x m = r' at hend
  cases hend with
  | @ok a n n' hhandles hvalues hn =>
    refine .ok hhandles rfl ?_
    have hvalues' : n.values = h.values ++ us := hvalues
    rw [Host.hold, hvalues', List.append_assoc] at hn
    exact hn
  | @error e n n' hhandles hvalues hn =>
    refine .error hhandles rfl (hn.of_subset ?_)
    have hvalues' : n.values = h.values ++ us := hvalues
    rw [hvalues']
    exact List.subset_append_left _ _

/-! #### Blocks, calls and iterations -/

theorem toExec {X : HostedM RuntimeError α} {x : EvalM α} (hX : Accompanies vs c X x) :
    Accompanies vs c (Hosted.inside .toExec X) x.toExec := fun _ _ hb ↦ (hX hb).toExec

/-- An iteration is counted, and leaving it ends there. -/
theorem attempt {X : HostedM Signal α} {x : ExecM α} (hX : Accompanies vs c X x) (line i : Nat) :
    Accompanies vs Discipline.nothing (Hosted.inside (.attempt line i) X)
      (ExecM.attempt x line i) := by
  intro h m hb
  have hstart : Beside (Host.hold { h with machine := { h.machine with
      iterations := h.machine.iterations + 1 } } vs) { m with iterations := m.iterations + 1 } :=
    hb.withMachine rfl rfl rfl rfl id id (congrArg (· + 1)) hb.frame hb.current
  refine SameEnd.inside (fun _ _ a hn ↦ .ok rfl rfl ?_) (fun _ _ e hn ↦ ?_) (hX hstart)
  · exact hn.mono (List.nil_subset _)
  · cases e with
    | exit span =>
      exact .ok rfl rfl (hn.tell _).hold_nil
    | error e => exact .error rfl rfl hn

/-- **A frame is left.** The host gives it back and the machine keeps it; both come back to where
they were. -/
theorem inFrame (C : Collector) {X : HostedM Signal Value} {x : ExecM Value}
    (hX : Accompanies [] (fun v ↦ [v]) X x) {h : Host} {m : Machine} {frame frame' : FrameId}
    (hb : Beside (Hosted.enter h frame) { m with frame := frame' })
    (hframe : m.frame = h.machine.frame) (hcurrent : h.machine.frame ∈ h.handles)
    (hglobal : globalFrame ∈ h.handles) :
    SameEnd h (fun v ↦ [v]) (Hosted.inFrame C frame X h) (ExecM.inFrame frame' x m) := by
  have hend := hX hb.hold_nil
  unfold Hosted.inFrame ExecM.inFrame
  generalize X (Hosted.enter h frame) = r at hend
  generalize x { m with frame := frame' } = r' at hend
  cases hend with
  | @ok v n n' hhandles hvalues hn =>
    obtain ⟨hkept, hleft⟩ := hn.leave C hhandles (congrArg (· ++ [v]) hvalues) hcurrent hglobal
    rw [← hframe] at hleft
    exact .ok hkept rfl hleft
  | @error e n n' hhandles hvalues hn =>
    obtain ⟨hkept, hleft⟩ := hn.leave C hhandles (hvalues.trans (List.append_nil _).symm) hcurrent
      hglobal
    rw [← hframe] at hleft
    exact .error hkept rfl (hleft.of_subset (List.subset_append_left _ _))

/-- A block, in frames of the same number. -/
theorem inNewFrame (C : Collector) {X : HostedM Signal Value} {x : ExecM Value}
    (hX : Accompanies [] (fun v ↦ [v]) X x) :
    Accompanies vs (fun v ↦ [v]) (Hosted.inNewFrame C X) (ExecM.inNewFrame x) := by
  intro h m hb
  have hhost : Beside h m := hb.of_subset (List.subset_append_left _ _)
  have hstart := hhost.enter (fun A halike ↦ Inside.enterBlock
    ⟨halike.twins, hhost.frame, halike.frames _ hhost.current⟩) fun c hstore _ ↦
      hstore.newFrame h.machine.frame
  rw [inNewFrame_eq]
  exact SameEnd.of_eq (inFrame C hX hstart hhost.frame hhost.current hhost.global) rfl rfl

/-- The body of a function, with the function and its arguments at hand. -/
theorem inCall (C : Collector) {X : HostedM Signal Value} {x : ExecM Value}
    (hX : Accompanies [] (fun v ↦ [v]) X x) (f : Function) (args : List Value) :
    Accompanies (.function f :: args) (fun v ↦ [v]) (Hosted.inCall C f args X)
      (parameterFrame f args >>= fun frame ↦ ExecM.inCall f.name frame x) := by
  intro h m hb
  have hstart : Beside ⟨h.machine.enterBody f args,
      h.handles ++ [(h.machine.enterBody f args).frame], h.values⟩ (m.enterBody f args) := by
    refine Beside.of_subset (hb.enter (fun A halike ↦ ?_) fun c hstore hlisted ↦ ?_)
      (List.subset_append_left _ _)
    · obtain ⟨-, hvalues⟩ := List.forall_mem_append.1 halike.into
      exact halike.twins.enterBody (hvalues _ List.mem_cons_self) fun v hv ↦
        hvalues v (List.mem_cons_of_mem _ hv)
    · obtain ⟨-, hvalues⟩ := List.forall_mem_append.1 hlisted
      exact (hstore.newFrame f.closure).defineAll (fun b hmem ↦
        hvalues b.2 (List.mem_cons_of_mem _ (List.of_mem_zip hmem).2)) _
  have hframe : m.frame = h.machine.frame := hb.frame
  have hcurrent : h.machine.frame ∈ h.handles := hb.current
  have hglobal : globalFrame ∈ h.handles := hb.global
  have hbody := inFrame C hX (h := ⟨Machine.called f.name { h.machine with
      store := (h.machine.enterBody f args).store }, h.handles, h.values⟩)
    (m := Machine.called f.name { m with store := (m.enterBody f args).store })
    (hstart.called f.name) hframe hcurrent hglobal
  rw [enter_eq]
  exact SameEnd.of_eq (SameEnd.inCall (h := h.withStore (h.machine.enterBody f args).store)
    hbody.settle) rfl rfl

/-- A repetition: the induction is on the number of iterations. -/
theorem iterate {X : HostedM Signal α} {x : ExecM α} (hX : Accompanies [] c X x) (line i n : Nat) :
    Accompanies [] Discipline.nothing (Hosted.iterate X line i n) (ExecM.iterate x line i n) := by
  induction n generalizing i with
  | zero => exact .pure (List.Subset.refl _)
  | succ n ih =>
    rw [Hosted.iterate, ExecM.iterate_succ, ExecM.turn_eq]
    refine (hX.attempt line i).bind fun left ↦ ?_
    cases left with
    | true => exact .pure (List.Subset.refl _)
    | false => exact ih (i + 1)

/-! #### Steps -/

theorem raise (fault : Fault) (span : Span) :
    Accompanies vs c (Hosted.onMachine (EvalM.raise fault span)) (EvalM.raise fault span) :=
  throw _

/-- A step of evaluation, and the values `us` that are at hand behind it: some of those before it,
and of those that the result carries. -/
theorem step (c us : α → List Value) {x : EvalM α}
    (hx : ∀ D : Discipline, D.Free → D.Stepwise {} {} → ∀ w, (∀ v ∈ vs, D.holds w v) →
      D.eval w x x c) (hus : ∀ a, us a ⊆ vs ++ c a) :
    Accompanies vs us (Hosted.onMachine x) x :=
  (onMachine (.of_discipline hx)).mono (List.Subset.refl _) hus

/-- A step of evaluation that gives a value. -/
theorem value {x : EvalM Value}
    (hx : ∀ D : Discipline, D.Free → D.Stepwise {} {} → ∀ w, (∀ v ∈ vs, D.holds w v) →
      D.eval w x x fun v ↦ [v]) : Accompanies vs (fun v ↦ [v]) (Hosted.onMachine x) x :=
  step _ _ hx fun _ ↦ List.subset_append_right _ _

end Accompanies

end Computations

end SafariScript
