import SafariScript.Proofs.Evaluation.Noninterference
import SafariScript.Proofs.Evaluation.Numbering
import SafariScript.Proofs.Store.Release

/-!
# Nobody sees that a frame was given back

A `Host` works with frames from outside: it has handles on some of them and holds some values, and
makes `Request`s with these. When it gives a handle back, the frame may lose its bindings
(`Frames.release`). This module compares hosts that do drop bindings with hosts that never do, at
each request or along a whole sequence of them: the answers are the same.

Two hosts are `Alike` if they have the same handles and hold the same values, all of which refer
into a part that their stores share. What lies outside of the part they may disagree on, and there
the dropped bindings are. That every request answers alike, and keeps the hosts alike, holds because
a request starts from handles and held values (`Alike.step`). When a handle is given back, the part
shrinks by a frame to which nothing else leads. For that the counts have to be right, so a list or a
function has to be the same thing wherever its number turns up; this is true of the hosts at all
times (`Sound.step`).

Here `exec` is one request, and keeps the frames that it makes. That evaluation may itself be such a
host, which gives back the frames of its blocks and calls, is the subject of
`SafariScript.Proofs.Evaluation.Released`.
-/

namespace SafariScript

open EvalM ExecM

/-! ### Hosts -/

/-- A machine with frames that are held by handles and values that are held. -/
structure Host where
  machine : Machine
  handles : List FrameId
  values : List Value

/-- What a host may do next. The handles and the values are named by their places. -/
inductive Request
  /-- A new frame inside none. -/
  | newRoot
  /-- A new frame inside the one of a handle. -/
  | child (k : Nat)
  /-- The outermost frame around the one of a handle. -/
  | root (k : Nat)
  | clone (k : Nat)
  /-- Loses a handle without giving it back. -/
  | forget (k : Nat)
  /-- Gives a handle back. -/
  | release (k : Nat)
  /-- A new function that closes over the frame of a handle. -/
  | function (k : Nat) (name : String) (params : List String) (body : List Stmt)
  | discard (j : Nat)
  | get (k : Nat) (name : String)
  | bindings (k : Nat)
  | define (k : Nat) (name : String) (j : Nat)
  | assign (k : Nat) (name : String) (j : Nat)
  | set (k : Nat) (name : String) (j : Nat)
  | call (limits : Limits) (j : Nat) (args : List Nat) (span : Span)
  /-- Executes statements in the frame of a handle. -/
  | exec (limits : Limits) (k : Nat) (stmts : List Stmt)

/-- What a host gets to see. -/
inductive Answer
  | done
  /-- There is no such handle or value. -/
  | refused
  | frame (i : FrameId)
  | found (v : Option Value)
  | bindings (vars : Bindings)
  | flag (b : Bool)
  /-- The value or the error, and all that was written until now. -/
  | evaluated (result : Except RuntimeError Value) (written : List UInt8)

namespace Host

/-- What the host holds, for those who count. -/
def roots (h : Host) : Roots := ⟨h.handles, h.values⟩

/-- What the host refers to. -/
def refs (h : Host) : List Ref := h.handles.map Ref.frame ++ Value.refsAll h.values

def withStore (h : Host) (s : Store) : Host := { h with machine := { h.machine with store := s } }

/-- The host gets one more handle. -/
def take (h : Host) (i : FrameId) : Host := { h with handles := h.handles ++ [i] }

/-- The host holds more values. -/
def hold (h : Host) (vs : List Value) : Host := { h with values := h.values ++ vs }

def onHandle (h : Host) (k : Nat) (f : FrameId → Answer × Host) : Answer × Host :=
  match h.handles[k]? with
  | some i => f i
  | none => (.refused, h)

def onValue (h : Host) (j : Nat) (f : Value → Answer × Host) : Answer × Host :=
  match h.values[j]? with
  | some v => f v
  | none => (.refused, h)

/-- The host has something evaluated, and holds the value. -/
def evaluate (h : Host) (x : EvalM Value) : Answer × Host :=
  match x h.machine with
  | .ok v m => (.evaluated (.ok v) m.sink.bytes, { h with machine := m }.hold [v])
  | .error e m => (.evaluated (.error e) m.sink.bytes, { h with machine := m })

/-- The host gives a handle back. The bindings of the frame are dropped if the counts allow it; a
host with `drops` off only loses the handle. -/
def release (drops : Bool) (h : Host) (k : Nat) : Host :=
  match h.handles[k]? with
  | some i =>
    let s := h.machine.store
    { h.withStore (if drops then s.release h.roots i else s) with
      handles := h.handles.eraseIdx k }
  | none => h

/-- The answer to a request, and the host afterwards. -/
def step (drops : Bool) (h : Host) : Request → Answer × Host
  | .newRoot =>
    let (i, s) := h.machine.store.newRoot
    (.frame i, (h.withStore s).take i)
  | .child k => h.onHandle k fun around ↦
    let (i, s) := h.machine.store.newFrame around
    (.frame i, (h.withStore s).take i)
  | .root k => h.onHandle k fun i ↦
    let root := h.machine.store.frames.root i
    (.frame root, h.take root)
  | .clone k => h.onHandle k fun i ↦ (.frame i, h.take i)
  | .forget k => (.done, { h with handles := h.handles.eraseIdx k })
  | .release k => (.done, h.release drops k)
  | .function k name params body => h.onHandle k fun i ↦
    let (f, s) := h.machine.store.newFunction name params body i
    (.found f, (h.withStore s).hold [f])
  | .discard j => (.done, { h with values := h.values.eraseIdx j })
  | .get k name => h.onHandle k fun i ↦
    let found := h.machine.store.frames.get? i name
    (.found found, h.hold found.toList)
  | .bindings k => h.onHandle k fun i ↦ (.bindings (h.machine.store.frames.vars i), h)
  | .define k name j => h.onHandle k fun i ↦ h.onValue j fun v ↦
    (.done, h.withStore (h.machine.store.define i name v))
  | .assign k name j => h.onHandle k fun i ↦ h.onValue j fun v ↦
    match h.machine.store.frames.assign? i name v with
    | some frames => (.flag true, h.withStore { h.machine.store with frames := frames })
    | none => (.flag false, h)
  | .set k name j => h.onHandle k fun i ↦ h.onValue j fun v ↦
    let (created, s) := h.machine.store.assign i name v
    (.flag created, h.withStore s)
  | .call limits j args span => h.onValue j fun callee ↦
    h.evaluate (callValue (callWith limits limits.maxCallDepth) callee
      (args.filterMap fun a ↦ h.values[a]?) span)
  | .exec limits k stmts => h.onHandle k fun i ↦
    h.evaluate
      (settle (inFrame i (execStmts limits (callWith limits limits.maxCallDepth) .null stmts)))

/-- The answers to requests, one after the other, and the host afterwards. -/
def run (drops : Bool) (h : Host) : List Request → List Answer × Host
  | [] => ([], h)
  | r :: rs =>
    let (a, next) := h.step drops r
    let (as, last) := next.run drops rs
    (a :: as, last)

/-- A host of a new machine, with a handle on the global frame. -/
def new (sink : Sink) : Host := ⟨.new sink, [globalFrame], []⟩

end Host

/-! ### Sound hosts -/

/-- Wherever the number of a list or a function turns up, it is on the same thing. So the references
that there are to it are those that are counted. -/
def Host.Sound (h : Host) : Prop :=
  ∃ c, h.machine.store.Numbered c ∧ ∀ v ∈ h.values, v.Listed c

namespace Host.Sound

variable {h : Host}

/-- In a sound host the counts are right, because no number stands for two things. -/
theorem coherent (hs : h.Sound) : h.machine.store.frames.Coherent h.roots := by
  obtain ⟨c, hstore, hvalues⟩ := hs
  refine ⟨c, fun v hv ↦ ?_⟩
  rcases Frames.mem_held.1 hv with ⟨j, hbound⟩ | hheld
  · exact hstore.bound j v hbound
  · exact hvalues v hheld

/-- A change of the store for which the catalogue need not grow. -/
theorem withStore (hs : h.Sound) {s : Store}
    (hstep : ∀ c, h.machine.store.Numbered c → (∀ v ∈ h.values, v.Listed c) → s.Numbered c) :
    (h.withStore s).Sound := by
  obtain ⟨c, hstore, hvalues⟩ := hs
  exact ⟨c, hstep c hstore hvalues, hvalues⟩

/-- Fewer values. -/
theorem of_subset (hs : h.Sound) {handles : List FrameId} {values : List Value}
    (hsub : values ⊆ h.values) : Host.Sound ⟨h.machine, handles, values⟩ := by
  obtain ⟨c, hstore, hvalues⟩ := hs
  exact ⟨c, hstore, fun v hv ↦ hvalues v (hsub hv)⟩

theorem take (hs : h.Sound) (i : FrameId) : (h.take i).Sound := hs

/-- A request that names no handle is refused and changes nothing. -/
theorem onHandle (hs : h.Sound) {f : FrameId → Answer × Host} (hf : ∀ i, (f i).2.Sound) (k : Nat) :
    (h.onHandle k f).2.Sound := by
  unfold Host.onHandle
  split
  · exact hf _
  · exact hs

/-- A request that names no value is refused and changes nothing. -/
theorem onValue (hs : h.Sound) {f : Value → Answer × Host} (hf : ∀ v ∈ h.values, (f v).2.Sound)
    (j : Nat) : (h.onValue j f).2.Sound := by
  unfold Host.onValue
  split
  · next v hv => exact hf v (List.mem_of_getElem? hv)
  · exact hs

/-- What evaluation hands out is listed, so it may be held. -/
theorem evaluate (hs : h.Sound) {x : EvalM Value}
    (hx : ∀ c, (∀ v ∈ h.values, v.Listed c) → Traced c (fun v ↦ [v]) x) :
    (h.evaluate x).2.Sound := by
  obtain ⟨c, hstore, hvalues⟩ := hs
  obtain ⟨c', hle, hstore', hvalue⟩ := hx c hvalues h.machine hstore
  have hold : ∀ v ∈ h.values, v.Listed c' := fun v hv ↦ (hvalues v hv).mono hle
  unfold Host.evaluate
  generalize x h.machine = r at hstore' hvalue ⊢
  cases r with
  | ok v m => exact ⟨c', hstore', List.forall_mem_append.2 ⟨hold, hvalue⟩⟩
  | error e m => exact ⟨c', hstore', hold⟩

/-- Without bindings there is less to be right. -/
theorem release (hs : h.Sound) (drops : Bool) (k : Nat) : (h.release drops k).Sound := by
  unfold Host.release
  split
  · next i hi =>
    refine (hs.withStore fun c hstore _ ↦ ?_).of_subset fun _ hv ↦ hv
    split
    · by_cases hdrops : h.machine.store.frames.Drops h.roots i
      · exact Store.release_of_drops hdrops ▸ hstore.drop i
      · exact (Store.release_of_not_drops hdrops).symm ▸ hstore
    · exact hstore
  · exact hs

/-- Every request keeps a host sound. -/
theorem step (hs : h.Sound) (drops : Bool) (r : Request) : (h.step drops r).2.Sound := by
  cases r with
  | newRoot => exact (hs.withStore fun c hstore _ ↦ hstore.newRoot).take _
  | child k =>
    exact hs.onHandle (fun i ↦ (hs.withStore fun c hstore _ ↦ hstore.newFrame i).take _) k
  | root k => exact hs.onHandle (fun i ↦ hs.take _) k
  | clone k => exact hs.onHandle (fun i ↦ hs.take i) k
  | forget k => exact hs.of_subset fun _ hv ↦ hv
  | release k => exact hs.release drops k
  | function k name params body =>
    refine hs.onHandle (fun i ↦ ?_) k
    -- The function is a new entry of the catalogue, the values held so far stay listed.
    obtain ⟨c, hstore, hvalues⟩ := hs
    obtain ⟨hf, hstore'⟩ := hstore.newFunction name params body i
    refine ⟨_, hstore', List.forall_mem_append.2 ⟨fun v hv ↦ ?_, List.forall_mem_singleton.2 hf⟩⟩
    exact (hvalues v hv).mono (c.le_add _)
  | discard j => exact hs.of_subset fun _ hv ↦ List.mem_of_mem_eraseIdx hv
  | get k name =>
    refine hs.onHandle (fun i ↦ ?_) k
    obtain ⟨c, hstore, hvalues⟩ := hs
    refine ⟨c, hstore, List.forall_mem_append.2 ⟨hvalues, fun v hv ↦ ?_⟩⟩
    exact hstore.get? (Option.mem_toList.1 hv)
  | bindings k => exact hs.onHandle (fun _ ↦ hs) k
  | define k name j =>
    refine hs.onHandle (fun i ↦ hs.onValue (fun v hv ↦ ?_) j) k
    exact hs.withStore fun c hstore hvalues ↦ hstore.define (hvalues v hv) i name
  | assign k name j =>
    refine hs.onHandle (fun i ↦ hs.onValue (fun v hv ↦ ?_) j) k
    unfold Frames.assign?
    cases h.machine.store.frames.resolve? i name with
    | some i' => exact hs.withStore fun c hstore hvalues ↦ hstore.define (hvalues v hv) i' name
    | none => exact hs
  | set k name j =>
    refine hs.onHandle (fun i ↦ hs.onValue (fun v hv ↦ ?_) j) k
    exact hs.withStore fun c hstore hvalues ↦ hstore.assign (hvalues v hv) i name
  | call limits j args span =>
    refine hs.onValue (fun callee hcallee ↦ hs.evaluate fun c hvalues ↦ ?_) j
    refine .callValue limits _ (hvalues callee hcallee) (fun v hv ↦ ?_) span
    obtain ⟨a, -, ha⟩ := List.mem_filterMap.1 hv
    exact hvalues v (List.mem_of_getElem? ha)
  | exec limits k stmts =>
    refine hs.onHandle (fun i ↦ hs.evaluate fun c _ m hm ↦ ?_) k
    exact .settle (.inFrame (Traced.execStmts limits _ stmts { m with frame := i } hm))

/-- A host stays sound along all its requests. -/
theorem run (hs : h.Sound) (drops : Bool) (rs : List Request) : (h.run drops rs).2.Sound := by
  induction rs generalizing h with
  | nil => exact hs
  | cons r rs ih => exact ih (hs.step drops r)

/-- A new host holds nothing, and its machine is numbered. -/
theorem new (sink : Sink) : (Host.new sink).Sound := by
  have hempty : Store.empty.Numbered ⟨0, fun _ ↦ .null⟩ := ⟨rfl, fun _ _ hv ↦ by cases hv⟩
  refine ⟨_, hempty.newRoot.defineAll (fun b hb ↦ ?_) globalFrame, fun _ hv ↦ by cases hv⟩
  obtain ⟨n, -, rfl⟩ := List.mem_map.1 hb
  exact .of_number? rfl

end Host.Sound

/-! ### Hosts side by side -/

/-- Two hosts with the same handles and values, which refer into a part that their stores share. -/
structure Host.Alike (A : Ref → Prop) (h h' : Host) : Prop where
  twins : Twins A [] [] h.machine h'.machine
  handles : h'.handles = h.handles
  values : h'.values = h.values
  frames : ∀ i ∈ h.handles, A (.frame i)
  into : ∀ v ∈ h.values, v.RefersInto A

/-- The same answer, and hosts that are alike. -/
def Host.Answered (p p' : Answer × Host) : Prop := p.1 = p'.1 ∧ ∃ A, Alike A p.2 p'.2

namespace Host.Alike

variable {A : Ref → Prop} {h h' : Host}

/-- A host shares everything with itself. -/
theorem refl (h : Host) : Alike (fun _ ↦ True) h h where
  twins := ⟨.refl h.machine.store, rfl, rfl, rfl, rfl, _, rfl, rfl⟩
  handles := rfl
  values := rfl
  frames _ _ := trivial
  into _ _ _ _ := trivial

variable (hh : Alike A h h')

include hh

theorem withMachine {m m' : Machine} (hm : Twins A [] [] m m') :
    Alike A { h with machine := m } { h' with machine := m' } :=
  ⟨hm, hh.handles, hh.values, hh.frames, hh.into⟩

theorem withStore {s s' : Store} (hs : Store.Shared A s s') :
    Alike A (h.withStore s) (h'.withStore s') :=
  hh.withMachine (hh.twins.withStore hs)

/-- Both hosts take a handle on a frame of the part. -/
theorem take {i : FrameId} (hi : A (.frame i)) : Alike A (h.take i) (h'.take i) where
  twins := hh.twins
  handles := congrArg (· ++ [i]) hh.handles
  values := hh.values
  frames := List.forall_mem_append.2 ⟨hh.frames, List.forall_mem_singleton.2 hi⟩
  into := hh.into

/-- Both hosts hold the same values, which refer into the part. -/
theorem hold {vs : List Value} (hvs : ∀ v ∈ vs, v.RefersInto A) :
    Alike A (h.hold vs) (h'.hold vs) where
  twins := hh.twins
  handles := hh.handles
  values := congrArg (· ++ vs) hh.values
  frames := hh.frames
  into := List.forall_mem_append.2 ⟨hh.into, hvs⟩

/-- Both hosts have less. -/
theorem of_subset {handles : List FrameId} {values : List Value} (hsub : handles ⊆ h.handles)
    (vsub : values ⊆ h.values) :
    Alike A ⟨h.machine, handles, values⟩ ⟨h'.machine, handles, values⟩ :=
  ⟨hh.twins, rfl, rfl, fun i hi ↦ hh.frames i (hsub hi), fun v hv ↦ hh.into v (vsub hv)⟩

theorem answered (a : Answer) : Answered (a, h) (a, h') := ⟨rfl, A, hh⟩

/-- Both hosts have the handle or both refuse. -/
theorem onHandle {f f' : FrameId → Answer × Host} (hf : ∀ i, A (.frame i) → Answered (f i) (f' i))
    (k : Nat) : Answered (h.onHandle k f) (h'.onHandle k f') := by
  unfold Host.onHandle
  rw [hh.handles]
  split
  · next i hi => exact hf i (hh.frames i (List.mem_of_getElem? hi))
  · exact hh.answered _

/-- Both hosts hold the value or both refuse. -/
theorem onValue {f f' : Value → Answer × Host} (hf : ∀ v, v.RefersInto A → Answered (f v) (f' v))
    (j : Nat) : Answered (h.onValue j f) (h'.onValue j f') := by
  unfold Host.onValue
  rw [hh.values]
  split
  · next v hv => exact hf v (hh.into v (List.mem_of_getElem? hv))
  · exact hh.answered _

/-- If evaluation ends the same in both machines, the hosts give the same answer. -/
theorem evaluate {x : EvalM Value}
    (hx : SameOutcome (Twins A [] []) (fun v ↦ v.RefersInto A) (x h.machine) (x h'.machine)) :
    Answered (h.evaluate x) (h'.evaluate x) := by
  have hwritten : ∀ {n n' : Machine}, Twins A [] [] n n' → n.sink.bytes = n'.sink.bytes := by
    intro n n' hn
    obtain ⟨out, hout, hout'⟩ := hn.output
    exact hout.trans hout'.symm
  unfold Host.evaluate
  generalize x h.machine = r at hx ⊢
  generalize x h'.machine = r' at hx ⊢
  cases hx with
  | @ok v n n' hv hn =>
    refine ⟨congrArg (Answer.evaluated (.ok v)) (hwritten hn), A, ?_⟩
    exact (hh.withMachine hn).hold (List.forall_mem_singleton.2 hv)
  | @error e n n' hn =>
    exact ⟨congrArg (Answer.evaluated (.error e)) (hwritten hn), A, hh.withMachine hn⟩

end Host.Alike

/-- Statements in a frame of the part, from machines that share it. -/
theorem Twins.exec {A : Ref → Prop} {b b' : List UInt8} {m m' : Machine} (h : Twins A b b' m m')
    (limits : Limits) (room : Nat) {i : FrameId} (hi : A (.frame i)) (stmts : List Stmt) :
    SameOutcome (Twins A b b') (fun v ↦ v.RefersInto A)
      (settle (inFrame i (execStmts limits (callWith limits room) .null stmts)) m)
      (settle (inFrame i (execStmts limits (callWith limits room) .null stmts)) m') := by
  have hclosed := closed_shareDiscipline A b b' limits
  have hbody : Blind A b b' (fun v ↦ [v]) (execStmts limits (callWith limits room) .null stmts)
      (execStmts limits (callWith limits room) .null stmts) :=
    hclosed.execStmts (hclosed.callWith rfl room) stmts ((free_shareDiscipline A b b').body stmts)
      () (hclosed.plain .null)
  have hin : Inside A b b' { m with frame := i } { m' with frame := i } :=
    ⟨⟨h.store, h.active, h.steps, h.iterations, h.room, h.output⟩, rfl, hi⟩
  have hout : SameOutcome (Twins A b b') (fun v ↦ ∀ u ∈ [v], u.RefersInto A)
      (inFrame i (execStmts limits (callWith limits room) .null stmts) m)
      (inFrame i (execStmts limits (callWith limits room) .null stmts) m') :=
    .inFrame (fun n n' hn ↦ ⟨hn.store, hn.active, hn.steps, hn.iterations, hn.room, hn.output⟩)
      (hbody hin)
  exact hout.settle.mono (fun _ _ hn ↦ hn) fun v hv ↦ hv v List.mem_cons_self

namespace Store.Shared

variable {A : Ref → Prop} {s s' : Store} {i : FrameId}

/-- A new frame inside none has the same number in both stores. -/
theorem newRoot (h : Shared A s s') : s.newRoot.1 = s'.newRoot.1 ∧ A (.frame s.newRoot.1) ∧
    Shared A s.newRoot.2 s'.newRoot.2 := by
  have hunused : A (.frame s.frames.size) := h.unused _ (Nat.lt_irrefl _)
  rw [newRoot_eq, newRoot_eq, ← h.shape.frames]
  exact h.newFrame hunused

/-- The outermost frame around a frame of the part is in the part. -/
theorem root (h : Shared A s s') (hi : A (.frame i)) : A (.frame (s.frames.root i)) := by
  unfold Frames.root
  cases hlast : (s.frames.path i).getLast? with
  | none => exact hi
  | some j => exact h.path hi j (List.mem_of_getLast? hlast)

end Store.Shared

/-! ### Giving back a handle -/

/-- The only handle on a frame is gone once it is given back. -/
theorem not_mem_eraseIdx_of_count_eq_one {l : List FrameId} {k : Nat} {i : FrameId}
    (hk : l[k]? = some i) (hcount : l.count i = 1) : i ∉ l.eraseIdx k := by
  obtain ⟨l₁, l₂, hl, herase⟩ := exists_eq_append_cons hk
  rw [hl, List.count_append, List.count_cons_self] at hcount
  rw [herase]
  refine List.count_eq_zero.1 ?_
  rw [List.count_append]
  omega

namespace Host

variable {A : Ref → Prop} {h h' : Host} {k : Nat} {i : FrameId}

/-- Whether or not the bindings of the frame are dropped, what the host still has refers into a part
that its store shares as before. -/
theorem Sound.shared_release (hs : h.Sound) (hk : h.handles[k]? = some i) (drops : Bool) {s : Store}
    (hshared : Store.Shared A h.machine.store s) :
    ∃ B, Store.Shared B (if drops then h.machine.store.release h.roots i else h.machine.store) s ∧
      (∀ j ∈ h.handles.eraseIdx k, A (.frame j) → B (.frame j)) ∧
      ∀ v ∈ h.values, v.RefersInto A → v.RefersInto B := by
  by_cases hdrops : drops = true ∧ h.machine.store.frames.Drops h.roots i
  · have halone := hs.coherent.alone (List.mem_of_getElem? hk) hdrops.2
    rw [if_pos hdrops.1, Store.release_of_drops hdrops.2]
    refine ⟨_, hshared.drop halone, fun j hj hA ↦ ⟨hA, fun heq ↦ ?_⟩, fun v hv hA r hr ↦
      ⟨hA r hr, fun heq ↦ ?_⟩⟩
    · cases heq
      exact absurd hj (not_mem_eraseIdx_of_count_eq_one hk halone.handles)
    · cases heq
      exact absurd hr (halone.values v hv)
  · have hsame : (if drops then h.machine.store.release h.roots i else h.machine.store) =
        h.machine.store := by
      split
      · next hon => exact Store.release_of_not_drops fun hd ↦ hdrops ⟨hon, hd⟩
      · rfl
    rw [hsame]
    exact ⟨A, hshared, fun _ _ hA ↦ hA, fun _ _ hA ↦ hA⟩

namespace Alike

/-- Each host drops what it drops. -/
theorem release (hh : Alike A h h') (hs : h.Sound) (hs' : h'.Sound) (drops drops' : Bool)
    (k : Nat) : ∃ B, Alike B (h.release drops k) (h'.release drops' k) := by
  unfold Host.release
  rw [hh.handles]
  cases hk : h.handles[k]? with
  | none => exact ⟨A, hh⟩
  | some i =>
    have hk' : h'.handles[k]? = some i := hh.handles ▸ hk
    obtain ⟨B, hshared, hframes, hinto⟩ := hs.shared_release hk drops hh.twins.store
    obtain ⟨C, hshared', hframes', hinto'⟩ := hs'.shared_release hk' drops' hshared.symm
    rw [hh.handles] at hframes'
    rw [hh.values] at hinto'
    have ht := hh.twins
    refine ⟨C, ⟨hshared'.symm, ht.active, ht.steps, ht.iterations, ht.room, ht.output⟩, rfl,
      hh.values, fun j hj ↦ ?_, fun v hv ↦ ?_⟩
    · exact hframes' j hj (hframes j hj (hh.frames j (List.mem_of_mem_eraseIdx hj)))
    · exact hinto' v hv (hinto v hv (hh.into v hv))

/-- **Requests do not look outside of the part.** Whatever the two hosts drop, they answer alike. -/
theorem step (hh : Alike A h h') (hs : h.Sound) (hs' : h'.Sound) (drops drops' : Bool)
    (r : Request) : Answered (h.step drops r) (h'.step drops' r) := by
  have hstore := hh.twins.store
  cases r with
  | newRoot =>
    -- The new frame has the same number in both stores, so it may belong to the part.
    obtain ⟨hnumber, hnew, hshared⟩ := hstore.newRoot
    refine ⟨congrArg Answer.frame hnumber, A, ?_⟩
    show Alike A _ ((h'.withStore h'.machine.store.newRoot.2).take h'.machine.store.newRoot.1)
    rw [← hnumber]
    exact (hh.withStore hshared).take hnew
  | child k =>
    refine hh.onHandle (fun i hi ↦ ?_) k
    obtain ⟨hnumber, hnew, hshared⟩ := hstore.newFrame hi
    refine ⟨congrArg Answer.frame hnumber, A, ?_⟩
    show Alike A _ ((h'.withStore (h'.machine.store.newFrame i).2).take
      (h'.machine.store.newFrame i).1)
    rw [← hnumber]
    exact (hh.withStore hshared).take hnew
  | root k =>
    refine hh.onHandle (fun i hi ↦ ?_) k
    rw [hstore.root_eq hi]
    exact (hh.take (hstore.root hi)).answered _
  | clone k => exact hh.onHandle (fun i hi ↦ (hh.take hi).answered _) k
  | forget k =>
    refine ⟨rfl, A, ?_⟩
    show Alike A _ ⟨h'.machine, h'.handles.eraseIdx k, h'.values⟩
    rw [hh.handles, hh.values]
    exact hh.of_subset (List.eraseIdx_subset ..) (List.Subset.refl _)
  | release k => exact ⟨rfl, hh.release hs hs' drops drops' k⟩
  | function k name params body =>
    refine hh.onHandle (fun i hi ↦ ?_) k
    obtain ⟨hf, hshared⟩ := hstore.newFunction name params body i
    refine ⟨congrArg (Answer.found ∘ some) hf.symm, A, ?_⟩
    show Alike A _ ((h'.withStore (h'.machine.store.newFunction name params body i).2).hold
      [(h'.machine.store.newFunction name params body i).1])
    rw [hf]
    refine (hh.withStore hshared).hold (List.forall_mem_singleton.2 fun r hr ↦ ?_)
    exact List.mem_singleton.1 hr ▸ hi
  | discard j =>
    refine ⟨rfl, A, ?_⟩
    show Alike A _ ⟨h'.machine, h'.handles, h'.values.eraseIdx j⟩
    rw [hh.handles, hh.values]
    exact hh.of_subset (List.Subset.refl _) (List.eraseIdx_subset ..)
  | get k name =>
    refine hh.onHandle (fun i hi ↦ ?_) k
    rw [hstore.get?_eq hi]
    refine (hh.hold fun v hv ↦ ?_).answered _
    exact hstore.refersInto_get? hi (Option.mem_toList.1 hv)
  | bindings k =>
    refine hh.onHandle (fun i hi ↦ ?_) k
    rw [hstore.vars_eq hi]
    exact hh.answered _
  | define k name j =>
    refine hh.onHandle (fun i hi ↦ hh.onValue (fun v hv ↦ ?_) j) k
    exact (hh.withStore (hstore.define hv i name)).answered _
  | assign k name j =>
    refine hh.onHandle (fun i hi ↦ hh.onValue (fun v hv ↦ ?_) j) k
    unfold Frames.assign?
    rw [hstore.resolve?_eq hi]
    cases h.machine.store.frames.resolve? i name with
    | some i' => exact (hh.withStore (hstore.define hv i' name)).answered _
    | none => exact hh.answered _
  | set k name j =>
    refine hh.onHandle (fun i hi ↦ hh.onValue (fun v hv ↦ ?_) j) k
    obtain ⟨hflag, hshared⟩ := hstore.assign hi hv name
    exact ⟨congrArg Answer.flag hflag, A, hh.withStore hshared⟩
  | call limits j args span =>
    refine hh.onValue (fun callee hcallee ↦ ?_) j
    rw [hh.values]
    refine hh.evaluate (hh.twins.callValue limits _ span hcallee fun v hv ↦ ?_)
    obtain ⟨a, -, ha⟩ := List.mem_filterMap.1 hv
    exact hh.into v (List.mem_of_getElem? ha)
  -- Only here and in a call does a request evaluate anything.
  | exec limits k stmts =>
    exact hh.onHandle (fun i hi ↦ hh.evaluate (hh.twins.exec limits _ hi stmts)) k

/-- Whether they drop bindings or not, the two hosts give the same answers all along. -/
theorem run (hh : Alike A h h') (hs : h.Sound) (hs' : h'.Sound) (drops drops' : Bool)
    (rs : List Request) : (h.run drops rs).1 = (h'.run drops' rs).1 := by
  induction rs generalizing A h h' with
  | nil => rfl
  | cons r rs ih =>
    obtain ⟨hanswer, B, hnext⟩ := hh.step hs hs' drops drops' r
    have hrest := ih hnext (hs.step drops r) (hs'.step drops' r)
    exact List.cons_eq_cons.2 ⟨hanswer, hrest⟩

end Alike

/-- To give back a handle on a frame is to release the frame, or not, and to lose the handle. -/
theorem release_eq (drops : Bool) (hk : h.handles[k]? = some i) :
    h.release drops k =
      { h.withStore (if drops then h.machine.store.release h.roots i else h.machine.store) with
        handles := h.handles.eraseIdx k } := by
  unfold Host.release
  rw [hk]

/-- **Giving back a handle cannot be observed.** If the counts let the bindings of the frame be
dropped, then nothing leads to the frame any more: not what the host still refers to, and no other
frame or object. And whether they are dropped or not, the host gets the same answers to all that it
may ask from then on, also if bindings are dropped in the one case and never in the other. -/
theorem release_unobservable (hs : h.Sound) (hk : h.handles[k]? = some i) :
    (h.machine.store.frames.Drops h.roots i →
      (h.release true k).machine.store = h.machine.store.drop i ∧
      ∀ rs : List Ref, (∀ r ∈ rs, r ∈ (h.release true k).refs ∨ r ≠ .frame i) →
        ¬ h.machine.store.Reaches rs (.frame i)) ∧
    ∀ (drops drops' : Bool) (requests : List Request),
      ((h.release true k).run drops requests).1 = ((h.release false k).run drops' requests).1 := by
  refine ⟨fun hdrops ↦ ?_, fun drops drops' requests ↦ ?_⟩
  · have halone := hs.coherent.alone (List.mem_of_getElem? hk) hdrops
    rw [release_eq true hk]
    refine ⟨Store.release_of_drops hdrops, fun rs hrs ↦ ?_⟩
    refine Store.not_reaches_of_alone halone fun hi ↦ ?_
    rcases hrs _ hi with hheld | hother
    · rcases List.mem_append.1 hheld with hhandle | hvalue
      · obtain ⟨j, hj, heq⟩ := List.mem_map.1 hhandle
        cases heq
        exact not_mem_eraseIdx_of_count_eq_one hk halone.handles hj
      · obtain ⟨v, hv, hr⟩ := Value.mem_refsAll.1 hvalue
        exact halone.values v hv hr
    · exact hother rfl
  · obtain ⟨B, halike⟩ := (Alike.refl h).release hs hs true false k
    exact halike.run (hs.release true k) (hs.release false k) drops drops' requests

/-- A host with a handle on a frame inside the global one, in which `define g() {}` and `var x = 42`
were executed: the frame holds the function, and the function holds the frame. -/
def withClosure : Host :=
  ((new (.new none)).run true [.child 0, .exec {} 1 [.define "g" [] [] default,
    .var "x" (some (.literal (.int 42) default)) default]]).2

/-- When the handle is given back, both bindings of the frame are dropped. -/
theorem release_unobservable_withClosure :
    withClosure.Sound ∧ withClosure.handles[1]? = some 1 ∧
    (withClosure.machine.store.frames.vars 1).map Prod.fst = ["g", "x"] ∧
    withClosure.machine.store.frames.Drops withClosure.roots 1 ∧
    (withClosure.release true 1).machine.store = withClosure.machine.store.drop 1 ∧
    (∀ rs : List Ref, (∀ r ∈ rs, r ∈ (withClosure.release true 1).refs ∨ r ≠ .frame 1) →
      ¬ withClosure.machine.store.Reaches rs (.frame 1)) ∧
    ∀ (drops drops' : Bool) (requests : List Request),
      ((withClosure.release true 1).run drops requests).1 =
        ((withClosure.release false 1).run drops' requests).1 := by
  have hs : withClosure.Sound := (Sound.new _).run _ _
  have hk : withClosure.handles[1]? = some 1 := by decide +kernel
  have hnames : (withClosure.machine.store.frames.vars 1).map Prod.fst = ["g", "x"] := by
    decide +kernel
  have hcount : withClosure.machine.store.frames.frameCount withClosure.roots 1 =
      1 + (withClosure.machine.store.frames.vars 1).countP fun entry ↦
        withClosure.machine.store.frames.isOwnClosure withClosure.roots 1 entry.2 := by
    decide +kernel
  obtain ⟨hdropped, hanswers⟩ := release_unobservable hs hk
  obtain ⟨hstore, hreaches⟩ := hdropped hcount
  exact ⟨hs, hk, hnames, hcount, hstore, hreaches, hanswers⟩

end Host

end SafariScript
