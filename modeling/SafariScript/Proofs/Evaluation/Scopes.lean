import SafariScript.Proofs.Evaluation.Discipline
import SafariScript.Proofs.Evaluation.Outcome
import SafariScript.Proofs.Store.Frames

/-!
# The discipline of scopes

Evaluation may bind names, but not anywhere: a statement that declares a name binds it in the
current frame, an assignment to a name that is bound nowhere binds it in the global frame, and all
other bindings are made in frames that are new. `ScopesKept` says this of the frames before and
after a computation: old frames stay where they stand, no binding disappears, and the names of an
old frame other than the global one stay the same, the **allowed names of the current frame** aside.

Two things could break it, and both are kept away by an invariant (`Frames.WellScoped`). An
assignment walks outward along a path, so the outermost frame of every path has to be the global
one. And a call makes its frame inside the one where the function was defined, so that frame has to
exist: what functions refer to is **within** the frames made so far, also for the functions in
lists, in bindings and on the way through an expression (`Value.Within`). Since frames are only
added, that is the `World` of a discipline.

Blocks and calls run in a frame that was not there before; so whatever they bind in it concerns no
old frame (`ScopesKept.fresh`).
-/

namespace SafariScript

open EvalM ExecM

/-! ### Well-scoped frames -/

/-- Every frame that the value refers to is one of the first `n`. -/
def Value.Within (n : Nat) (v : Value) : Prop := ∀ i, Ref.frame i ∈ v.refs → i < n

namespace Value.Within

variable {n n' : Nat} {v : Value}

theorem mono (h : n ≤ n') (hv : v.Within n) : v.Within n' :=
  fun i hi ↦ Nat.lt_of_lt_of_le (hv i hi) h

/-- A value without references is within any number of frames. -/
theorem of_refs_eq_nil (h : v.refs = []) : v.Within n := by
  intro i hi
  rw [h] at hi
  cases hi

/-- A list is within the frames that its elements are within. -/
theorem list {id : Nat} {items : List Value} (h : ∀ v ∈ items, v.Within n) :
    (Value.list id items).Within n := by
  intro i hi
  obtain ⟨v, hv, hmem⟩ := Value.mem_refsAll.1 hi
  exact h v hv i hmem

end Value.Within

/-- The global frame is there and the only one that stands inside none, and the functions that are
bound were defined in frames that are there. -/
structure Frames.WellScoped (fs : Frames) : Prop where
  global : globalFrame < fs.size
  inside : ∀ i < fs.size, i ≠ globalFrame → fs.parent? i ≠ none
  within : ∀ i name v, (fs.vars i).get? name = some v → v.Within fs.size

/-- The frames are well scoped, and the current frame is one of them. -/
structure Machine.WellScoped (m : Machine) : Prop where
  frames : m.store.frames.WellScoped
  frame : m.frame < m.store.frames.size

namespace Frames.WellScoped

variable {fs : Frames} {i : FrameId} {name : String} {v : Value}

/-- Every path ends in the global frame. -/
theorem root (h : fs.WellScoped) (hi : i < fs.size) : fs.root i = globalFrame := by
  have hle : fs.root i ≤ i := le_of_mem_path (root_mem_path fs i)
  have hlt : fs.root i < fs.size := Nat.lt_of_le_of_lt hle hi
  by_cases hroot : fs.root i = globalFrame
  · exact hroot
  · exact absurd (parent?_root fs i) (h.inside _ hlt hroot)

/-- What a name stands for was bound in some frame. -/
theorem within_get? (h : fs.WellScoped) (hv : fs.get? i name = some v) : v.Within fs.size := by
  obtain ⟨j, -, hj⟩ := get?_eq_some hv
  exact h.within j name v hj

/-- A definition binds a value that is within the frames. -/
theorem define (h : fs.WellScoped) (hv : v.Within fs.size) : (fs.define i name v).WellScoped where
  global := by rw [size_define]; exact h.global
  inside j hj hne := by
    rw [size_define] at hj
    rw [parent?_define]
    exact h.inside j hj hne
  within j name' u hu := by
    rw [size_define]
    rw [get?_vars_define] at hu
    split at hu
    · cases hu
      exact hv
    · exact h.within j name' u hu

/-- The new frame stands inside one that is there. -/
theorem pushChild (h : fs.WellScoped) (hi : i < fs.size) : (fs.pushChild i).2.WellScoped where
  global := by
    rw [size_pushChild]
    exact Nat.lt_succ_of_lt h.global
  inside j hj hne := by
    rw [size_pushChild] at hj
    rw [parent?_pushChild, if_pos hi]
    split
    · exact nofun
    · next hj' => exact h.inside j (Nat.lt_of_le_of_ne (Nat.le_of_lt_succ hj) hj') hne
  within j name u hu := by
    rw [size_pushChild]
    rw [vars_pushChild] at hu
    exact (h.within j name u hu).mono (Nat.le_succ _)

end Frames.WellScoped

/-! ### Scopes before and after -/

/-- The frames `fs'` keep the scopes of `fs`: only the given names may be new in the frame `F`. -/
structure ScopesKept (F : FrameId) (names : String → Prop) (fs fs' : Frames) : Prop where
  /-- No frame disappears. -/
  size : fs.size ≤ fs'.size
  /-- An old frame stands inside the same frame as before. -/
  parent : ∀ i < fs.size, fs'.parent? i = fs.parent? i
  /-- No binding disappears. -/
  kept : ∀ i name, fs.Binds i name → fs'.Binds i name
  /-- An old frame other than the global one binds no new name; only `F` may bind the given ones. -/
  gained : ∀ i < fs.size, i ≠ globalFrame → ∀ name, fs'.Binds i name →
    fs.Binds i name ∨ (i = F ∧ names name)

/-- No names. -/
def noNames (_ : String) : Prop := False

namespace ScopesKept

variable {F : FrameId} {names names' : String → Prop} {fs fs' fs'' : Frames}

theorem refl (fs : Frames) : ScopesKept F names fs fs where
  size := Nat.le_refl _
  parent _ _ := rfl
  kept _ _ h := h
  gained _ _ _ _ h := .inl h

theorem trans (h : ScopesKept F names fs fs') (h' : ScopesKept F names fs' fs'') :
    ScopesKept F names fs fs'' where
  size := Nat.le_trans h.size h'.size
  parent i hi := (h'.parent i (Nat.lt_of_lt_of_le hi h.size)).trans (h.parent i hi)
  kept i name hb := h'.kept i name (h.kept i name hb)
  gained i hi hne name hb := by
    rcases h'.gained i (Nat.lt_of_lt_of_le hi h.size) hne name hb with hold | hnew
    · exact h.gained i hi hne name hold
    · exact .inr hnew

/-- More names may be allowed. -/
theorem mono (hn : ∀ name, names name → names' name) (h : ScopesKept F names fs fs') :
    ScopesKept F names' fs fs' where
  size := h.size
  parent := h.parent
  kept := h.kept
  gained i hi hne name hb := (h.gained i hi hne name hb).imp_right fun ⟨hF, hname⟩ ↦
    ⟨hF, hn name hname⟩

/-- What is bound in a frame that was not there before concerns no old frame. -/
theorem fresh {F' : FrameId} (hF' : fs.size ≤ F') (h : ScopesKept F names fs fs')
    (h' : ScopesKept F' names' fs' fs'') : ScopesKept F names fs fs'' where
  size := Nat.le_trans h.size h'.size
  parent i hi := (h'.parent i (Nat.lt_of_lt_of_le hi h.size)).trans (h.parent i hi)
  kept i name hb := h'.kept i name (h.kept i name hb)
  gained i hi hne name hb := by
    rcases h'.gained i (Nat.lt_of_lt_of_le hi h.size) hne name hb with hold | ⟨hF, -⟩
    · exact h.gained i hi hne name hold
    · have hlt : i < F' := Nat.lt_of_lt_of_le hi hF'
      exact absurd hF (Nat.ne_of_lt hlt)

/-- A binding keeps the scopes if the name is bound already, or if the frame is the global one or
the one in which the name may be bound. -/
theorem define {i : FrameId} {name : String} (v : Value)
    (h : fs.Binds i name ∨ i = globalFrame ∨ (i = F ∧ names name)) :
    ScopesKept F names fs (fs.define i name v) where
  size := Nat.le_of_eq (Frames.size_define ..).symm
  parent j _ := Frames.parent?_define ..
  kept j name' hb := by
    unfold Frames.Binds at *
    rw [Frames.get?_vars_define]
    split
    · rfl
    · exact hb
  gained j _ hne name' hb := by
    unfold Frames.Binds at hb
    rw [Frames.get?_vars_define] at hb
    split at hb
    · next hnew =>
      obtain ⟨rfl, -, rfl⟩ := hnew
      rcases h with hbound | hglobal | hF
      · exact .inl hbound
      · exact absurd hglobal hne
      · exact .inr hF
    · exact .inl hb

/-- A new frame changes nothing about the old ones. -/
theorem pushChild (i : FrameId) : ScopesKept F names fs (fs.pushChild i).2 where
  size := by rw [Frames.size_pushChild]; exact Nat.le_succ _
  parent j hj := by rw [Frames.parent?_pushChild, if_neg (Nat.ne_of_lt hj)]
  kept j name hb := by
    unfold Frames.Binds
    rwa [Frames.vars_pushChild]
  gained j _ _ name hb := by
    unfold Frames.Binds at hb
    rw [Frames.vars_pushChild] at hb
    exact .inl hb

/-- An assignment changes a binding or makes one in the global frame. -/
theorem set {i : FrameId} (hfs : fs.WellScoped) (hi : i < fs.size) (name : String) (v : Value) :
    ScopesKept F names fs (fs.set i name v).2 := by
  unfold Frames.set
  split
  · next j hj =>
    obtain ⟨-, hbinds⟩ := Frames.resolve?_eq_some hj
    exact .define v (.inl hbinds)
  · rw [hfs.root hi]
    exact .define v (.inr (.inl rfl))

end ScopesKept

/-- An assignment binds a value that is within the frames. -/
theorem Frames.WellScoped.set {fs : Frames} {i : FrameId} {v : Value} (h : fs.WellScoped)
    (hv : v.Within fs.size) (name : String) : (fs.set i name v).2.WellScoped := by
  unfold Frames.set
  split
  · exact h.define hv
  · exact h.define hv

/-! ### Parameters -/

section DefineAll

variable {F : FrameId} {bindings : List (String × Value)}

/-- The parameters are bound one after the other, all in the frame `F`. -/
theorem ScopesKept.defineAll (s : Store) :
    ScopesKept F (fun _ ↦ True) s.frames (s.defineAll F bindings).frames := by
  induction bindings generalizing s with
  | nil => exact .refl _
  | cons b bindings ih =>
    have hone : ScopesKept F (fun _ ↦ True) s.frames (s.define F b.1 b.2).frames :=
      .define b.2 (.inr (.inr ⟨rfl, trivial⟩))
    exact hone.trans (ih (s.define F b.1 b.2))

/-- Parameters are bound one after the other. -/
theorem Frames.WellScoped.defineAll {s : Store} (h : s.frames.WellScoped)
    (hb : ∀ b ∈ bindings, b.2.Within s.frames.size) :
    (s.defineAll F bindings).frames.WellScoped := by
  induction bindings generalizing s with
  | nil => exact h
  | cons b bindings ih =>
    obtain ⟨hv, hrest⟩ := List.forall_mem_cons.1 hb
    refine ih (s := s.define F b.1 b.2) (h.define hv) fun b' hb' ↦ ?_
    show b'.2.Within (s.frames.define F b.1 b.2).size
    rw [Frames.size_define]
    exact hrest b' hb'

end DefineAll

/-! ### Going into blocks and bodies -/

section Enter

variable {F : FrameId} {names : String → Prop} {m : Machine} {f : Function} {args : List Value}

/-- The frame of a block is the newest one. -/
theorem Machine.frame_enterBlock (m : Machine) : m.enterBlock.frame = m.store.frames.size :=
  Frames.pushChild_fst ..

/-- The frame of a body is the newest one. -/
theorem Machine.frame_enterBody (f : Function) (args : List Value) (m : Machine) :
    (m.enterBody f args).frame = m.store.frames.size :=
  Frames.pushChild_fst ..

/-- Going into a block changes nothing about the old frames. -/
theorem ScopesKept.enterBlock (m : Machine) :
    ScopesKept F names m.store.frames m.enterBlock.store.frames :=
  .pushChild m.frame

/-- The parameters are bound in a frame that is new. -/
theorem ScopesKept.enterBody (f : Function) (args : List Value) (m : Machine) :
    ScopesKept F names m.store.frames (m.enterBody f args).store.frames :=
  .fresh (Nat.le_of_eq (m.frame_enterBody f args).symm) (.pushChild f.closure)
    (.defineAll (m.store.newFrame f.closure).2)

/-- The block is evaluated in a well scoped machine. -/
theorem Machine.WellScoped.enterBlock (hm : m.WellScoped) : m.enterBlock.WellScoped where
  frames := hm.frames.pushChild hm.frame
  frame := by
    have hsize : m.enterBlock.store.frames.size = m.store.frames.size + 1 :=
      Frames.size_pushChild ..
    rw [m.frame_enterBlock, hsize]
    exact Nat.lt_succ_self _

/-- The body is evaluated in a well scoped machine, if the function was defined in a frame that is
there. -/
theorem Machine.WellScoped.enterBody (hm : m.WellScoped)
    (hf : (Value.function f).Within m.store.frames.size)
    (hargs : ∀ v ∈ args, v.Within m.store.frames.size) : (m.enterBody f args).WellScoped := by
  let s : Store := (m.store.newFrame f.closure).2
  have hclosure : f.closure < m.store.frames.size := hf _ List.mem_cons_self
  have hsize : s.frames.size = m.store.frames.size + 1 := Frames.size_pushChild ..
  have hvalues : ∀ b ∈ f.params.zip args, b.2.Within s.frames.size := fun b hb ↦
    (hargs b.2 (List.of_mem_zip hb).2).mono (by omega)
  refine ⟨(hm.frames.pushChild hclosure).defineAll hvalues, ?_⟩
  have hparams : ScopesKept (m.enterBody f args).frame (fun _ ↦ True) s.frames
    (m.enterBody f args).store.frames := .defineAll s
  rw [m.frame_enterBody f args]
  exact Nat.lt_of_lt_of_le (hsize ▸ Nat.lt_succ_self _) hparams.size

end Enter

/-! ### Objects -/

/-- The outcome of a computation on the store that left the frames alone; the values it gives refer
to no frame. -/
inductive Store.FrameFree {α : Type} (s : Store) (c : α → List Value) :
    EStateM.Result Fault Store α → Prop
  | ok {a : α} {s' : Store} : s'.frames = s.frames → (∀ v ∈ c a, ∀ i, Ref.frame i ∉ v.refs) →
    FrameFree s c (.ok a s')
  | error {fault : Fault} {s' : Store} : s'.frames = s.frames → FrameFree s c (.error fault s')

namespace Store.FrameFree

variable {α β : Type} {s s' : Store}

/-- A value that refers to no frame, from a store with the same frames. -/
theorem value {v : Value} (hs : s'.frames = s.frames) (hv : ∀ i, Ref.frame i ∉ v.refs) :
    FrameFree s (fun v ↦ [v]) (.ok v s') :=
  .ok hs fun _ hu ↦ List.mem_singleton.1 hu ▸ hv

/-- A Pokémon is not a frame. -/
theorem not_mem_pokemonRefs {ids : List PokemonId} (i : FrameId) :
    Ref.frame i ∉ pokemonRefs ids := by
  simp [pokemonRefs]

/-- What an object replies refers to Pokémon only. -/
theorem ofReply {reply : Reply} {ids : List PokemonId} (hs : s'.frames = s.frames)
    (hr : reply.refs ⊆ pokemonRefs ids) : FrameFree s (fun v ↦ [v]) (ofReply reply s') := by
  cases reply with
  | value v => exact .value hs fun i hi ↦ not_mem_pokemonRefs i (hr hi)
  | roster members =>
    refine .value hs fun i hi ↦ ?_
    rw [Value.refs, Value.refsAll_pokemon] at hi
    exact not_mem_pokemonRefs i hi

/-- A check in front of a computation. -/
theorem check_bind {x : Except Fault α} {f : α → StoreM β} {c : β → List Value}
    (hf : ∀ a, x = .ok a → FrameFree s c (f a s)) : FrameFree s c ((Steps.check x >>= f) s) := by
  cases x with
  | ok a => exact hf a rfl
  | error fault => exact .error rfl

theorem check {x : Except Fault Value} (h : ∀ v, x = .ok v → v.refs = []) :
    FrameFree s (fun v ↦ [v]) (Steps.check x s) := by
  cases x with
  | ok v => exact .value rfl fun i hi ↦ by rw [h v rfl] at hi; cases hi
  | error fault => exact .error rfl

/-- To read a property leaves the frames alone. -/
theorem getProperty (o : Object) (name : String) :
    FrameFree s (fun v ↦ [v]) (getProperty o name s) := by
  cases o with
  | zone id => exact .check_bind fun reply h ↦ .ofReply rfl (refs_zone_get h)
  | team id => exact .check_bind fun reply h ↦ .ofReply rfl (refs_team_get h)
  | pokemon id => exact .check fun v h ↦ refs_pokemon_get h

/-- To write a property leaves the frames alone. -/
theorem setProperty (o : Object) (name : String) (v : Value) :
    FrameFree s Discipline.nothing (setProperty o name v s) := by
  rw [setProperty_eq]
  refine .check_bind fun x _ ↦ .ok ?_ nofun
  cases o <;> rfl

/-- A method leaves the frames alone. -/
theorem callMethod (o : Object) (name : String) (args : List Value)
    (named : List (String × Value)) :
    FrameFree s (fun v ↦ [v]) (callMethod o name args named s) := by
  rw [callMethod_eq]
  refine .check_bind fun (reply, x) h ↦ ?_
  have hframes : (s.put o x).frames = s.frames := by cases o <;> rfl
  cases o with
  | zone id =>
    obtain ⟨hreply, -⟩ := refs_zone_answer h
    have hnone : reply.refs ⊆ pokemonRefs [] := hreply ▸ List.nil_subset _
    exact .ofReply hframes hnone
  | team id => exact .ofReply hframes (refs_team_answer h).1
  | pokemon id =>
    obtain ⟨v, hv, hanswer⟩ := Except.of_map_eq_ok h
    cases hanswer
    exact .value hframes fun i hi ↦ by rw [refs_pokemon_answer hv] at hi; cases hi

/-- A native function leaves the frames alone. -/
theorem callNative (n : Native) (args : List Value) :
    FrameFree s (fun v ↦ [v]) (callNative n args s) := by
  have hobject : ∀ (o : Object) (i : FrameId), Ref.frame i ∉ (Value.object o).refs :=
    fun o i ↦ by simp [Value.refs]
  cases n with
  | safariZone =>
    rw [callNative_safariZone]
    exact .check_bind fun z _ ↦ .value rfl (hobject _)
  | team => exact .check_bind fun _ _ ↦ .value rfl (hobject _)
  | pokemon =>
    rw [callNative_pokemon]
    exact .check_bind fun p _ ↦ .value rfl (hobject _)
  | len => exact .check_bind fun k _ ↦ .value rfl fun _ ↦ List.not_mem_nil

end Store.FrameFree

/-! ### Computations that keep the scopes -/

/-- The values that an outcome carries. -/
def carried {ε α : Type} (c : α → List Value) : EStateM.Result ε Machine α → List Value
  | .ok a _ => c a
  | .error _ _ => []

/-- The outcome of a computation that started in the frame `F` among the frames `fs`. -/
structure Kept {ε α : Type} (F : FrameId) (names : String → Prop) (fs : Frames)
    (c : α → List Value) (r : EStateM.Result ε Machine α) : Prop where
  frames : (reached r).store.frames.WellScoped
  scopes : ScopesKept F names fs (reached r).store.frames
  frame : (reached r).frame = F
  values : ∀ v ∈ carried c r, v.Within (reached r).store.frames.size

/-- From every well-scoped machine with at least `w` frames, the computation keeps the scopes,
however it ends; the values it gives are within the frames that there are then. -/
def Scoped {ε α : Type} (w : Nat) (names : String → Prop) (c : α → List Value)
    (x : EStateM ε Machine α) : Prop :=
  ∀ m : Machine, m.WellScoped → w ≤ m.store.frames.size →
    Kept m.frame names m.store.frames c (x m)

namespace Kept

variable {ε α : Type} {F : FrameId} {names : String → Prop} {fs : Frames} {c : α → List Value}
  {m : Machine}

/-- Afterwards the machine is well scoped again. -/
theorem wellScoped {r : EStateM.Result ε Machine α} (h : Kept F names fs c r) (hF : F < fs.size) :
    (reached r).WellScoped where
  frames := h.frames
  frame := by
    rw [h.frame]
    exact Nat.lt_of_lt_of_le hF h.scopes.size

/-- More names may be allowed. -/
theorem mono {names' : String → Prop} {r : EStateM.Result ε Machine α}
    (hn : ∀ name, names name → names' name) (h : Kept F names fs c r) : Kept F names' fs c r :=
  { h with scopes := h.scopes.mono hn }

/-! #### Brackets -/

theorem toExec {x : EvalM α} (h : Kept F names fs c (x m)) : Kept F names fs c (x.toExec m) := by
  unfold EvalM.toExec
  generalize x m = r at h ⊢
  cases r with
  | ok a n => exact ⟨h.frames, h.scopes, h.frame, h.values⟩
  | error e n => exact ⟨h.frames, h.scopes, h.frame, h.values⟩

/-- The border of a body is not a frame. -/
theorem settle {x : ExecM α} (h : Kept F names fs c (x m)) : Kept F names fs c (x.settle m) := by
  unfold ExecM.settle
  generalize x m = r at h ⊢
  rcases r with ⟨a, n⟩ | ⟨span | e, n⟩ <;> exact ⟨h.frames, h.scopes, h.frame, h.values⟩

/-- The number of active calls has nothing to do with the scopes. -/
theorem whileActive {x : EvalM α} (h : Kept F names fs c (x { m with active := m.active + 1 })) :
    Kept F names fs c (whileActive x m) := by
  unfold EvalM.whileActive
  generalize x { m with active := m.active + 1 } = r at h ⊢
  cases r with
  | ok a n => exact ⟨h.frames, h.scopes, h.frame, h.values⟩
  | error e n => exact ⟨h.frames, h.scopes, h.frame, h.values⟩

/-- The counts and the log have nothing to do with the scopes. -/
theorem attempt {x : ExecM α} {line i : Nat}
    (h : Kept F names fs c (x { m with iterations := m.iterations + 1 })) :
    Kept F names fs Discipline.nothing (attempt x line i m) := by
  unfold ExecM.attempt
  generalize x { m with iterations := m.iterations + 1 } = r at h ⊢
  rcases r with ⟨a, n⟩ | ⟨span | e, n⟩ <;> exact ⟨h.frames, h.scopes, h.frame, nofun⟩

/-- A computation in a frame that was not there before. -/
theorem inFrame {x : ExecM α} {frame : FrameId} {names' : String → Prop}
    (hfresh : fs.size ≤ frame) (hbefore : ScopesKept m.frame names fs m.store.frames)
    (h : Kept frame names' m.store.frames c (x { m with frame := frame })) :
    Kept m.frame names fs c (inFrame frame x m) := by
  unfold ExecM.inFrame
  have hscopes := hbefore.fresh hfresh h.scopes
  generalize x { m with frame := frame } = r at h hscopes ⊢
  cases r with
  | ok a n => exact ⟨h.frames, hscopes, rfl, h.values⟩
  | error e n => exact ⟨h.frames, hscopes, rfl, h.values⟩

end Kept

namespace Scoped

variable {ε α β : Type} {w : Nat} {names : String → Prop} {c : α → List Value}
  {d : β → List Value}

/-! #### Putting computations together -/

/-- What leaves the frames alone keeps the scopes; the values it gives have to be within them. -/
theorem quiet {x : EStateM ε Machine α}
    (hframes : ∀ m, (reached (x m)).store.frames = m.store.frames)
    (hframe : ∀ m, (reached (x m)).frame = m.frame)
    (hvalues : ∀ m : Machine, m.WellScoped → w ≤ m.store.frames.size →
      ∀ v ∈ carried c (x m), v.Within m.store.frames.size) : Scoped w names c x := fun m hm hw ↦
  { frames := hframes m ▸ hm.frames
    scopes := hframes m ▸ .refl _
    frame := hframe m
    values := hframes m ▸ hvalues m hm hw }

theorem pure {a : α} (h : ∀ v ∈ c a, v.Within w) : Scoped w names c (Pure.pure a : EStateM ε _ α) :=
  .quiet (fun _ ↦ rfl) (fun _ ↦ rfl) fun _ _ hw v hv ↦ (h v hv).mono hw

theorem throw (e : ε) : Scoped w names c (throw e : EStateM ε Machine α) :=
  .quiet (fun _ ↦ rfl) (fun _ ↦ rfl) fun _ _ _ ↦ nofun

/-- The rest starts with at least as many frames. -/
theorem bind {x : EStateM ε Machine α} {f : α → EStateM ε Machine β} (hx : Scoped w names c x)
    (hf : ∀ w' a, w ≤ w' → (∀ v ∈ c a, v.Within w') → Scoped w' names d (f a)) :
    Scoped w names d (x >>= f) := by
  intro m hm hw
  have h := hx m hm hw
  cases hr : x m with
  | ok a n =>
    rw [hr] at h
    have hn : n.WellScoped := h.wellScoped hm.frame
    have hsize : m.store.frames.size ≤ n.store.frames.size := h.scopes.size
    have h' := hf n.store.frames.size a (Nat.le_trans hw hsize) h.values n hn (Nat.le_refl _)
    have hframe : n.frame = m.frame := h.frame
    rw [hframe] at h'
    rw [bind_ok f hr]
    exact { h' with scopes := h.scopes.trans h'.scopes }
  | error e n =>
    rw [hr] at h
    rw [bind_error f hr]
    exact ⟨h.frames, h.scopes, h.frame, nofun⟩

/-- The names that a block binds are in its own frame, so outside of it none are new. -/
theorem inNewFrame {names' : String → Prop} {x : ExecM α}
    (hx : ∀ w', w ≤ w' → Scoped w' names' c x) : Scoped w names c (inNewFrame x) := by
  intro m hm hw
  have hbefore : ScopesKept m.frame names m.store.frames m.enterBlock.store.frames := .enterBlock m
  have hin := hx w (Nat.le_refl w) m.enterBlock hm.enterBlock (Nat.le_trans hw hbefore.size)
  rw [inNewFrame_eq]
  exact .inFrame (m := { m with store := m.enterBlock.store })
    (Nat.le_of_eq m.frame_enterBlock.symm) hbefore hin

/-- An iteration may leave frames behind, and the next one starts with them. -/
theorem turn {x : ExecM α} {y : ExecM Unit} {line i : Nat} (hx : Scoped w names c x)
    (hy : ∀ w', w ≤ w' → Scoped w' names Discipline.nothing y) :
    Scoped w names Discipline.nothing (turn x line i y) := by
  rw [turn_eq]
  have hattempt : Scoped w names Discipline.nothing (attempt x line i) := fun m hm hw ↦
    .attempt (hx { m with iterations := m.iterations + 1 } ⟨hm.frames, hm.frame⟩ hw)
  refine hattempt.bind fun w' left hw' _ ↦ ?_
  split
  · exact .pure nofun
  · exact hy w' hw'

/-- A call: the parameters are bound in a frame inside the one where the function was defined. -/
theorem enter {names' : String → Prop} {f : Function} {args : List Value} {x : ExecM α}
    (hf : (Value.function f).Within w) (hargs : ∀ v ∈ args, v.Within w)
    (hx : ∀ w', w ≤ w' → Scoped w' names' c x) :
    Scoped w names c (parameterFrame f args >>= fun frame ↦ inCall f.name frame x) := by
  intro m hm hw
  have hbefore : ScopesKept m.frame names m.store.frames (m.enterBody f args).store.frames :=
    .enterBody f args m
  have hentry : (m.enterBody f args).WellScoped :=
    hm.enterBody (hf.mono hw) fun v hv ↦ (hargs v hv).mono hw
  -- the machine in which the body starts: the call is counted and told
  let m₁ : Machine := Machine.tell (.called f.name (m.active + 1))
    { m with store := (m.enterBody f args).store, active := m.active + 1 }
  have hin := hx w (Nat.le_refl w) { m₁ with frame := (m.enterBody f args).frame }
    ⟨hentry.frames, hentry.frame⟩ (Nat.le_trans hw hbefore.size)
  have hcall : Kept m.frame names m.store.frames c
      (ExecM.settle (ExecM.inFrame (m.enterBody f args).frame x) m₁) :=
    .settle (.inFrame (m := m₁) (Nat.le_of_eq (m.frame_enterBody f args).symm) hbefore hin)
  rw [enter_eq]
  exact .whileActive hcall

/-! #### Steps -/

/-- A change of the store that leaves the frames alone. -/
theorem onStore {change : Store → α × Store} (hframes : ∀ s, (change s).2.frames = s.frames)
    (hvalues : ∀ s, ∀ v ∈ c (change s).1, v.Within w) : Scoped w names c (onStore change) :=
  .quiet (fun m ↦ hframes m.store) (fun _ ↦ rfl) fun m _ hw v hv ↦ (hvalues m.store v hv).mono hw

/-- An operation on objects leaves the frames alone. -/
theorem inStore {span : Span} {x : StoreM α} (h : ∀ s, Store.FrameFree s c (x s)) :
    Scoped w names c (inStore span x) := by
  intro m hm hw
  have hs := h m.store
  unfold EvalM.inStore
  generalize x m.store = r at hs ⊢
  cases hs with
  | @ok a s hframes hvalues =>
    have hsame : s.frames = m.store.frames := hframes
    refine ⟨?_, ?_, rfl, fun v hv i hi ↦ absurd hi (hvalues v hv i)⟩
    · show s.frames.WellScoped
      exact hsame ▸ hm.frames
    · show ScopesKept _ _ _ s.frames
      exact hsame ▸ .refl _
  | @error fault s hframes =>
    have hsame : s.frames = m.store.frames := hframes
    refine ⟨?_, ?_, rfl, nofun⟩
    · show s.frames.WellScoped
      exact hsame ▸ hm.frames
    · show ScopesKept _ _ _ s.frames
      exact hsame ▸ .refl _

theorem tell (event : Event) : Scoped w names Discipline.nothing (EvalM.tell event) :=
  .quiet (fun _ ↦ rfl) (fun _ ↦ rfl) fun _ _ _ ↦ nofun

theorem writeLine (text : String) (span : Span) :
    Scoped w names Discipline.nothing (writeLine text span) := by
  intro m hm _
  unfold EvalM.writeLine
  rcases m.sink.writeLine text with ⟨_ | _, sink⟩ <;> exact ⟨hm.frames, .refl _, rfl, nofun⟩

theorem writeLines (lines : List String) (span : Span) :
    Scoped w names Discipline.nothing (lines.forM fun line ↦ EvalM.writeLine line span) := by
  induction lines generalizing w with
  | nil => exact .pure nofun
  | cons line lines ih => exact .bind (.writeLine line span) fun _ _ _ _ ↦ ih

/-- The result of a check is within the frames already. -/
theorem check {span : Span} {x : Except Fault α} (h : ∀ a, x = .ok a → ∀ v ∈ c a, v.Within w) :
    Scoped w names c (check span x) := by
  cases x with
  | ok a => exact .pure (h a rfl)
  | error fault => exact .throw _

theorem get : Scoped w names Discipline.nothing (get : EStateM ε Machine Machine) :=
  .quiet (fun _ ↦ rfl) (fun _ ↦ rfl) fun _ _ _ ↦ nofun

theorem tick (limits : Limits) (span : Span) :
    Scoped w names Discipline.nothing (tick limits span) := by
  have hcount : Scoped w names Discipline.nothing
      (modify fun m ↦ { m with steps := m.steps + 1 } : EvalM PUnit) :=
    .quiet (fun _ ↦ rfl) (fun _ ↦ rfl) fun _ _ _ ↦ nofun
  refine hcount.bind fun _ _ _ _ ↦ ?_
  split
  · exact .pure nofun
  · refine .bind .get fun _ m _ _ ↦ ?_
    split
    · exact .throw _
    · exact .pure nofun

/-- What is bound is within the frames. -/
theorem readVar (name : String) (span : Span) :
    Scoped w names (fun v ↦ [v]) (readVar name span) := by
  intro m hm hw
  cases hv : m.store.frames.get? m.frame name with
  | none =>
    rw [readVar_none hv]
    exact ⟨hm.frames, .refl _, rfl, nofun⟩
  | some v =>
    rw [readVar_some hv]
    refine ⟨hm.frames, .refl _, rfl, fun u hu ↦ ?_⟩
    rw [List.mem_singleton.1 hu]
    exact hm.frames.within_get? hv

/-- A name that is bound nowhere is new in the global frame, which is allowed. -/
theorem writeVar {name : String} {v : Value} {line : Nat} (hv : v.Within w) :
    Scoped w names Discipline.nothing (writeVar name v line) := by
  intro m hm hw
  rw [writeVar_eq]
  exact ⟨hm.frames.set (hv.mono hw) name, .set hm.frames hm.frame name v, rfl, nofun⟩

/-- The name that is bound in the current frame is an allowed one. -/
theorem bindVar {name : String} {v : Value} (hname : names name) (hv : v.Within w) :
    Scoped w names Discipline.nothing (bindVar name v) := fun _ hm hw ↦
  ⟨hm.frames.define (hv.mono hw), .define v (.inr (.inr ⟨rfl, hname⟩)), rfl, nofun⟩

/-- A function remembers the current frame, which is there. -/
theorem defineFunction {name : String} {params : List String} {body : List Stmt}
    (hname : names name) : Scoped w names Discipline.nothing (defineFunction name params body) := by
  intro m hm hw
  have hv : (m.store.newFunction name params body m.frame).1.Within m.store.frames.size := by
    intro i hi
    rw [Ref.frame.inj (List.mem_singleton.1 hi)]
    exact hm.frame
  exact ⟨hm.frames.define hv, .define _ (.inr (.inr ⟨rfl, hname⟩)), rfl, nofun⟩

/-- A throw changes objects, and its report is written. -/
theorem throwBall (zone : Nat) (target : PokemonId) (span : Span) :
    Scoped w names Discipline.nothing (throwBall zone target span) := by
  have hthrow : Scoped w names Discipline.nothing (EvalM.onStore (Store.throwBall zone target)) :=
    .onStore (fun _ ↦ rfl) fun _ ↦ nofun
  exact hthrow.bind fun w₁ outcome _ _ ↦ .bind .get fun w₂ m _ _ ↦
    .bind (.tell _) fun w₃ _ _ _ ↦ .writeLines _ span

end Scoped

/-! ### All of evaluation -/

/-- Keeping the scopes as a discipline: evaluation has come as far as there are frames. Expressions
bind no names in the current frame, statements bind those that are allowed. -/
def scopeDiscipline : Discipline where
  World := Nat
  le w w' := w ≤ w'
  holds := Value.Within
  place _ := True
  act _ := True
  leave _ := True
  eval w x _ c := Scoped w noNames c x
  exec w A x _ c := Scoped w A.binds c x

theorem free_scopeDiscipline : scopeDiscipline.Free :=
  ⟨fun _ ↦ trivial, fun _ ↦ trivial, fun _ ↦ trivial⟩

/-- Every step keeps the scopes. -/
theorem closed_scopeDiscipline (limits : Limits) : scopeDiscipline.Closed limits limits where
  trans := Nat.le_trans
  mono h hv := hv.mono h
  plain value := .of_refs_eq_nil (Value.refs_ofLiteral value)
  keeps _ := free_scopeDiscipline.body _
  pure := .pure
  bind := .bind
  raise _ _ := .throw _
  newList hvs := .onStore (fun _ ↦ rfl) fun _ _ hv ↦ List.mem_singleton.1 hv ▸ .list hvs
  readVar _ := .readVar _ _
  writeVar hv := .writeVar hv
  applyUnary _ _ := .check fun _ h _ hv ↦ .of_refs_eq_nil (List.mem_singleton.1 hv ▸ refs_unary h)
  applyBinary _ _ _ := .bind .get fun _ _ _ _ ↦
    .check fun _ h _ hv ↦ .of_refs_eq_nil (List.mem_singleton.1 hv ▸ refs_binary h)
  getProperty _ _ := .inStore fun _ ↦ .getProperty _ _
  setProperty _ _ _ _ := .inStore fun _ ↦ .setProperty _ _ _
  callMethod _ _ _ _ _ := .inStore fun _ ↦ .callMethod _ _ _ _
  callNative _ _ := .inStore fun _ ↦ .callNative _ _
  tick _ := .tick limits _
  printValue _ _ := .bind .get fun _ _ _ _ ↦ .writeLine _ _
  throwBall _ _ _ _ := .throwBall _ _ _
  bindVar hname hv := fun m hm hw ↦ .toExec (Scoped.bindVar hname hv m hm hw)
  defineFunction hname _ := fun m hm hw ↦ .toExec (Scoped.defineFunction hname m hm hw)
  toExec hx := fun m hm hw ↦ .toExec ((hx m hm hw).mono fun _ ↦ False.elim)
  execBind := .bind
  exit _ _ := .throw _
  inNewFrame hx := .inNewFrame hx
  turn hx hy := .turn (hx _ (Nat.le_refl _)) hy
  enter hf hargs hx := .enter hf hargs hx

section Evaluation

variable (limits : Limits) (room w : Nat)

/-- An expression binds no new name in the current frame. -/
theorem Scoped.evalExpr (e : Expr) :
    Scoped w noNames (fun v ↦ [v]) (evalExpr (callWith limits room) e) :=
  (closed_scopeDiscipline limits).evalExpr ((closed_scopeDiscipline limits).callWith rfl room) e
    (free_scopeDiscipline.expr e) w

theorem Scoped.evalExprs (es : List Expr) :
    Scoped w noNames id (evalExprs (callWith limits room) es) :=
  (closed_scopeDiscipline limits).evalExprs ((closed_scopeDiscipline limits).callWith rfl room) es
    (free_scopeDiscipline.exprs es) w

/-- A statement binds in the current frame at most the name that it declares. -/
theorem Scoped.execStmt (s : Stmt) :
    Scoped w (fun name ↦ s.declared? = some name) (fun v ↦ [v])
      (execStmt limits (callWith limits room) s) :=
  (closed_scopeDiscipline limits).execStmt ((closed_scopeDiscipline limits).callWith rfl room) s
    (free_scopeDiscipline.stmt ⟨fun name ↦ s.declared? = some name, fun _ ↦ True⟩
      (fun _ ↦ trivial) s fun _ h ↦ h) w

end Evaluation

end SafariScript
