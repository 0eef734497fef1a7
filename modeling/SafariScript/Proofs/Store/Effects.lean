import SafariScript.Proofs.Store.Properties

/-!
# What operations do to one object

An operation on the store may make things and change things. Seen from one object that is there, it
does little: only a write to the object, a call of one of its methods and a throw may change it, and
what becomes of it then is known (`StoreOp.outcome`). So what an operation makes of an object is an
equation (`StoreOp.apply_object`), from which properties of all runs follow: no operation changes
the name of a Pokémon (`Store.nameOf_after`).

Variables are changed by operations of their own only (`Store.get?_after`).
-/

namespace SafariScript

/-! ### One operation -/

namespace Object.Contents

variable {o : Object}

/-- The object behind a write, which may have failed. -/
def afterSet (x : o.Contents) (name : String) (v : Value) : o.Contents :=
  (x.set name v).toOption.getD x

/-- The object behind a call, which may have failed. -/
def afterCall (look : PokemonId → Pokemon) (x : o.Contents) (name : String) (args : List Value)
    (named : List (String × Value)) : o.Contents :=
  ((x.call look name args named).toOption.map Prod.snd).getD x

end Object.Contents

/-- What an operation makes of an object. Only a write to it, a call of one of its methods and a
throw may change it. -/
def StoreOp.outcome (s : Store) (o : Object) : StoreOp → o.Contents
  | setProperty o' name v => if o' = o then (s.contents o).afterSet name v else s.contents o
  | callMethod o' name args named =>
    if o' = o then (s.contents o).afterCall s.pokemonAt name args named else s.contents o
  | throwBall zone target => (s.throwBall zone target).2.contents o
  | _ => s.contents o

namespace Store

variable {s s' : Store} {o o' : Object}

/-- What is the same in both stores is there in both. -/
theorem has_of_sameAt (h : s.SameAt s' (.object o)) (ho : s.Has (.object o)) :
    s'.Has (.object o) := by
  have hsize : ∀ {α : Type} {xs xs' : Array α} {i : Nat}, xs[i]? = xs'[i]? → i < xs.size →
      i < xs'.size := by
    intro α xs xs' i hsame hi
    rw [Array.getElem?_eq_getElem hi] at hsame
    exact (Array.getElem?_eq_some_iff.1 hsame.symm).1
  cases o <;> exact hsize h ho

/-- To put an object neither makes nor removes one. -/
theorem has_put (x : o'.Contents) : (s.put o' x).Has (.object o) ↔ s.Has (.object o) := by
  cases o' <;> cases o <;> simp only [put, Has, Array.size_setIfInBounds]

/-- A change of one object, seen from an object that may be the same. -/
theorem contents_put_eq (ho : s.Has (.object o)) (f : (o : Object) → o.Contents) :
    (s.put o' (f o')).contents o = if o' = o then f o else s.contents o := by
  by_cases hne : o' = o
  · subst hne
    rw [if_pos rfl, contents_put ho]
  · rw [if_neg hne, contents_put_of_ne hne]

/-- A failed operation has changed nothing, so it has changed nothing else either. -/
theorem sameBut_behind {α : Type} {may : Object → Prop} {r : EStateM.Result Fault Store α}
    (h : s.Confined may r) : SameBut may s (behind r) := by
  cases r with
  | ok a s' => exact h
  | error fault s' =>
    cases h
    exact .refl s

/-- Behind a write stands the store with the object behind it, also if it failed. -/
theorem behind_setProperty (s : Store) (o : Object) (name : String) (v : Value) :
    behind (setProperty o name v s) = s.put o ((s.contents o).afterSet name v) := by
  rw [setProperty_eq, Object.Contents.afterSet]
  cases (s.contents o).set name v with
  | ok x => rfl
  | error fault => exact (put_contents s o).symm

/-- A call may also have made a list for its answer. -/
theorem behind_callMethod (s : Store) (o : Object) (name : String) (args : List Value)
    (named : List (String × Value)) : ∃ n, behind (callMethod o name args named s) =
      { s.put o ((s.contents o).afterCall s.pokemonAt name args named) with fresh := n } := by
  rw [callMethod_eq, Object.Contents.afterCall]
  cases (s.contents o).call s.pokemonAt name args named with
  | ok answer =>
    obtain ⟨reply, x⟩ := answer
    cases reply with
    | value v => exact ⟨_, rfl⟩
    | roster members => exact ⟨_, rfl⟩
  | error fault => exact ⟨_, (put_contents s o).symm⟩

end Store

/-- **One operation on one object.** -/
theorem StoreOp.apply_object (op : StoreOp) {s : Store} {o : Object} (ho : s.Has (.object o)) :
    (op.apply s).Has (.object o) ∧ (op.apply s).contents o = op.outcome s o := by
  have hsame : ∀ {s' : Store}, s.SameAt s' (.object o) →
      s'.Has (.object o) ∧ s'.contents o = s.contents o := fun h ↦
    ⟨Store.has_of_sameAt h ho, (Store.contents_congr h).symm⟩
  cases op with
  | newList | newFunction | newFrame | define | assign => cases o <;> exact ⟨ho, rfl⟩
  | getProperty o' name =>
    exact hsame ((Store.sameBut_behind (.getProperty s o' name)).objects o ho id)
  | callNative n args =>
    exact hsame ((Store.sameBut_behind (.callNative s n args)).objects o ho id)
  | setProperty o' name v =>
    show (Store.behind _).Has _ ∧ (Store.behind _).contents o = _
    rw [Store.behind_setProperty]
    exact ⟨(Store.has_put _).2 ho,
      Store.contents_put_eq ho fun o ↦ (s.contents o).afterSet name v⟩
  | callMethod o' name args named =>
    obtain ⟨n, hbehind⟩ := Store.behind_callMethod s o' name args named
    have hhas := (Store.has_put ((s.contents o').afterCall s.pokemonAt name args named)).2 ho
    have hput : (s.put o' _).contents o = _ := Store.contents_put_eq ho fun o ↦
      (s.contents o).afterCall s.pokemonAt name args named
    show (Store.behind _).Has _ ∧ (Store.behind _).contents o = _
    rw [hbehind]
    cases o <;> exact ⟨hhas, hput⟩
  | throwBall zone target =>
    refine ⟨?_, rfl⟩
    show ((s.put (.zone zone) _).put (.pokemon target) _).Has _
    exact (Store.has_put _).2 ((Store.has_put _).2 ho)

/-! ### Names stay -/

/-- The name of a Pokémon. -/
def Store.nameOf (s : Store) (id : PokemonId) : String := (s.pokemonAt id).name

namespace Pokemon

variable (p : Pokemon) (id : PokemonId) (name : String)

/-- The name of a Pokémon cannot be written. -/
theorem name_afterSet (v : Value) :
    (Object.Contents.afterSet (o := .pokemon id) p name v).name = p.name := by
  show ((p.withProperty name v).toOption.getD p).name = p.name
  cases hset : p.withProperty name v with
  | error fault => rfl
  | ok p' => cases Pokemon.withProperty_eq_ok.1 hset <;> rfl

/-- No method changes a Pokémon. -/
theorem afterCall_eq (look : PokemonId → Pokemon) (args : List Value)
    (named : List (String × Value)) :
    Object.Contents.afterCall (o := .pokemon id) look p name args named = p := by
  show ((((p.answer name args named).map (Reply.value ·, p)).toOption.map Prod.snd).getD p) = p
  cases p.answer name args named <;> rfl

/-- A throw leaves the name of its target alone. -/
theorem name_throwBall (z : Zone) : (z.throwBall id p).2.2.name = p.name := by
  unfold Zone.throwBall
  repeat' split
  all_goals rfl

end Pokemon

theorem Store.nameOf_throwBall (s : Store) (zone : Nat) (target : PokemonId) {id : PokemonId}
    (hid : s.Has (.object (.pokemon id))) :
    (s.throwBall zone target).2.nameOf id = s.nameOf id := by
  have hkinds : Object.zone zone ≠ .pokemon id := fun h ↦ Object.noConfusion h
  show (((s.put (.zone zone) _).put (.pokemon target) _).contents (.pokemon id)).name = _
  by_cases htarget : target = id
  · subst htarget
    rw [contents_put ((has_put _).2 hid)]
    exact Pokemon.name_throwBall _ _ _
  · rw [contents_put_of_ne fun h ↦ htarget (Object.pokemon.inj h), contents_put_of_ne hkinds]
    rfl

/-- **No operation changes a name.** -/
theorem StoreOp.nameOf_apply (op : StoreOp) {s : Store} {id : PokemonId}
    (hid : s.Has (.object (.pokemon id))) : (op.apply s).nameOf id = s.nameOf id := by
  have houtcome := (op.apply_object hid).2
  show ((op.apply s).contents (.pokemon id)).name = _
  rw [houtcome]
  cases op with
  | setProperty o name v =>
    rw [outcome]
    split
    · exact Pokemon.name_afterSet _ id name v
    · rfl
  | callMethod o name args named =>
    rw [outcome]
    split
    · exact congrArg Pokemon.name (Pokemon.afterCall_eq _ id name _ args named)
    · rfl
  | throwBall zone target => exact s.nameOf_throwBall zone target hid
  | _ => rfl

/-- **Names stay**, whatever the operations are. -/
theorem Store.nameOf_after {s : Store} {id : PokemonId} (hid : s.Has (.object (.pokemon id)))
    (ops : List StoreOp) : (s.after ops).nameOf id = s.nameOf id := by
  induction ops generalizing s with
  | nil => rfl
  | cons op ops ih => exact (ih (op.apply_object hid).1).trans (op.nameOf_apply hid)

/-- No operation removes an object. -/
theorem Store.has_after {s : Store} {o : Object} (ho : s.Has (.object o)) (ops : List StoreOp) :
    (s.after ops).Has (.object o) := by
  induction ops generalizing s with
  | nil => exact ho
  | cons op ops ih => exact ih (op.apply_object ho).1

/-! ### Variables stay -/

/-- The operation binds or assigns a variable. -/
def StoreOp.binds : StoreOp → Bool
  | .define _ _ _ | .assign _ _ _ => true
  | _ => false

/-- An operation that binds no variable leaves all variables as they are. -/
theorem StoreOp.get?_apply (op : StoreOp) (hop : op.binds = false) {s : Store} {i : FrameId}
    (hi : i < s.frames.size) (x : String) :
    i < (op.apply s).frames.size ∧ (op.apply s).frames.get? i x = s.frames.get? i x := by
  have hsame : ∀ {s' : Store}, s'.frames = s.frames →
      i < s'.frames.size ∧ s'.frames.get? i x = s.frames.get? i x := by
    intro s' h
    rw [h]
    exact ⟨hi, rfl⟩
  cases op with
  | define | assign => cases hop
  | newList | newFunction | throwBall => exact hsame rfl
  | getProperty o name => exact hsame (Store.sameBut_behind (.getProperty s o name)).frames
  | setProperty o name v => exact hsame (Store.sameBut_behind (.setProperty s o name v)).frames
  | callMethod o name args named =>
    exact hsame (Store.sameBut_behind (.callMethod s o name args named)).frames
  | callNative n args => exact hsame (Store.sameBut_behind (.callNative s n args)).frames
  | newFrame around =>
    show i < (s.frames.pushChild around).2.size ∧ (s.frames.pushChild around).2.get? i x = _
    have hpath : (s.frames.pushChild around).2.path i = s.frames.path i := by
      refine Frames.path_congr fun j hj ↦ ?_
      rw [Frames.parent?_pushChild, if_neg]
      exact Nat.ne_of_lt (Nat.lt_of_le_of_lt (Frames.le_of_mem_path hj) hi)
    rw [Frames.size_pushChild, Frames.get?, Frames.get?, hpath]
    simp only [Frames.vars_pushChild, and_true]
    exact Nat.lt_succ_of_lt hi

/-- Variables stay, unless an operation binds or assigns one. -/
theorem Store.get?_after {s : Store} {i : FrameId} (hi : i < s.frames.size) (x : String)
    (ops : List StoreOp) (hops : ∀ op ∈ ops, op.binds = false) :
    (s.after ops).frames.get? i x = s.frames.get? i x := by
  induction ops generalizing s with
  | nil => rfl
  | cons op ops ih =>
    obtain ⟨hop, hops⟩ := List.forall_mem_cons.1 hops
    obtain ⟨hi', hx⟩ := op.get?_apply hop hi x
    exact (ih hi' hops).trans hx

end SafariScript
