import SafariScript.Store.Basic

/-!
# How frames change

Frames change in two ways only: a name is bound in one of them (`Frames.define`), and a new one is
put at the end (`Frames.pushChild`). Each is described by what it does to the frame at a number
(`frame?_define`, `frame?_pushChild`); from that follows what becomes of the frames around a frame
and of its bindings. What a name means as seen from a frame depends only on the frames along its
**path** (`path_congr`), and the path ends at a frame that stands inside none (`parent?_root`).

Both can be said without the path, as walks from frame to frame (`Outermost`, `Search`). Every walk
ends, because a frame is younger than the frame around it (`outermost_iff`, `search_iff`).
-/

namespace SafariScript

namespace Frames

/-- The frame itself binds the name. -/
def Binds (fs : Frames) (i : FrameId) (name : String) : Prop := ((fs.vars i).get? name).isSome

/-! ### Binding a name -/

section Define

variable (fs : Frames) (i j : FrameId) (name name' : String) (v : Value)

@[simp] theorem size_define : (fs.define i name v).size = fs.size := by
  simp [size, define, update]

/-- A definition changes the bindings of one frame. -/
theorem frame?_define : (fs.define i name v).frame? j = if i = j
    then (fs.frame? j).map fun f ↦ { f with vars := f.vars.insert name v } else fs.frame? j := by
  show (fs.toArray.modify i _)[j]? = _
  rw [Array.getElem?_modify]
  rfl

/-- A definition changes no frame around a frame. -/
@[simp] theorem parent?_define : (fs.define i name v).parent? j = fs.parent? j := by
  unfold parent?
  rw [frame?_define]
  split
  · cases fs.frame? j <;> rfl
  · rfl

theorem frame?_isSome {i : FrameId} : (fs.frame? i).isSome ↔ i < fs.size := by
  simp [frame?, size]

/-- A definition in a frame that is not there changes nothing. -/
theorem vars_define : (fs.define i name v).vars j =
    if i = j ∧ i < fs.size then (fs.vars j).insert name v else fs.vars j := by
  unfold vars
  rw [frame?_define]
  by_cases hij : i = j
  · subst hij
    cases hf : fs.frame? i with
    | none =>
      have hi : ¬ i < fs.size := by rw [← frame?_isSome, hf]; exact nofun
      simp [hi]
    | some f =>
      have hi : i < fs.size := by rw [← frame?_isSome, hf]; rfl
      simp [hi]
  · simp [hij]

/-- Reading a name in a frame after one binding. -/
theorem get?_vars_define : ((fs.define i name v).vars j).get? name' =
    if i = j ∧ i < fs.size ∧ name' = name then some v else (fs.vars j).get? name' := by
  rw [vars_define]
  by_cases hi : i = j ∧ i < fs.size
  · obtain ⟨rfl, hlt⟩ := hi
    simp [hlt, Bindings.get?_insert]
  · rw [if_neg hi, if_neg fun h ↦ hi ⟨h.1, h.2.1⟩]

end Define

/-! ### A new frame -/

section PushChild

variable (fs : Frames) (i j : FrameId)

/-- The new frame has the next number. -/
@[simp] theorem pushChild_fst : (fs.pushChild i).1 = fs.size := by
  unfold pushChild
  split <;> rfl

/-- The new frame comes after the old ones. -/
theorem toArray_pushChild : (fs.pushChild i).2.toArray =
    fs.toArray.push ⟨if i < fs.size then some i else none, []⟩ := by
  unfold pushChild
  split <;> rfl

@[simp] theorem size_pushChild : (fs.pushChild i).2.size = fs.size + 1 := by
  rw [size, toArray_pushChild, Array.size_push, size]

/-- The new frame stands inside the given one, if that is there, and the others are as they were. -/
theorem frame?_pushChild : (fs.pushChild i).2.frame? j = if j = fs.size
    then some ⟨if i < fs.size then some i else none, []⟩ else fs.frame? j := by
  rw [frame?, toArray_pushChild]
  exact Array.getElem?_push

theorem parent?_pushChild : (fs.pushChild i).2.parent? j = if j = fs.size
    then (if i < fs.size then some i else none) else fs.parent? j := by
  unfold parent?
  rw [frame?_pushChild]
  split <;> rfl

/-- The new frame binds nothing. -/
theorem vars_pushChild : (fs.pushChild i).2.vars j = fs.vars j := by
  unfold vars
  rw [frame?_pushChild]
  split
  · next hj =>
    have hnone : fs.frame? j = none := by simp [frame?, hj, size]
    rw [hnone]
    rfl
  · rfl

end PushChild

/-! ### Paths -/

section Path

variable {fs fs' : Frames} {i j : FrameId} {name : String} {v : Value}

/-- The path of a frame is the frame and the path of the frame around it. -/
theorem path_eq (fs : Frames) (i : FrameId) :
    fs.path i = i :: ((fs.parent? i).map fs.path).getD [] := by
  rw [path]
  split <;> simp [*]

theorem path_ne_nil (fs : Frames) (i : FrameId) : fs.path i ≠ [] := by
  rw [path_eq]
  exact List.cons_ne_nil _ _

theorem mem_path_self (fs : Frames) (i : FrameId) : i ∈ fs.path i := by
  rw [path_eq]
  exact List.mem_cons_self

/-- A frame of the path is the first one or on the path of the frame around it. -/
theorem mem_path : j ∈ fs.path i ↔ j = i ∨ ∃ p, fs.parent? i = some p ∧ j ∈ fs.path p := by
  rw [path_eq]
  cases fs.parent? i <;> simp

/-- The frames along the path are no younger. -/
theorem le_of_mem_path (h : j ∈ fs.path i) : j ≤ i := by
  induction i using Nat.strongRecOn with
  | ind i ih =>
    rcases mem_path.1 h with rfl | ⟨p, hp, hj⟩
    · exact Nat.le_refl j
    · have hlt : p < i := lt_of_parent? hp
      exact Nat.le_trans (ih p hlt hj) (Nat.le_of_lt hlt)

/-- A path only depends on what the frames along it stand in. -/
theorem path_congr (h : ∀ j ∈ fs.path i, fs'.parent? j = fs.parent? j) :
    fs'.path i = fs.path i := by
  induction i using Nat.strongRecOn with
  | ind i ih =>
    have hi : fs'.parent? i = fs.parent? i := h i (mem_path_self fs i)
    rw [path_eq fs', path_eq fs, hi]
    cases hp : fs.parent? i with
    | none => rfl
    | some p =>
      have hrest : ∀ j ∈ fs.path p, fs'.parent? j = fs.parent? j :=
        fun j hj ↦ h j (mem_path.2 (.inr ⟨p, hp, hj⟩))
      simp [ih p (lt_of_parent? hp) hrest]

/-- The path ends at the outermost frame. -/
theorem root_mem_path (fs : Frames) (i : FrameId) : fs.root i ∈ fs.path i := by
  unfold root
  rw [List.getLast?_eq_some_getLast (path_ne_nil fs i)]
  exact List.getLast_mem _

/-- The outermost frame is found from the frame around as well. -/
theorem root_of_parent? {p : FrameId} (hp : fs.parent? i = some p) : fs.root i = fs.root p := by
  unfold root
  rw [path_eq fs i, hp]
  show ((i :: fs.path p).getLast?).getD i = _
  rw [List.getLast?_cons, List.getLast?_eq_some_getLast (path_ne_nil fs p)]
  rfl

/-- A frame that stands inside none is the outermost one. -/
theorem root_of_none (hi : fs.parent? i = none) : fs.root i = i := by
  rw [root, path_eq, hi]
  rfl

/-- The outermost frame stands inside none. -/
theorem parent?_root (fs : Frames) (i : FrameId) : fs.parent? (fs.root i) = none := by
  induction i using Nat.strongRecOn with
  | ind i ih =>
    cases hp : fs.parent? i with
    | none => rw [root_of_none hp, hp]
    | some p => rw [root_of_parent? hp, ih p (lt_of_parent? hp)]

/-- A name is resolved to a frame of the path that binds it. -/
theorem resolve?_eq_some (h : fs.resolve? i name = some j) :
    j ∈ fs.path i ∧ fs.Binds j name := by
  have hbinds : ((fs.vars j).get? name).isSome = true := by simpa using List.find?_some h
  exact ⟨List.mem_of_find?_eq_some h, hbinds⟩

/-- A name is resolved to the frame itself if it is bound there. -/
theorem resolve?_of_binds (h : fs.Binds i name) : fs.resolve? i name = some i := by
  rw [resolve?, path_eq]
  exact List.find?_cons_of_pos h

/-- A name that the outermost frame does not bind is bound nowhere. -/
theorem resolve?_of_none (h : ¬ fs.Binds i name) (hi : fs.parent? i = none) :
    fs.resolve? i name = none := by
  rw [resolve?, path_eq, hi]
  exact List.find?_cons_of_neg h

/-- A name that is not bound in the frame itself means what it means in the frame around. -/
theorem resolve?_of_parent? {p : FrameId} (h : ¬ fs.Binds i name) (hp : fs.parent? i = some p) :
    fs.resolve? i name = fs.resolve? p name := by
  rw [resolve?, path_eq, hp]
  exact List.find?_cons_of_neg h

/-- The value of a name is the one in the frame that it resolves to. -/
theorem get?_eq_bind (fs : Frames) (i : FrameId) (name : String) :
    fs.get? i name = (fs.resolve? i name).bind fun j ↦ (fs.vars j).get? name := by
  unfold get? resolve?
  induction fs.path i with
  | nil => rfl
  | cons j path ih =>
    rw [List.findSome?_cons, List.find?_cons]
    cases hj : (fs.vars j).get? name with
    | none => exact ih
    | some v => exact hj.symm

/-- What a name stands for is bound in the frame that it resolves to. -/
theorem get?_eq_some (h : fs.get? i name = some v) :
    ∃ j, fs.resolve? i name = some j ∧ (fs.vars j).get? name = some v := by
  rw [get?_eq_bind] at h
  exact Option.bind_eq_some_iff.1 h

end Path

/-! ### Walks outward -/

/-- To go outward from the frame `i` for as long as there is a frame around ends at `j`. -/
inductive Outermost (fs : Frames) : FrameId → FrameId → Prop
  | here {i : FrameId} : fs.parent? i = none → Outermost fs i i
  | outward {i p j : FrameId} : fs.parent? i = some p → Outermost fs p j → Outermost fs i j

/-- The search for a name, outward from the frame `i`, ends at a frame that binds it or, if the
outermost frame does not, with nothing. -/
inductive Search (fs : Frames) (name : String) : FrameId → Option FrameId → Prop
  | found {i : FrameId} : fs.Binds i name → Search fs name i (some i)
  | missing {i : FrameId} : ¬ fs.Binds i name → fs.parent? i = none → Search fs name i none
  | outward {i p : FrameId} {r : Option FrameId} : ¬ fs.Binds i name → fs.parent? i = some p →
    Search fs name p r → Search fs name i r

section Walks

variable {fs : Frames} {i j : FrameId} {name : String} {r : Option FrameId}

/-- Every walk ends, at the outermost frame. -/
theorem outermost_iff : fs.Outermost i j ↔ j = fs.root i := by
  constructor
  · intro h
    induction h with
    | here hi => exact (root_of_none hi).symm
    | outward hp _ ih => rw [ih, root_of_parent? hp]
  · rintro rfl
    -- a frame is younger than the frame around it
    induction i using Nat.strongRecOn with
    | ind i ih =>
      cases hp : fs.parent? i with
      | none =>
        rw [root_of_none hp]
        exact .here hp
      | some p =>
        rw [root_of_parent? hp]
        exact .outward hp (ih p (lt_of_parent? hp))

/-- Every search ends, at the frame to which the name is resolved. -/
theorem search_iff : fs.Search name i r ↔ r = fs.resolve? i name := by
  constructor
  · intro h
    induction h with
    | found hi => exact (resolve?_of_binds hi).symm
    | missing hi hp => exact (resolve?_of_none hi hp).symm
    | outward hi hp _ ih => rw [ih, resolve?_of_parent? hi hp]
  · rintro rfl
    induction i using Nat.strongRecOn with
    | ind i ih =>
      by_cases hi : fs.Binds i name
      · rw [resolve?_of_binds hi]
        exact .found hi
      cases hp : fs.parent? i with
      | none =>
        rw [resolve?_of_none hi hp]
        exact .missing hi hp
      | some p =>
        rw [resolve?_of_parent? hi hp]
        exact .outward hi hp (ih p (lt_of_parent? hp))

/-- No walk comes back to where it began. -/
theorem acyclic (fs : Frames) (i : FrameId) :
    ¬ Relation.TransGen (fun j p ↦ fs.parent? j = some p) i i := by
  have holder : ∀ {j}, Relation.TransGen (fun j p ↦ fs.parent? j = some p) i j → j < i := by
    intro j h
    induction h with
    | single hp => exact lt_of_parent? hp
    | tail _ hp ih => exact Nat.lt_trans (lt_of_parent? hp) ih
  exact fun h ↦ Nat.lt_irrefl i (holder h)

end Walks

end Frames

/-- The root of an empty store binds nothing. -/
theorem Store.vars_newRoot_empty (i : FrameId) : (newRoot .empty).2.frames.vars i = [] := by
  show ((#[(⟨none, []⟩ : Frame)][i]?).map Frame.vars).getD [] = []
  cases i <;> rfl

end SafariScript
