import SafariScript.Proofs.Store.Frames
import SafariScript.Proofs.Store.References

/-!
# Stores that share a part

Two stores are compared that have the same things, but not everywhere with the same contents: they
**share** a part of them (`Store.Shared`). A part is a set of references; it has to be closed under
what the store refers to, and everything that is not yet there belongs to it, since what both make
from now on they make alike.

What is read at a reference of the part is the same in both stores, and leads only to the part. What
is written there, with values that refer into the part, keeps the part shared. So nothing outside of
the part is ever looked at: in particular, names are looked up along paths inside of it
(`Shared.get?_eq`), and a team asks only about its own members.

A store has its frames and its objects of each kind in an array. That a part of an array stays
shared when an element is added, replaced or changed is said once for all of them (`ArraysShare`);
to share a part of the store is to share it in each array (`Shared.arrays`, `SharedArrays.shared`).
-/

namespace SafariScript

/-! ### Stores side by side -/

/-- The two stores hold the same at a reference. -/
def Store.SameAt (s s' : Store) : Ref → Prop
  | .frame i => s.frames.frame? i = s'.frames.frame? i
  | .object (.zone id) => s.zones[id]? = s'.zones[id]?
  | .object (.team id) => s.teams[id]? = s'.teams[id]?
  | .object (.pokemon id) => s.pokemon[id]? = s'.pokemon[id]?

/-- The two stores have the same frames, objects, lists and functions, whatever their contents. -/
structure Store.SameShape (s s' : Store) : Prop where
  frames : s.frames.size = s'.frames.size
  zones : s.zones.size = s'.zones.size
  teams : s.teams.size = s'.teams.size
  pokemon : s.pokemon.size = s'.pokemon.size
  fresh : s.fresh = s'.fresh

/-- There is something at the reference. -/
def Store.Has (s : Store) : Ref → Prop
  | .frame i => i < s.frames.size
  | .object (.zone id) => id < s.zones.size
  | .object (.team id) => id < s.teams.size
  | .object (.pokemon id) => id < s.pokemon.size

/-- The value refers only to the part. -/
def Value.RefersInto (A : Ref → Prop) (v : Value) : Prop := ∀ r ∈ v.refs, A r

/-- A value without references refers into every part. -/
theorem Value.RefersInto.of_refs_eq_nil {A : Ref → Prop} {v : Value} (h : v.refs = []) :
    v.RefersInto A := by
  intro r hr
  rw [h] at hr
  cases hr

/-- A list refers into the part if its elements do. -/
theorem Value.RefersInto.list {A : Ref → Prop} {id : Nat} {items : List Value}
    (h : ∀ v ∈ items, v.RefersInto A) : (Value.list id items).RefersInto A := by
  intro r hr
  obtain ⟨v, hv, hmem⟩ := Value.mem_refsAll.1 hr
  exact h v hv r hmem

/-- The two stores share the part `A`. -/
structure Store.Shared (A : Ref → Prop) (s s' : Store) : Prop where
  shape : s.SameShape s'
  same : ∀ r, A r → s.SameAt s' r
  /-- What the store holds in the part refers only to the part. -/
  closed : ∀ r, A r → ∀ r' ∈ s.targets r, A r'
  /-- What is not yet there belongs to the part. -/
  unused : ∀ r, ¬ s.Has r → A r

/-! ### Texts -/

namespace Value

mutual

/-- The text of a value depends only on the texts of the objects that it refers to. -/
theorem text_congr {f g : Object → String} (v : Value)
    (h : ∀ o, Ref.object o ∈ v.refs → f o = g o) : v.text f = v.text g := by
  match v with
  | .list _ items => rw [text, text, itemTexts_congr items h]
  | .object o => exact h o List.mem_cons_self
  | .null | .bool _ | .int _ | .decimal _ | .str _ | .function _ | .native _ => rfl

/-- The texts of elements depend on the objects that they refer to. -/
theorem itemTexts_congr {f g : Object → String} (vs : List Value)
    (h : ∀ o, Ref.object o ∈ refsAll vs → f o = g o) : itemTexts f vs = itemTexts g vs := by
  match vs with
  | [] => rfl
  | v :: vs =>
    have hv : v.text f = v.text g := text_congr v fun o ho ↦ h o (List.mem_append_left _ ho)
    have hvs : itemTexts f vs = itemTexts g vs :=
      itemTexts_congr vs fun o ho ↦ h o (List.mem_append_right _ ho)
    unfold itemTexts
    rw [hvs, hv]

end

end Value

/-- An operator asks for the texts of its operands only. -/
theorem binary_congr {text text' : Value → String} {l r : Value} (hl : text l = text' l)
    (hr : text r = text' r) (op : BinaryOp) : op.apply text l r = op.apply text' l r := by
  unfold BinaryOp.apply
  rw [hl, hr]

/-! ### Bindings -/

/-- A value that is found is one of those that are bound. -/
theorem Bindings.mem_of_get? {vars : Bindings} {name : String} {v : Value}
    (h : vars.get? name = some v) : v ∈ vars.map Prod.snd := by
  induction vars with
  | nil => cases h
  | cons b vars ih =>
    rw [Bindings.get?] at h
    split at h
    · cases h
      exact List.mem_cons_self
    · exact List.mem_cons_of_mem _ (ih h)

/-- What is bound after one more binding was bound before, or is the new value. -/
theorem Bindings.mem_of_mem_insert {vars : Bindings} {name : String} {u v : Value}
    (h : u ∈ (vars.insert name v).map Prod.snd) : u = v ∨ u ∈ vars.map Prod.snd := by
  induction vars with
  | nil => exact .inl (List.mem_singleton.1 h)
  | cons b vars ih =>
    rw [Bindings.insert] at h
    split at h
    · exact (List.mem_cons.1 h).imp_right (List.mem_cons_of_mem _)
    · split at h
      · exact List.mem_cons.1 h
      · rcases List.mem_cons.1 h with rfl | hrest
        · exact .inr List.mem_cons_self
        · exact (ih hrest).imp_right (List.mem_cons_of_mem _)

namespace Store.Shared

variable {A : Ref → Prop} {s s' : Store} {i : FrameId} {name : String} {v : Value}

/-! ### Reading variables -/

/-- A frame of the part is the same in both stores. -/
theorem frame?_eq (h : Shared A s s') (hi : A (.frame i)) :
    s'.frames.frame? i = s.frames.frame? i := (h.same _ hi).symm

/-- It stands inside the same frame. -/
theorem parent?_eq (h : Shared A s s') (hi : A (.frame i)) :
    s'.frames.parent? i = s.frames.parent? i := by
  unfold Frames.parent?
  rw [h.frame?_eq hi]

/-- It has the same bindings. -/
theorem vars_eq (h : Shared A s s') (hi : A (.frame i)) :
    s'.frames.vars i = s.frames.vars i := by
  unfold Frames.vars
  rw [h.frame?_eq hi]

/-- The frame around a frame of the part is in the part. -/
theorem parent (h : Shared A s s') (hi : A (.frame i)) {p : FrameId}
    (hp : s.frames.parent? i = some p) : A (.frame p) :=
  h.closed _ hi _ (by simp [targets, hp])

/-- What is bound in a frame of the part refers into the part. -/
theorem bound (h : Shared A s s') (hi : A (.frame i))
    (hv : v ∈ (s.frames.vars i).map Prod.snd) : v.RefersInto A := fun r hr ↦
  h.closed _ hi r (List.mem_append_right _ (Value.mem_refsAll.2 ⟨v, hv, hr⟩))

/-- The path of a frame of the part stays in the part. -/
theorem path (h : Shared A s s') (hi : A (.frame i)) : ∀ j ∈ s.frames.path i, A (.frame j) := by
  induction i using Nat.strongRecOn with
  | ind i ih =>
    intro j hj
    rcases Frames.mem_path.1 hj with rfl | ⟨p, hp, hjp⟩
    · exact hi
    · exact ih p (Frames.lt_of_parent? hp) (h.parent hi hp) j hjp

/-- The way out of it is the same, because it never leaves the part. -/
theorem path_eq (h : Shared A s s') (hi : A (.frame i)) :
    s'.frames.path i = s.frames.path i :=
  Frames.path_congr fun j hj ↦ h.parent?_eq (h.path hi j hj)

/-- It has the same outermost frame. -/
theorem root_eq (h : Shared A s s') (hi : A (.frame i)) :
    s'.frames.root i = s.frames.root i := by
  unfold Frames.root
  rw [h.path_eq hi]

/-- A name is bound in the same frame along the way. -/
theorem resolve?_eq (h : Shared A s s') (hi : A (.frame i)) (name : String) :
    s'.frames.resolve? i name = s.frames.resolve? i name := by
  unfold Frames.resolve?
  rw [h.path_eq hi, ← List.head?_filter, ← List.head?_filter,
    List.filter_congr fun j hj ↦ by rw [h.vars_eq (h.path hi j hj)]]

/-- The frame where a name is bound is in the part. -/
theorem of_resolve? (h : Shared A s s') (hi : A (.frame i)) {j : FrameId}
    (hj : s.frames.resolve? i name = some j) : A (.frame j) :=
  h.path hi j (Frames.resolve?_eq_some hj).1

/-- A name means the same in both stores, as seen from a frame of the part. -/
theorem get?_eq (h : Shared A s s') (hi : A (.frame i)) (name : String) :
    s'.frames.get? i name = s.frames.get? i name := by
  rw [Frames.get?_eq_bind, Frames.get?_eq_bind, h.resolve?_eq hi]
  cases hj : s.frames.resolve? i name with
  | none => rfl
  | some j =>
    show (s'.frames.vars j).get? name = (s.frames.vars j).get? name
    rw [h.vars_eq (h.of_resolve? hi hj)]

/-- What a name stands for refers into the part. -/
theorem refersInto_get? (h : Shared A s s') (hi : A (.frame i))
    (hv : s.frames.get? i name = some v) : v.RefersInto A := by
  obtain ⟨j, hj, hvj⟩ := Frames.get?_eq_some hv
  exact h.bound (h.of_resolve? hi hj) (Bindings.mem_of_get? hvj)

/-! ### Reading objects -/

section Objects

variable {id : Nat}

/-- A zone of the part is the same in both stores. -/
theorem zone_eq (h : Shared A s s') (hid : A (.object (.zone id))) : s'.zone id = s.zone id := by
  have hsame : s.zones[id]? = s'.zones[id]? := h.same _ hid
  unfold Store.zone
  rw [Array.getD_eq_getD_getElem?, Array.getD_eq_getD_getElem?, hsame]

theorem team_eq (h : Shared A s s') (hid : A (.object (.team id))) : s'.team id = s.team id := by
  have hsame : s.teams[id]? = s'.teams[id]? := h.same _ hid
  unfold Store.team
  rw [Array.getD_eq_getD_getElem?, Array.getD_eq_getD_getElem?, hsame]

/-- A Pokémon of the part is the same in both stores. -/
theorem pokemonAt_eq (h : Shared A s s') (hid : A (.object (.pokemon id))) :
    s'.pokemonAt id = s.pokemonAt id := by
  have hsame : s.pokemon[id]? = s'.pokemon[id]? := h.same _ hid
  unfold Store.pokemonAt
  rw [Array.getD_eq_getD_getElem?, Array.getD_eq_getD_getElem?, hsame]

/-- The Pokémon in a zone of the part are in the part. -/
theorem wild (h : Shared A s s') (hid : A (.object (.zone id))) :
    ∀ r ∈ pokemonRefs (s.zone id).wild, A r := h.closed _ hid

/-- The members of a team of the part are in the part. -/
theorem roster (h : Shared A s s') (hid : A (.object (.team id))) :
    ∀ r ∈ pokemonRefs (s.team id).roster, A r := h.closed _ hid

/-- The text of an object is made of what it refers to. -/
theorem objectText_eq (h : Shared A s s') {o : Object} (ho : A (.object o)) :
    s'.objectText o = s.objectText o := by
  cases o with
  | zone id => rw [objectText, objectText, h.zone_eq ho]
  | team id => rw [objectText, objectText, h.team_eq ho]
  | pokemon id => rw [objectText, objectText, h.pokemonAt_eq ho]

/-- The text of a value is made of what it refers to. -/
theorem text_eq (h : Shared A s s') (hv : v.RefersInto A) : s'.text v = s.text v :=
  Value.text_congr v fun _ ho ↦ h.objectText_eq (hv _ ho)

end Objects

end Store.Shared

/-! ### Arrays that share a part -/

/-- The two arrays share the elements at the numbers in `B`: these are the same and satisfy `Q`. The
arrays have equally many elements, and all further numbers are in `B`. -/
structure ArraysShare {α : Type} (B : Nat → Prop) (Q : α → Prop) (xs xs' : Array α) : Prop where
  size : xs.size = xs'.size
  same : ∀ k, B k → xs[k]? = xs'[k]?
  each : ∀ k a, B k → xs[k]? = some a → Q a
  unused : ∀ k, xs.size ≤ k → B k

namespace ArraysShare

variable {α : Type} {B : Nat → Prop} {Q : α → Prop} {xs xs' : Array α} {a : α}

/-- An element is added to both arrays. -/
theorem push (h : ArraysShare B Q xs xs') (ha : Q a) :
    ArraysShare B Q (xs.push a) (xs'.push a) where
  size := by rw [Array.size_push, Array.size_push, h.size]
  same k hk := by rw [Array.getElem?_push, Array.getElem?_push, h.same k hk, h.size]
  each k x hk hx := by
    rw [Array.getElem?_push] at hx
    split at hx
    · cases hx
      exact ha
    · exact h.each k x hk hx
  unused k hk := by
    rw [Array.size_push] at hk
    exact h.unused k (Nat.le_of_succ_le hk)

/-- An element is changed in both arrays, inside the part or not. -/
theorem modify (h : ArraysShare B Q xs xs') (i : Nat) (f : α → α) (hf : ∀ x, Q x → Q (f x)) :
    ArraysShare B Q (xs.modify i f) (xs'.modify i f) where
  size := by rw [Array.size_modify, Array.size_modify, h.size]
  same k hk := by rw [Array.getElem?_modify, Array.getElem?_modify, h.same k hk]
  each k x hk hx := by
    rw [Array.getElem?_modify] at hx
    split at hx
    · obtain ⟨y, hy, rfl⟩ := Option.map_eq_some_iff.1 hx
      exact hf y (h.each k y hk hy)
    · exact h.each k x hk hx
  unused k hk := by
    rw [Array.size_modify] at hk
    exact h.unused k hk

/-- An element is replaced in both arrays, inside the part or not. -/
theorem setIfInBounds (h : ArraysShare B Q xs xs') (i : Nat) (ha : Q a) :
    ArraysShare B Q (xs.setIfInBounds i a) (xs'.setIfInBounds i a) where
  size := by rw [Array.size_setIfInBounds, Array.size_setIfInBounds, h.size]
  same k hk := by
    rw [Array.getElem?_setIfInBounds, Array.getElem?_setIfInBounds, h.same k hk, h.size]
  each k x hk hx := by
    rw [Array.getElem?_setIfInBounds] at hx
    split at hx
    · split at hx
      · cases hx
        exact ha
      · cases hx
    · exact h.each k x hk hx
  unused k hk := by
    rw [Array.size_setIfInBounds] at hk
    exact h.unused k hk

theorem getD (h : ArraysShare B Q xs xs') {k : Nat} (hk : B k) {d : α} (hd : Q d) :
    Q (xs.getD k d) := by
  rw [Array.getD_eq_getD_getElem?]
  cases hx : xs[k]? with
  | none => exact hd
  | some x => exact h.each k x hk hx

end ArraysShare

/-- The frame around the frame and the values bound in it are in the part. -/
def Frame.RefersInto (A : Ref → Prop) (f : Frame) : Prop :=
  (∀ p, f.parent = some p → A (.frame p)) ∧ ∀ v ∈ f.vars.map Prod.snd, v.RefersInto A

/-- The two stores share the part `A` in each of their arrays. -/
structure Store.SharedArrays (A : Ref → Prop) (s s' : Store) : Prop where
  frames : ArraysShare (fun i ↦ A (.frame i)) (Frame.RefersInto A) s.frames.toArray
    s'.frames.toArray
  zones : ArraysShare (fun id ↦ A (.object (.zone id)))
    (fun z ↦ ∀ r ∈ pokemonRefs z.wild, A r) s.zones s'.zones
  teams : ArraysShare (fun id ↦ A (.object (.team id)))
    (fun t ↦ ∀ r ∈ pokemonRefs t.roster, A r) s.teams s'.teams
  pokemon : ArraysShare (fun id ↦ A (.object (.pokemon id))) (fun _ ↦ True) s.pokemon s'.pokemon
  fresh : s.fresh = s'.fresh

/-- To share a part is to share it in each array. -/
theorem Store.Shared.arrays {A : Ref → Prop} {s s' : Store} (h : Shared A s s') :
    SharedArrays A s s' where
  frames :=
    { size := h.shape.frames
      same := fun k hk ↦ h.same (.frame k) hk
      each := fun k f hk hf ↦ by
        have hframe : s.frames.frame? k = some f := hf
        refine ⟨fun p hp ↦ h.parent hk ?_, fun v hv ↦ h.bound hk ?_⟩
        · rw [Frames.parent?, hframe]
          exact hp
        · rw [Frames.vars, hframe]
          exact hv
      unused := fun k hk ↦ h.unused (.frame k) (Nat.not_lt.2 hk) }
  zones :=
    { size := h.shape.zones
      same := fun k hk ↦ h.same (.object (.zone k)) hk
      each := fun k z hk hz ↦ by
        have hzone : s.zone k = z := by rw [zone, Array.getD_eq_getD_getElem?, hz, Option.getD_some]
        exact hzone ▸ h.wild hk
      unused := fun k hk ↦ h.unused (.object (.zone k)) (Nat.not_lt.2 hk) }
  teams :=
    { size := h.shape.teams
      same := fun k hk ↦ h.same (.object (.team k)) hk
      each := fun k t hk ht ↦ by
        have hteam : s.team k = t := by rw [team, Array.getD_eq_getD_getElem?, ht, Option.getD_some]
        exact hteam ▸ h.roster hk
      unused := fun k hk ↦ h.unused (.object (.team k)) (Nat.not_lt.2 hk) }
  pokemon :=
    { size := h.shape.pokemon
      same := fun k hk ↦ h.same (.object (.pokemon k)) hk
      each := fun _ _ _ _ ↦ trivial
      unused := fun k hk ↦ h.unused (.object (.pokemon k)) (Nat.not_lt.2 hk) }
  fresh := h.shape.fresh

/-- To share a part in each array is to share it. -/
theorem Store.SharedArrays.shared {A : Ref → Prop} {s s' : Store} (h : SharedArrays A s s') :
    Shared A s s' where
  shape := ⟨h.frames.size, h.zones.size, h.teams.size, h.pokemon.size, h.fresh⟩
  same r hr := by
    cases r with
    | frame i => exact h.frames.same i hr
    | object o =>
      cases o with
      | zone id => exact h.zones.same id hr
      | team id => exact h.teams.same id hr
      | pokemon id => exact h.pokemon.same id hr
  closed r hr r' hr' := by
    cases r with
    | frame i =>
      cases hf : s.frames.frame? i with
      -- A frame that does not exist leads nowhere.
      | none => simp [targets, Frames.parent?, Frames.vars, hf, Value.refsAll] at hr'
      | some f =>
        obtain ⟨hparent, hbound⟩ := h.frames.each i f hr hf
        rw [targets, Frames.parent?, Frames.vars, hf] at hr'
        rcases List.mem_append.1 hr' with hp | hv
        · obtain ⟨p, hmem, rfl⟩ := List.mem_map.1 hp
          exact hparent p (Option.mem_toList.1 hmem)
        · obtain ⟨v, hmem, hrefs⟩ := Value.mem_refsAll.1 hv
          exact hbound v hmem r' hrefs
    | object o =>
      cases o with
      | zone id => exact h.zones.getD hr (fun _ hmem ↦ by cases hmem) r' hr'
      | team id => exact h.teams.getD hr (fun _ hmem ↦ by cases hmem) r' hr'
      | pokemon id => cases hr'
  unused r hr := by
    cases r with
    | frame i => exact h.frames.unused i (Nat.not_lt.1 hr)
    | object o =>
      cases o with
      | zone id => exact h.zones.unused id (Nat.not_lt.1 hr)
      | team id => exact h.teams.unused id (Nat.not_lt.1 hr)
      | pokemon id => exact h.pokemon.unused id (Nat.not_lt.1 hr)

namespace Store.Shared

variable {A : Ref → Prop} {s s' : Store} {i : FrameId} {v : Value}

/-! ### Changing frames -/

/-- A binding to a value that refers into the part. -/
theorem define (h : Shared A s s') (hv : v.RefersInto A) (i : FrameId) (name : String) :
    Shared A (s.define i name v) (s'.define i name v) := by
  have hframe : ∀ f : Frame, f.RefersInto A →
      Frame.RefersInto A { f with vars := f.vars.insert name v } := by
    intro f hf
    refine ⟨hf.1, fun u hu ↦ ?_⟩
    rcases Bindings.mem_of_mem_insert hu with rfl | hold
    · exact hv
    · exact hf.2 u hold
  exact SharedArrays.shared { h.arrays with frames := h.arrays.frames.modify i _ hframe }

/-- Bindings one after the other. -/
theorem defineAll (h : Shared A s s') {bindings : List (String × Value)}
    (hb : ∀ b ∈ bindings, b.2.RefersInto A) (i : FrameId) :
    Shared A (s.defineAll i bindings) (s'.defineAll i bindings) := by
  induction bindings generalizing s s' with
  | nil => exact h
  | cons b bindings ih =>
    obtain ⟨hv, hrest⟩ := List.forall_mem_cons.1 hb
    exact ih (h.define hv i b.1) hrest

/-- An assignment, as seen from a frame of the part: both stores change the same binding, or both
make one in the same frame. -/
theorem assign (h : Shared A s s') (hi : A (.frame i)) (hv : v.RefersInto A) (name : String) :
    (s.assign i name v).1 = (s'.assign i name v).1 ∧
      Shared A (s.assign i name v).2 (s'.assign i name v).2 := by
  unfold Store.assign Frames.set
  rw [h.resolve?_eq hi, h.root_eq hi]
  cases s.frames.resolve? i name with
  | some j => exact ⟨rfl, h.define hv j name⟩
  | none => exact ⟨rfl, h.define hv _ name⟩

/-- A new frame inside a frame of the part: it has the same number in both stores. -/
theorem newFrame (h : Shared A s s') (hi : A (.frame i)) :
    (s.newFrame i).1 = (s'.newFrame i).1 ∧ A (.frame (s.newFrame i).1) ∧
      Shared A (s.newFrame i).2 (s'.newFrame i).2 := by
  have hnew : A (.frame s.frames.size) := h.unused _ (Nat.lt_irrefl _)
  have hfst : ∀ t : Store, (t.newFrame i).1 = t.frames.size := fun t ↦ Frames.pushChild_fst ..
  have hinto : Frame.RefersInto A ⟨if i < s.frames.size then some i else none, []⟩ := by
    refine ⟨fun p hp ↦ ?_, nofun⟩
    dsimp only at hp
    split at hp
    · cases hp
      exact hi
    · cases hp
  have hpush : ArraysShare (fun i ↦ A (.frame i)) (Frame.RefersInto A)
      (s.frames.pushChild i).2.toArray (s'.frames.pushChild i).2.toArray := by
    rw [Frames.toArray_pushChild, Frames.toArray_pushChild, ← h.shape.frames]
    exact h.arrays.frames.push hinto
  refine ⟨?_, ?_, SharedArrays.shared { h.arrays with frames := hpush }⟩
  · rw [hfst, hfst, h.shape.frames]
  · rwa [hfst]

/-! ### Changing objects -/

/-- A zone is replaced by one with Pokémon of the part. -/
theorem setZone (h : Shared A s s') {z : Zone} (hz : ∀ r ∈ pokemonRefs z.wild, A r) (id : Nat) :
    Shared A { s with zones := s.zones.setIfInBounds id z }
      { s' with zones := s'.zones.setIfInBounds id z } :=
  SharedArrays.shared { h.arrays with zones := h.arrays.zones.setIfInBounds id hz }

/-- A team is replaced by one with members of the part. -/
theorem setTeam (h : Shared A s s') {t : Team} (ht : ∀ r ∈ pokemonRefs t.roster, A r) (id : Nat) :
    Shared A { s with teams := s.teams.setIfInBounds id t }
      { s' with teams := s'.teams.setIfInBounds id t } :=
  SharedArrays.shared { h.arrays with teams := h.arrays.teams.setIfInBounds id ht }

theorem setPokemon (h : Shared A s s') (p : Pokemon) (id : PokemonId) :
    Shared A { s with pokemon := s.pokemon.setIfInBounds id p }
      { s' with pokemon := s'.pokemon.setIfInBounds id p } :=
  SharedArrays.shared { h.arrays with pokemon := h.arrays.pokemon.setIfInBounds id trivial }

/-- A new zone has no Pokémon. -/
theorem newZone (h : Shared A s s') {z : Zone} (hz : z.wild = []) :
    Shared A (s.newZone z).2 (s'.newZone z).2 := by
  have hwild : ∀ r ∈ pokemonRefs z.wild, A r := by
    rw [hz]
    exact nofun
  exact SharedArrays.shared { h.arrays with zones := h.arrays.zones.push hwild }

theorem newTeam (h : Shared A s s') : Shared A (s.newTeam .new).2 (s'.newTeam .new).2 :=
  SharedArrays.shared { h.arrays with teams := h.arrays.teams.push fun _ hr ↦ by cases hr }

theorem newPokemon (h : Shared A s s') (p : Pokemon) :
    Shared A (s.newPokemon p).2 (s'.newPokemon p).2 :=
  SharedArrays.shared { h.arrays with pokemon := h.arrays.pokemon.push trivial }

/-- The next number is the same. -/
theorem counted (h : Shared A s s') :
    Shared A { s with fresh := s.fresh + 1 } { s' with fresh := s'.fresh + 1 } where
  shape := { h.shape with fresh := congrArg (· + 1) h.shape.fresh }
  same := h.same
  closed := h.closed
  unused := h.unused

/-- A new list is the same value in both stores. -/
theorem newList (h : Shared A s s') (items : List Value) :
    (s'.newList items).1 = (s.newList items).1 ∧
      Shared A (s.newList items).2 (s'.newList items).2 := by
  refine ⟨?_, h.counted⟩
  show Value.list s'.fresh items = Value.list s.fresh items
  rw [h.shape.fresh]

/-- A new function is the same value in both stores. -/
theorem newFunction (h : Shared A s s') (name : String) (params : List String) (body : List Stmt)
    (closure : FrameId) :
    (s'.newFunction name params body closure).1 = (s.newFunction name params body closure).1 ∧
      Shared A (s.newFunction name params body closure).2
        (s'.newFunction name params body closure).2 := by
  refine ⟨?_, h.counted⟩
  show Value.function ⟨s'.fresh, name, params, body, closure⟩ = _
  rw [← h.shape.fresh]
  rfl

end Store.Shared

/-! ### Operations on objects -/

/-- A zone is made without Pokémon. -/
theorem wild_describedZone {args : List Value} {z : Zone} (h : Store.describedZone args = .ok z) :
    z.wild = [] := by
  unfold Store.describedZone at h
  split at h
  · obtain ⟨balls, -, h⟩ := Except.of_bind_eq_ok h
    obtain ⟨turns, -, h⟩ := Except.of_bind_eq_ok h
    cases h
    rfl
  · cases h

/-- The same outcome in both stores, with values that refer into the part they share. -/
inductive Store.SameResult {α : Type} (A : Ref → Prop) (c : α → List Value) :
    EStateM.Result Fault Store α → EStateM.Result Fault Store α → Prop
  | ok {a : α} {s s' : Store} : (∀ v ∈ c a, v.RefersInto A) → Shared A s s' →
    SameResult A c (.ok a s) (.ok a s')
  | error {fault : Fault} {s s' : Store} : Shared A s s' →
    SameResult A c (.error fault s) (.error fault s')

namespace Store.SameResult

variable {α β : Type} {A : Ref → Prop} {s s' : Store}

/-- The same value, which refers into the part. -/
theorem value {v : Value} (hv : v.RefersInto A) (h : Shared A s s') :
    SameResult A (fun v ↦ [v]) (.ok v s) (.ok v s') :=
  .ok (fun _ hu ↦ List.mem_singleton.1 hu ▸ hv) h

/-- A check in front of a computation. -/
theorem check_bind {x : Except Fault α} {f f' : α → StoreM β} {c : β → List Value}
    (h : Shared A s s') (hf : ∀ a, x = .ok a → SameResult A c (f a s) (f' a s')) :
    SameResult A c ((Steps.check x >>= f) s) ((Steps.check x >>= f') s') := by
  cases x with
  | ok a => exact hf a rfl
  | error fault => exact .error h

/-- A list of values that refer into the part. -/
theorem newList (h : Shared A s s') {items : List Value} (hitems : ∀ r ∈ Value.refsAll items, A r) :
    SameResult A (fun v ↦ [v]) ((modifyGet (Store.newList items) : StoreM Value) s)
      ((modifyGet (Store.newList items) : StoreM Value) s') := by
  obtain ⟨hlist, hshared⟩ := h.newList items
  show SameResult A _ (.ok (s.newList items).1 (s.newList items).2)
    (.ok (s'.newList items).1 (s'.newList items).2)
  rw [hlist]
  exact .value hitems hshared

/-- A reply that refers into the part. -/
theorem ofReply {reply : Reply} (h : Shared A s s') (hr : ∀ r ∈ reply.refs, A r) :
    SameResult A (fun v ↦ [v]) (ofReply reply s) (ofReply reply s') := by
  cases reply with
  | value v => exact .value hr h
  | roster members =>
    refine newList h fun r hmem ↦ hr r ?_
    rwa [Value.refsAll_pokemon] at hmem

/-- The contents of an object of the part are the same. -/
theorem contents_eq (h : Shared A s s') {o : Object} (ho : A (.object o)) :
    s'.contents o = s.contents o := by
  cases o with
  | zone id => exact h.zone_eq ho
  | team id => exact h.team_eq ho
  | pokemon id => exact h.pokemonAt_eq ho

/-- To read a property of an object of the part. -/
theorem getProperty (h : Shared A s s') {o : Object} (ho : A (.object o)) (name : String) :
    SameResult A (fun v ↦ [v]) (getProperty o name s) (getProperty o name s') := by
  rw [getProperty_eq, getProperty_eq, contents_eq h ho]
  refine check_bind h fun reply hreply ↦ ofReply h fun r hr ↦ ?_
  cases o with
  | zone id => exact h.wild ho r (refs_zone_get hreply hr)
  | team id => exact h.roster ho r (refs_team_get hreply hr)
  | pokemon id =>
    obtain ⟨v, hv, rfl⟩ := Except.of_map_eq_ok hreply
    replace hr : r ∈ v.refs := hr
    rw [refs_pokemon_get hv] at hr
    cases hr

/-- To write a property of an object of the part. -/
theorem setProperty (h : Shared A s s') {o : Object} (ho : A (.object o)) (name : String)
    (v : Value) :
    SameResult A (fun _ ↦ []) (setProperty o name v s) (setProperty o name v s') := by
  rw [setProperty_eq, setProperty_eq, contents_eq h ho]
  refine check_bind h fun x hx ↦ .ok nofun ?_
  cases o with
  | zone id =>
    refine h.setZone ?_ id
    rw [wild_zone_withProperty hx]
    exact h.wild ho
  | team id => exact absurd hx (not_team_withProperty (t := s.team id) (v := v))
  | pokemon id => exact h.setPokemon x id

/-- To call a method of an object of the part, with arguments that refer into it. -/
theorem callMethod (h : Shared A s s') {o : Object} (ho : A (.object o)) (name : String)
    {args : List Value} (hargs : ∀ v ∈ args, v.RefersInto A) (named : List (String × Value)) :
    SameResult A (fun v ↦ [v]) (callMethod o name args named s)
      (callMethod o name args named s') := by
  have hall : ∀ r ∈ Value.refsAll args, A r := by
    intro r hr
    obtain ⟨v, hv, hmem⟩ := Value.mem_refsAll.1 hr
    exact hargs v hv r hmem
  -- Only a team looks at other objects, and its members belong to the part.
  have hcall : (s.contents o).call s'.pokemonAt name args named =
      (s.contents o).call s.pokemonAt name args named := by
    cases o with
    | zone id | pokemon id => rfl
    | team id =>
      exact team_answer_congr (fun k hk ↦ h.pokemonAt_eq (h.roster ho _ (List.mem_map_of_mem hk)))
        name args named
  rw [callMethod_eq, callMethod_eq, contents_eq h ho, hcall]
  refine check_bind h fun answer hanswer ↦ ?_
  cases o with
  | zone id =>
    obtain ⟨hreply, hwild⟩ := refs_zone_answer hanswer
    refine ofReply (h.setZone (fun r hr ↦ ?_) id) fun r hr ↦ ?_
    · exact (List.mem_append.1 (hwild hr)).elim (h.wild ho r) (hall r)
    · rw [hreply] at hr
      cases hr
  | team id =>
    obtain ⟨hreply, hroster⟩ := refs_team_answer hanswer
    refine ofReply (h.setTeam (fun r hr ↦ ?_) id) fun r hr ↦ h.roster ho r (hreply hr)
    exact (List.mem_append.1 (hroster hr)).elim (h.roster ho r) (hall r)
  | pokemon id =>
    obtain ⟨v, hv, hreply⟩ := Except.of_map_eq_ok hanswer
    cases hreply
    show SameResult A _ (.ok v (s.put (.pokemon id) (s.pokemonAt id)))
      (.ok v (s'.put (.pokemon id) (s.pokemonAt id)))
    refine .value (.of_refs_eq_nil (refs_pokemon_answer hv)) (h.setPokemon (s.pokemonAt id) id)

/-- To call a native function, which looks at no object. -/
theorem callNative (h : Shared A s s') (n : Native) (args : List Value) :
    SameResult A (fun v ↦ [v]) (callNative n args s) (callNative n args s') := by
  -- a new object has the same number in both stores, and was not there before
  have hnew : ∀ o, ¬ s.Has (.object o) → (Value.object o).RefersInto A := fun o ho r hr ↦
    List.mem_singleton.1 hr ▸ h.unused _ ho
  cases n with
  | safariZone =>
    rw [callNative_safariZone]
    refine check_bind h fun z hz ↦ ?_
    show SameResult A _ (.ok (Value.object (.zone s.zones.size)) (s.newZone z).2)
      (.ok (Value.object (.zone s'.zones.size)) (s'.newZone z).2)
    rw [← h.shape.zones]
    exact .value (hnew _ (Nat.lt_irrefl _)) (h.newZone (wild_describedZone hz))
  | team =>
    refine check_bind h fun _ _ ↦ ?_
    show SameResult A _ (.ok (Value.object (.team s.teams.size)) (s.newTeam .new).2)
      (.ok (Value.object (.team s'.teams.size)) (s'.newTeam .new).2)
    rw [← h.shape.teams]
    exact .value (hnew _ (Nat.lt_irrefl _)) h.newTeam
  | pokemon =>
    rw [callNative_pokemon]
    refine check_bind h fun p _ ↦ ?_
    show SameResult A _ (.ok (Value.object (.pokemon s.pokemon.size)) (s.newPokemon p).2)
      (.ok (Value.object (.pokemon s'.pokemon.size)) (s'.newPokemon p).2)
    rw [← h.shape.pokemon]
    exact .value (hnew _ (Nat.lt_irrefl _)) (h.newPokemon p)
  | len => exact check_bind h fun k _ ↦ .value nofun h

end Store.SameResult

/-- A throw in a zone of the part at a Pokémon of the part. -/
theorem Store.Shared.throwBall {A : Ref → Prop} {s s' : Store} (h : Shared A s s') {zone : Nat}
    {target : PokemonId} (hzone : A (.object (.zone zone)))
    (htarget : A (.object (.pokemon target))) :
    (s'.throwBall zone target).1 = (s.throwBall zone target).1 ∧
      Shared A (s.throwBall zone target).2 (s'.throwBall zone target).2 := by
  unfold Store.throwBall
  rw [h.zone_eq hzone, h.pokemonAt_eq htarget]
  refine ⟨rfl, (h.setZone (fun r hr ↦ ?_) zone).setPokemon _ target⟩
  have hwild := wild_zone_throwBall (s.zone zone) target (s.pokemonAt target)
  exact h.wild hzone r (List.map_subset _ hwild hr)

/-! ### What is shared at first -/

section Unused

variable {s s' : Store}

theorem Store.frame?_of_not_has {i : FrameId} (h : ¬ s.Has (.frame i)) :
    s.frames.frame? i = none :=
  Array.getElem?_eq_none (Nat.not_lt.1 h)

/-- What is not there refers to nothing. -/
theorem Store.targets_of_not_has {r : Ref} (h : ¬ s.Has r) : s.targets r = [] := by
  match r with
  | .frame i =>
    have hnone := frame?_of_not_has h
    simp [targets, Frames.parent?, Frames.vars, hnone, Value.refsAll]
  | .object (.zone id) =>
    have hnone : s.zones[id]? = none := Array.getElem?_eq_none (Nat.not_lt.1 h)
    rw [targets, zone, Array.getD_eq_getD_getElem?, hnone]
    rfl
  | .object (.team id) =>
    have hnone : s.teams[id]? = none := Array.getElem?_eq_none (Nat.not_lt.1 h)
    rw [targets, team, Array.getD_eq_getD_getElem?, hnone]
    rfl
  | .object (.pokemon id) => rfl

/-- What is not there is the same in stores of the same shape. -/
theorem Store.SameShape.sameAt_of_not_has (hshape : s.SameShape s') {r : Ref} (h : ¬ s.Has r) :
    s.SameAt s' r := by
  match r with
  | .frame i =>
    have h' : ¬ s'.Has (.frame i) := fun hi ↦ h (Nat.lt_of_lt_of_eq hi hshape.frames.symm)
    exact (frame?_of_not_has h).trans (frame?_of_not_has h').symm
  | .object (.zone id) =>
    have hle : s.zones.size ≤ id := Nat.not_lt.1 h
    exact (Array.getElem?_eq_none hle).trans (Array.getElem?_eq_none (hshape.zones ▸ hle)).symm
  | .object (.team id) =>
    have hle : s.teams.size ≤ id := Nat.not_lt.1 h
    exact (Array.getElem?_eq_none hle).trans (Array.getElem?_eq_none (hshape.teams ▸ hle)).symm
  | .object (.pokemon id) =>
    have hle : s.pokemon.size ≤ id := Nat.not_lt.1 h
    exact (Array.getElem?_eq_none hle).trans (Array.getElem?_eq_none (hshape.pokemon ▸ hle)).symm

/-- Two stores of the same shape that hold the same at all that can be got at from some references
share it, together with all that is not yet there. -/
theorem Store.SameShape.shared (hshape : s.SameShape s') {roots : List Ref}
    (hsame : ∀ r, s.Reaches roots r → s.SameAt s' r) :
    Shared (fun r ↦ s.Reaches roots r ∨ ¬ s.Has r) s s' where
  shape := hshape
  same r hr := hr.elim (hsame r) hshape.sameAt_of_not_has
  closed r hr r' hr' := by
    rcases hr with hreach | hunused
    · exact .inl (.next hreach hr')
    · rw [targets_of_not_has hunused] at hr'
      cases hr'
  unused _ hr := .inr hr

/-- What can be got at from references of the part is in the part. -/
theorem Store.Shared.reaches {A : Ref → Prop} (h : Shared A s s') {roots : List Ref}
    (hroots : ∀ r ∈ roots, A r) {r : Ref} (hr : s.Reaches roots r) : A r := by
  induction hr with
  | root hmem => exact hroots _ hmem
  | next _ hnext ih => exact h.closed _ ih _ hnext

end Unused

end SafariScript
