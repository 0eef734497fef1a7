import Mathlib.Data.Fin.Tuple.Sort
import SafariScript.Proofs.Store.Frames

/-!
# One name seen from several frames

Frames share the frames around them, so a change made from one frame may be seen from another.
Everything comes down to **who reaches the frame that changes** before any other binding of the name
(`Reaches`): those frames see the new value, and all others what they saw before
(`get?_define_of_reaches`, `get?_define_of_not_reaches`).

* `define` changes the frame that it is given;
* `set` and `assign?` change the frame `target`. A frame reaches it exactly if it is an alias of the
  frame that the change is made from (`reaches_target_iff`): both resolve the name to one frame, or
  neither resolves it and they have the same outermost frame.

Frames are numbered by age, and this leaves out nothing: whatever frames stand in one another
without a cycle can be numbered so (`Links.numbered_byAge`).
-/

namespace SafariScript

namespace Frames

/-! ### Reaching a frame -/

/-- Outward from the frame `i` the frame `j` is reached, and no frame before it binds the name. -/
inductive Reaches (fs : Frames) (name : String) : FrameId → FrameId → Prop
  | here {i : FrameId} : Reaches fs name i i
  | outward {i p j : FrameId} : ¬ fs.Binds i name → fs.parent? i = some p →
    Reaches fs name p j → Reaches fs name i j

/-- As far as the name goes, the frames `i` and `j` are aliases: they resolve it to the same frame,
or neither of them resolves it and they have the same outermost frame. -/
def Aliases (fs : Frames) (name : String) (i j : FrameId) : Prop :=
  (∃ k, fs.Search name i (some k) ∧ fs.Search name j (some k)) ∨
    (fs.Search name i none ∧ fs.Search name j none ∧ ∃ r, fs.Outermost i r ∧ fs.Outermost j r)

section Reach

variable {fs : Frames} {name : String} {i j r : FrameId}

/-- A search that comes by a frame ends where a search from there ends. -/
theorem Reaches.search {found : Option FrameId} (h : fs.Reaches name i j)
    (hj : fs.Search name j found) : fs.Search name i found := by
  induction h with
  | here => exact hj
  | outward hi hp _ ih => exact .outward hi hp (ih hj)

/-- A frame that is reached and stands inside none is the outermost one. -/
theorem Reaches.outermost (h : fs.Reaches name i r) (hr : fs.parent? r = none) :
    fs.Outermost i r := by
  induction h with
  | here => exact .here hr
  | outward _ hp _ ih => exact .outward hp (ih hr)

/-- A search that ends at a frame has reached it. -/
theorem Search.reaches (h : fs.Search name i (some j)) : fs.Reaches name i j := by
  generalize hfound : some j = found at h
  induction h with
  | found =>
    cases hfound
    exact .here
  | missing => cases hfound
  | outward hi hp _ ih => exact .outward hi hp (ih hfound)

/-- A search without success comes by the outermost frame. -/
theorem Outermost.reaches (h : fs.Outermost i r) (hmissing : fs.Search name i none) :
    fs.Reaches name i r := by
  induction h with
  | here => exact .here
  | outward hp _ ih =>
    cases hmissing with
    | missing _ hnone =>
      rw [hp] at hnone
      cases hnone
    | outward hi hp' hrest =>
      rw [hp] at hp'
      cases hp'
      exact .outward hi hp (ih hrest)

end Reach

/-! ### Reading after a binding -/

section Define

variable {fs : Frames} {i j : FrameId} {name name' : String} (v : Value)

/-- A name has the value that the frame itself gives it, or else the one in the frame around. -/
theorem get?_eq_or (fs : Frames) (i : FrameId) (name : String) :
    fs.get? i name =
      ((fs.vars i).get? name).or ((fs.parent? i).bind fun p ↦ fs.get? p name) := by
  unfold get?
  rw [path_eq, List.findSome?_cons]
  cases (fs.vars i).get? name with
  | some v => rfl
  | none => cases fs.parent? i <;> rfl

/-- A definition changes nothing for other names. -/
theorem get?_define_of_ne (h : name' ≠ name) :
    (fs.define i name v).get? j name' = fs.get? j name' := by
  have hpath : (fs.define i name v).path j = fs.path j := path_congr fun k _ ↦ by simp
  simp only [get?, hpath, get?_vars_define, h, and_false, if_false]

/-- **The new value is seen from where the frame is reached.** -/
theorem get?_define_of_reaches (hi : i < fs.size) (h : fs.Reaches name j i) :
    (fs.define i name v).get? j name = some v := by
  induction h with
  | here => rw [get?_eq_or, get?_vars_define, if_pos ⟨rfl, hi, rfl⟩, Option.some_or]
  | @outward k p _ hk hp _ ih =>
    have hnone : (fs.vars k).get? name = none := by simpa [Binds] using hk
    rw [get?_eq_or, get?_vars_define, parent?_define, hp, hnone, Option.bind_some, ih hi]
    split <;> rfl

/-- **From everywhere else the old value is seen.** -/
theorem get?_define_of_not_reaches (h : ¬ fs.Reaches name j i) :
    (fs.define i name v).get? j name = fs.get? j name := by
  -- along the walk outward from `j`, which goes to older frames
  induction j using Nat.strongRecOn with
  | ind j ih =>
    have hij : i ≠ j := by
      rintro rfl
      exact h .here
    rw [get?_eq_or, get?_vars_define, if_neg fun hj ↦ hij hj.1, parent?_define, get?_eq_or fs j]
    cases hj : (fs.vars j).get? name with
    | some w => rfl
    | none =>
      cases hp : fs.parent? j with
      | none => rfl
      | some p =>
        have hbinds : ¬ fs.Binds j name := by simp [Binds, hj]
        exact ih p (lt_of_parent? hp) fun hreach ↦ h (.outward hbinds hp hreach)

end Define

/-! ### The frame that an assignment changes -/

section Target

variable {fs : Frames} {i j : FrameId} {name : String} {v : Value}

/-- The frame that binds the name as seen from `i`, or else the outermost one. -/
def target (fs : Frames) (i : FrameId) (name : String) : FrameId :=
  (fs.resolve? i name).getD (fs.root i)

/-- `set` defines the name in its target, and tells whether it was bound nowhere. -/
theorem set_eq (fs : Frames) (i : FrameId) (name : String) (v : Value) :
    fs.set i name v = ((fs.resolve? i name).isNone, fs.define (fs.target i name) name v) := by
  unfold set target
  cases fs.resolve? i name <;> rfl

/-- `assign?` defines the name in its target, unless it is bound nowhere. -/
theorem assign?_eq (fs : Frames) (i : FrameId) (name : String) (v : Value) :
    fs.assign? i name v =
      if (fs.resolve? i name).isNone then none else some (fs.define (fs.target i name) name v) := by
  unfold assign? target
  cases fs.resolve? i name <;> rfl

/-- The target is one of the frames. -/
theorem target_lt_size (hi : i < fs.size) : fs.target i name < fs.size := by
  have hmem : fs.target i name ∈ fs.path i := by
    unfold target
    cases hj : fs.resolve? i name with
    | none => exact root_mem_path fs i
    | some j => exact (resolve?_eq_some hj).1
  exact Nat.lt_of_le_of_lt (le_of_mem_path hmem) hi

/-- A name has no value exactly if it is bound nowhere along the path. -/
theorem get?_eq_none_iff : fs.get? i name = none ↔ fs.resolve? i name = none := by
  rw [get?_eq_bind]
  cases hj : fs.resolve? i name with
  | none => simp
  | some j =>
    have hbinds := (resolve?_eq_some hj).2
    simpa [Binds, Option.isSome_iff_ne_none] using hbinds

/-- **The aliases of a frame are those that reach its target.** -/
theorem reaches_target_iff : fs.Reaches name j (fs.target i name) ↔ fs.Aliases name i j := by
  have hsearch : fs.Search name i (fs.resolve? i name) := search_iff.2 rfl
  unfold target
  cases hk : fs.resolve? i name with
  | some k =>
    rw [hk] at hsearch
    have hbinds := (resolve?_eq_some hk).2
    constructor
    · intro hreach
      exact .inl ⟨k, hsearch, hreach.search (.found hbinds)⟩
    · rintro (⟨k', hi, hj⟩ | ⟨hi, -⟩)
      · rw [search_iff, hk] at hi
        cases hi
        exact hj.reaches
      · rw [search_iff, hk] at hi
        cases hi
  | none =>
    rw [hk] at hsearch
    -- A name that is nowhere bound has the outermost frame for its target.
    have houtermost : fs.Outermost i (fs.root i) := outermost_iff.2 rfl
    have hroot : ¬ fs.Binds (fs.root i) name := by
      intro hbinds
      have hfound := (houtermost.reaches hsearch).search (.found hbinds)
      rw [search_iff, hk] at hfound
      cases hfound
    have hnone := parent?_root fs i
    constructor
    · intro hreach
      exact .inr ⟨hsearch, hreach.search (.missing hroot hnone), _, houtermost,
        hreach.outermost hnone⟩
    · rintro (⟨k, hi, -⟩ | ⟨-, hj, r, hi, hr⟩)
      · rw [search_iff, hk] at hi
        cases hi
      · cases outermost_iff.1 hi
        exact hr.reaches hj

end Target

/-! ### Laws -/

/-- What a change from `fs` to `fs'` does that gives the name the value `v` for the frame `i` and
its aliases, and nothing else. -/
structure Rebinds (fs fs' : Frames) (i : FrameId) (name : String) (v : Value) : Prop where
  self : fs'.get? i name = some v
  otherName : ∀ j name', name' ≠ name → fs'.get? j name' = fs.get? j name'
  aliased : ∀ j, fs.Aliases name i j → fs'.get? j name = some v
  apart : ∀ j, ¬ fs.Aliases name i j → fs'.get? j name = fs.get? j name

theorem aliases_self (fs : Frames) (i : FrameId) (name : String) : fs.Aliases name i i := by
  have hsearch : fs.Search name i (fs.resolve? i name) := search_iff.2 rfl
  cases hk : fs.resolve? i name with
  | some k => exact .inl ⟨k, hk ▸ hsearch, hk ▸ hsearch⟩
  | none => exact .inr ⟨hk ▸ hsearch, hk ▸ hsearch, _, outermost_iff.2 rfl, outermost_iff.2 rfl⟩

/-- To define the name in the target gives the aliases the new value and nobody else. -/
theorem rebinds_define_target {fs : Frames} {i : FrameId} (hi : i < fs.size) (name : String)
    (v : Value) : fs.Rebinds (fs.define (fs.target i name) name v) i name v where
  self := get?_define_of_reaches v (target_lt_size hi)
    (reaches_target_iff.2 (fs.aliases_self i name))
  otherName _ _ h := get?_define_of_ne v h
  aliased _ h := get?_define_of_reaches v (target_lt_size hi) (reaches_target_iff.2 h)
  apart _ h := get?_define_of_not_reaches v fun hreach ↦ h (reaches_target_iff.1 hreach)

/-- The laws of names, for all frames `i` from which a change is made and all frames `j` from which
names are read. -/
structure NameLaws (fs : Frames) : Prop where
  /-- `set` makes a new binding exactly where the name had no value. -/
  set_new : ∀ i name v, (fs.set i name v).1 = true ↔ fs.get? i name = none
  set_rebinds : ∀ i < fs.size, ∀ name v, fs.Rebinds (fs.set i name v).2 i name v
  /-- `assign?` fails, and leaves the frames as they are, exactly where the name had no value. -/
  assign_fails : ∀ i name v, fs.assign? i name v = none ↔ fs.get? i name = none
  assign_rebinds : ∀ i < fs.size, ∀ name v, ∀ fs' ∈ fs.assign? i name v, fs.Rebinds fs' i name v
  define_reached : ∀ i < fs.size, ∀ name v j, fs.Reaches name j i →
    (fs.define i name v).get? j name = some v
  define_otherName : ∀ i name v j name', name' ≠ name →
    (fs.define i name v).get? j name' = fs.get? j name'
  /-- `define` changes the value that a frame sees exactly if the frame that it binds the name in is
  reached from there, and the value was another one. -/
  define_changes : ∀ i < fs.size, ∀ name v j, (fs.define i name v).get? j name ≠ fs.get? j name ↔
    fs.Reaches name j i ∧ fs.get? j name ≠ some v

/-- The laws of names hold of all frames. -/
theorem nameLaws (fs : Frames) : fs.NameLaws where
  set_new i name v := by rw [set_eq, get?_eq_none_iff, Option.isNone_iff_eq_none]
  set_rebinds i hi name v := by
    rw [set_eq]
    exact rebinds_define_target hi name v
  assign_fails i name v := by
    rw [assign?_eq, get?_eq_none_iff]
    simp
  assign_rebinds i hi name v fs' hfs' := by
    rw [assign?_eq] at hfs'
    split at hfs'
    · cases hfs'
    · cases hfs'
      exact rebinds_define_target hi name v
  define_reached i hi name v j h := get?_define_of_reaches v hi h
  define_otherName i name v j name' h := get?_define_of_ne v h
  define_changes i hi name v j := by
    by_cases hreach : fs.Reaches name j i
    · rw [get?_define_of_reaches v hi hreach]
      exact ⟨fun h ↦ ⟨hreach, h.symm⟩, fun h ↦ h.2.symm⟩
    · rw [get?_define_of_not_reaches v hreach]
      exact ⟨fun h ↦ absurd rfl h, fun h ↦ absurd h.1 hreach⟩

end Frames

/-! ### Numbering frames by age -/

/-- Frames under any numbers: what each of them stands in, and its bindings. -/
structure Links (n : Nat) where
  parent? : Fin n → Option (Fin n)
  vars : Fin n → Bindings

namespace Links

variable {n : Nat} (l : Links n)

/-- No walk outward comes back to where it began. -/
def Acyclic : Prop := ∀ i, ¬ Relation.TransGen (fun j p ↦ l.parent? j = some p) i i

/-- The frames `fs` are those of `l`: the frame `i` has the number `σ i`. -/
structure Numbered (fs : Frames) (σ : Fin n → FrameId) : Prop where
  injective : Function.Injective σ
  surjective : ∀ j, j < fs.size ↔ ∃ i, σ i = j
  parent? : ∀ i, fs.parent? (σ i) = (l.parent? i).map σ
  vars : ∀ i, fs.vars (σ i) = l.vars i

open Classical in
/-- How many frames there are around a frame. -/
noncomputable def depth (i : Fin n) : Nat :=
  (Finset.univ.filter fun j ↦ Relation.TransGen (fun j p ↦ l.parent? j = some p) i j).card

/-- The frames in the order of their age: the fewer frames around a frame, the older it is. -/
noncomputable def order : Equiv.Perm (Fin n) := Tuple.sort l.depth

/-- The number of a frame in the order of their age. -/
noncomputable def number (i : Fin n) : FrameId := l.order.symm i

variable {l}

/-- A frame has fewer frames around it than the frames inside of it. -/
theorem depth_lt (h : l.Acyclic) {i p : Fin n} (hp : l.parent? i = some p) :
    l.depth p < l.depth i := by
  classical
  refine Finset.card_lt_card (Finset.ssubset_iff_of_subset ?_ |>.2 ⟨p, ?_, ?_⟩)
  · intro j hj
    rw [Finset.mem_filter] at hj ⊢
    exact ⟨Finset.mem_univ j, .head hp hj.2⟩
  · exact Finset.mem_filter.2 ⟨Finset.mem_univ p, .single hp⟩
  · exact fun hmem ↦ h p (Finset.mem_filter.1 hmem).2

/-- So it comes before the frames inside of it. -/
theorem number_lt (h : l.Acyclic) {i p : Fin n} (hp : l.parent? i = some p) :
    l.number p < l.number i := by
  by_contra hle
  have hdepth := Tuple.monotone_sort l.depth (not_lt.1 hle)
  have happly : ∀ j, (l.depth ∘ Tuple.sort l.depth) (l.order.symm j) = l.depth j := fun j ↦
    congrArg l.depth (l.order.apply_symm_apply j)
  rw [happly, happly] at hdepth
  exact absurd (depth_lt h hp) (not_lt.2 hdepth)

/-- The frames under their new numbers. -/
noncomputable def byAge (l : Links n) (h : l.Acyclic) : Frames where
  toArray := Array.ofFn fun k ↦ ⟨(l.parent? (l.order k)).map l.number, l.vars (l.order k)⟩
  older k f p hf hp := by
    obtain ⟨hk, rfl⟩ := Array.getElem?_eq_some_iff.1 hf
    rw [Array.getElem_ofFn] at hp
    obtain ⟨q, hq, rfl⟩ := Option.map_eq_some_iff.1 hp
    have hlt := number_lt h hq
    rwa [number, number, Equiv.symm_apply_apply] at hlt

/-- **Frames without a cycle can be numbered by age.** -/
theorem numbered_byAge (h : l.Acyclic) : l.Numbered (l.byAge h) l.number := by
  have hsize : (l.byAge h).size = n := Array.size_ofFn
  have hframe : ∀ i, (l.byAge h).frame? (l.number i) =
      some ⟨(l.parent? i).map l.number, l.vars i⟩ := by
    intro i
    have hi : l.number i < n := (l.order.symm i).isLt
    have hback : l.order ⟨l.number i, hi⟩ = i := l.order.apply_symm_apply i
    refine Array.getElem?_ofFn.trans ?_
    rw [dif_pos hi, hback]
  constructor
  · exact fun i j hij ↦ l.order.symm.injective (Fin.ext hij)
  · intro j
    rw [hsize]
    constructor
    · exact fun hj ↦ ⟨l.order ⟨j, hj⟩, by rw [number, Equiv.symm_apply_apply]⟩
    · rintro ⟨i, rfl⟩
      exact (l.order.symm i).isLt
  · intro i
    rw [Frames.parent?, hframe]
    rfl
  · intro i
    rw [Frames.vars, hframe]
    rfl

end Links

/-- **Names through aliases.** The laws of names hold for all frames: what `set`, `assign?` and
`define` change from one frame is told for every other one. They hold whatever the frames are, as
long as they stand in one another without a cycle, since all such frames can be numbered by age. -/
theorem names_through_aliases :
    (∀ fs : Frames, fs.NameLaws) ∧
      ∀ (n : Nat) (l : Links n), l.Acyclic → ∃ fs σ, l.Numbered fs σ :=
  ⟨Frames.nameLaws, fun _ l h ↦ ⟨l.byAge h, l.number, Links.numbered_byAge h⟩⟩

end SafariScript
