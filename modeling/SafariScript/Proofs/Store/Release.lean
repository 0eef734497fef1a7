import SafariScript.Proofs.Store.Numbers

/-!
# Who holds a frame

A frame that is given back loses its bindings when the counts say that nothing holds it besides the
handle and functions of its own. The counts are only numbers: a frame that is held by something else
could have the right count by accident, if one of its own functions were not counted. That it cannot
is the argument of this module.

The functions of its own are different functions, all of them are counted, and each is counted once
(`own_le_closures`). So if the count is that of the handle and of these functions, then **every**
function that was defined in the frame is one of them, and no other handle and no younger frame
holds it (`Frames.Alone`). Such a function is referred to from one place only, and that is a binding
of the frame itself. So nothing else leads to the frame (`not_reaches_of_alone`), and the store
without its bindings shares all the rest with the store that keeps them (`Shared.drop`).
-/

namespace SafariScript

/-! ### Lists without duplicates -/

section EraseDups

variable {α : Type}

theorem mem_of_mem_eraseDupsBy {r : α → α → Bool} {l : List α} {a : α} (h : a ∈ l.eraseDupsBy r) :
    a ∈ l := by
  induction hn : l.length using Nat.strongRecOn generalizing l with
  | ind n ih =>
    cases l with
    | nil => exact h
    | cons b l =>
      rw [List.eraseDupsBy_cons] at h
      rcases List.mem_cons.1 h with rfl | h
      · exact List.mem_cons_self
      · have hlt : (l.filter fun c ↦ decide (r c b = false)).length < n :=
          hn ▸ Nat.lt_succ_of_le (List.length_filter_le _ _)
        exact List.mem_cons_of_mem _ (List.mem_filter.1 (ih _ hlt h rfl)).1

variable (key : α → Nat)

/-- Of each key there is an element left. -/
theorem exists_mem_eraseDupsBy {l : List α} {a : α} (h : a ∈ l) :
    ∃ b ∈ l.eraseDupsBy fun x y ↦ key x == key y, key b = key a := by
  induction hn : l.length using Nat.strongRecOn generalizing l with
  | ind n ih =>
    cases l with
    | nil => cases h
    | cons b l =>
      rw [List.eraseDupsBy_cons]
      by_cases hkey : key a = key b
      · exact ⟨b, List.mem_cons_self, hkey.symm⟩
      · have ha : a ∈ l.filter fun c ↦ decide ((key c == key b) = false) := by
          rcases List.mem_cons.1 h with rfl | hmem
          · exact absurd rfl hkey
          · exact List.mem_filter.2 ⟨hmem, by simpa using hkey⟩
        have hlt : (l.filter fun c ↦ decide ((key c == key b) = false)).length < n :=
          hn ▸ Nat.lt_succ_of_le (List.length_filter_le _ _)
        obtain ⟨c, hc, hkey⟩ := ih _ hlt ha rfl
        exact ⟨c, List.mem_cons_of_mem _ hc, hkey⟩

end EraseDups

/-- To take out the element at a number leaves what is before and behind it. -/
theorem exists_eq_append_cons {α : Type} {l : List α} {k : Nat} {a : α} (h : l[k]? = some a) :
    ∃ l₁ l₂, l = l₁ ++ a :: l₂ ∧ l.eraseIdx k = l₁ ++ l₂ := by
  obtain ⟨hk, rfl⟩ := List.getElem?_eq_some_iff.1 h
  refine ⟨l.take k, l.drop (k + 1), ?_, List.eraseIdx_eq_take_drop_succ ..⟩
  rw [List.getElem_cons_drop hk, List.take_append_drop]

namespace Frames

variable {fs : Frames} {roots : Roots} {i : FrameId}

/-! ### Places -/

/-- The values that are bound in a frame, by the list of frames. -/
theorem mem_vars {j : FrameId} {v : Value} : v ∈ (fs.vars j).map Prod.snd ↔
    ∃ f, fs.toArray.toList[j]? = some f ∧ v ∈ f.vars.map Prod.snd := by
  rw [Array.getElem?_toList, vars, frame?]
  cases fs.toArray[j]? with
  | none => simp
  | some f => simp

/-- What is held is bound in a frame or held from outside. -/
theorem mem_held {v : Value} :
    v ∈ fs.held roots ↔ (∃ j, v ∈ (fs.vars j).map Prod.snd) ∨ v ∈ roots.values := by
  rw [held, List.mem_append, List.mem_flatMap]
  refine or_congr_left ⟨?_, ?_⟩
  · rintro ⟨f, hf, hv⟩
    obtain ⟨j, hj⟩ := List.getElem?_of_mem hf
    exact ⟨j, mem_vars.2 ⟨f, hj, hv⟩⟩
  · rintro ⟨j, hv⟩
    obtain ⟨f, hf, hv⟩ := mem_vars.1 hv
    exact ⟨f, List.mem_of_getElem? hf, hv⟩

/-- The items of the lists inside of what is held, of each list once. -/
def items (fs : Frames) (roots : Roots) : List Value :=
  ((Value.listsAll (fs.held roots)).eraseDupsBy fun l l' ↦ l.1 == l'.1).flatMap Prod.snd

theorem places_eq (fs : Frames) (roots : Roots) :
    fs.places roots = fs.held roots ++ fs.items roots := rfl

/-- Each number stands for one list or function in all that is held, so that the counts are those of
things. -/
def Coherent (fs : Frames) (roots : Roots) : Prop := ∃ c, ∀ v ∈ fs.held roots, v.Listed c

namespace Coherent

variable (h : fs.Coherent roots)

include h

/-- In all that is held there is one thing of each number. -/
theorem eq_of_number? {u v : Value} {n : Nat} (hu : u ∈ Value.partsAll (fs.held roots))
    (hv : v ∈ Value.partsAll (fs.held roots)) (hun : u.number? = some n)
    (hvn : v.number? = some n) : u = v := by
  obtain ⟨c, hc⟩ := h
  obtain ⟨u', hu', hu⟩ := Value.mem_partsAll.1 hu
  obtain ⟨v', hv', hv⟩ := Value.mem_partsAll.1 hv
  exact (hc u' hu' u hu n hun).2.symm.trans (hc v' hv' v hv n hvn).2

/-- The items of every list are there, at whatever depth it is. -/
theorem mem_items {id : Nat} {items : List Value} {u : Value}
    (hlist : .list id items ∈ Value.partsAll (fs.held roots)) (hu : u ∈ items) :
    u ∈ fs.items roots := by
  have hlisted : (id, items) ∈ Value.listsAll (fs.held roots) := by
    obtain ⟨v, hv, hmem⟩ := Value.mem_partsAll.1 hlist
    exact Value.mem_listsAll.2 ⟨v, hv, Value.mem_lists.2 hmem⟩
  obtain ⟨⟨id', items'⟩, hleft, rfl⟩ := exists_mem_eraseDupsBy Prod.fst hlisted
  -- the list that is left of this number is the same one
  have hlist' : .list id' items' ∈ Value.partsAll (fs.held roots) := by
    obtain ⟨v, hv, hmem⟩ := Value.mem_listsAll.1 (mem_of_mem_eraseDupsBy hleft)
    exact Value.mem_partsAll.2 ⟨v, hv, Value.mem_lists.1 hmem⟩
  cases h.eq_of_number? hlist hlist' rfl rfl
  exact List.mem_flatMap.2 ⟨_, hleft, hu⟩

/-- What is inside of something held has a place of its own. -/
theorem mem_places_of_part {u : Value} (hu : u ∈ Value.partsAll (fs.held roots)) :
    u ∈ fs.places roots := by
  obtain ⟨v, hv, hpart⟩ := Value.mem_partsAll.1 hu
  rcases Value.eq_or_item_of_mem_parts hpart with rfl | ⟨id, items, hlist, hitem⟩
  · exact List.mem_append_left _ hv
  · have hlist' : .list id items ∈ Value.partsAll (fs.held roots) :=
      Value.mem_partsAll.2 ⟨v, hv, hlist⟩
    exact List.mem_append_right _ (h.mem_items hlist' hitem)

end Coherent

/-- The occurrences of functions. -/
def occurrences (fs : Frames) (roots : Roots) : List Function :=
  (fs.places roots).filterMap Value.function?

/-- A function occurs at its places. -/
theorem mem_occurrences {f : Function} :
    f ∈ fs.occurrences roots ↔ .function f ∈ fs.places roots := by
  rw [occurrences, List.mem_filterMap]
  constructor
  · rintro ⟨v, hv, hf⟩
    cases v with
    | function g =>
      cases hf
      exact hv
    | _ => cases hf
  · intro hf
    exact ⟨_, hf, rfl⟩

/-- What is at a place is inside of something that is held. -/
theorem mem_partsAll_of_mem_places {u : Value} (h : u ∈ fs.places roots) :
    u ∈ Value.partsAll (fs.held roots) := by
  rcases List.mem_append.1 h with hheld | hitem
  · exact Value.mem_partsAll.2 ⟨u, hheld, u.self_mem_parts⟩
  · obtain ⟨⟨id, items⟩, hleft, hu⟩ := List.mem_flatMap.1 hitem
    obtain ⟨v, hv, hmem⟩ := Value.mem_listsAll.1 (mem_of_mem_eraseDupsBy hleft)
    exact Value.mem_partsAll.2 ⟨v, hv, Value.item_mem_parts (Value.mem_lists.1 hmem) hu⟩

/-- What is held besides the bindings of a frame is held by another frame or by the roots. -/
theorem held_eq (roots : Roots) {f : Frame} (hf : fs.frame? i = some f) : ∃ before after,
    fs.held roots = before ++ (fs.vars i).map Prod.snd ++ after ∧
    (∀ j, j ≠ i → ∀ v ∈ (fs.vars j).map Prod.snd, v ∈ before ++ after) ∧
    ∀ v ∈ roots.values, v ∈ before ++ after := by
  have hvars : fs.vars i = f.vars := by
    rw [vars, hf]
    rfl
  obtain ⟨fs₁, fs₂, hfs, herase⟩ := exists_eq_append_cons (Array.getElem?_toList.trans hf)
  let bound (l : List Frame) : List Value := l.flatMap fun f ↦ f.vars.map Prod.snd
  refine ⟨bound fs₁, bound fs₂ ++ roots.values, ?_, fun j hj v hv ↦ ?_, fun v hv ↦ ?_⟩
  · rw [hvars, held, hfs, List.flatMap_append, List.flatMap_cons]
    simp only [bound, List.append_assoc]
  · obtain ⟨g, hg, hv⟩ := mem_vars.1 hv
    have hother : g ∈ fs.toArray.toList.eraseIdx i := List.mem_eraseIdx_iff_getElem?.2 ⟨j, hj, hg⟩
    rw [herase] at hother
    have hbound : v ∈ bound (fs₁ ++ fs₂) := List.mem_flatMap.2 ⟨g, hother, hv⟩
    rw [show bound (fs₁ ++ fs₂) = bound fs₁ ++ bound fs₂ from List.flatMap_append] at hbound
    rw [← List.append_assoc]
    exact List.mem_append_left _ hbound
  · exact List.mem_append_right _ (List.mem_append_right _ hv)

/-! ### Functions of its own -/

theorem isOwnClosure_iff {v : Value} : fs.isOwnClosure roots i v = true ↔
    ∃ f, v = .function f ∧ fs.functionCount roots f = 1 ∧ f.closure = i := by
  cases v with
  | function f => simp [isOwnClosure]
  | _ => simp [isOwnClosure]

/-- The functions of its own that a frame binds. -/
def own (fs : Frames) (roots : Roots) (i : FrameId) : List Function :=
  (((fs.vars i).map Prod.snd).filter (fs.isOwnClosure roots i)).filterMap Value.function?

/-- A function of its own is bound in the frame, was defined there and is referred to once. -/
theorem mem_own {f : Function} : f ∈ fs.own roots i ↔ .function f ∈ (fs.vars i).map Prod.snd ∧
    fs.functionCount roots f = 1 ∧ f.closure = i := by
  rw [own, List.mem_filterMap]
  constructor
  · rintro ⟨v, hv, hf⟩
    obtain ⟨hbound, hown⟩ := List.mem_filter.1 hv
    obtain ⟨g, rfl, hg⟩ := isOwnClosure_iff.1 hown
    cases hf
    exact ⟨hbound, hg⟩
  · rintro ⟨hbound, hown⟩
    exact ⟨_, List.mem_filter.2 ⟨hbound, isOwnClosure_iff.2 ⟨f, rfl, hown⟩⟩, rfl⟩

/-- The functions of its own are counted by the bindings. -/
theorem length_own : (fs.own roots i).length =
    (fs.vars i).countP fun entry ↦ fs.isOwnClosure roots i entry.2 := by
  have hall : ∀ v ∈ ((fs.vars i).map Prod.snd).filter (fs.isOwnClosure roots i),
      v.function?.isSome = true := by
    intro v hv
    obtain ⟨f, rfl, -⟩ := isOwnClosure_iff.1 (List.mem_filter.1 hv).2
    rfl
  rw [own, List.length_filterMap_eq_countP, List.countP_eq_length.2 hall,
    ← List.countP_eq_length_filter, List.countP_map]
  rfl

/-- The bindings of a frame are places. -/
theorem vars_sublist_places (fs : Frames) (roots : Roots) (i : FrameId) :
    ((fs.vars i).map Prod.snd).Sublist (fs.places roots) := by
  cases hf : fs.frame? i with
  | none =>
    rw [vars, hf]
    exact List.nil_sublist _
  | some f =>
    obtain ⟨before, after, hheld, -⟩ := held_eq roots hf
    rw [places_eq, hheld]
    exact ((List.sublist_append_right before _).trans (List.sublist_append_left _ after)).trans
      (List.sublist_append_left _ _)

/-- The functions of its own are among the occurrences, each at its place. -/
theorem own_sublist (fs : Frames) (roots : Roots) (i : FrameId) :
    (fs.own roots i).Sublist (fs.occurrences roots) :=
  (List.filter_sublist.trans (fs.vars_sublist_places roots i)).filterMap Value.function?

/-- The functions that are referred to and were defined in a frame. -/
def closures (fs : Frames) (roots : Roots) (i : FrameId) : List Function :=
  (fs.functions roots).filter fun f ↦ f.closure == i

/-- The functions of its own have different numbers: each of them occurs only once. -/
theorem nodup_own (fs : Frames) (roots : Roots) (i : FrameId) :
    ((fs.own roots i).map Function.id).Nodup := by
  refine List.nodup_iff_count.2 fun n ↦ ?_
  rw [List.count_eq_countP, List.countP_map]
  rcases Nat.eq_zero_or_pos ((fs.own roots i).countP fun f ↦ f.id == n) with hzero | hpos
  · exact Nat.le_trans (Nat.le_of_eq hzero) (Nat.zero_le 1)
  · obtain ⟨f, hf, hid⟩ := List.countP_pos_iff.1 hpos
    obtain rfl : f.id = n := beq_iff_eq.1 hid
    obtain ⟨-, hcount, -⟩ := mem_own.1 hf
    exact Nat.le_trans (fs.own_sublist roots i).countP_le (Nat.le_of_eq hcount)

namespace Coherent

variable (h : fs.Coherent roots)

include h

/-- Functions of one number are the same. -/
theorem eq_of_id {f g : Function} (hf : f ∈ fs.occurrences roots) (hg : g ∈ fs.occurrences roots)
    (hid : f.id = g.id) : f = g := by
  have heq := h.eq_of_number? (mem_partsAll_of_mem_places (mem_occurrences.1 hf))
    (mem_partsAll_of_mem_places (mem_occurrences.1 hg)) rfl (congrArg some hid.symm)
  exact Value.function.inj heq

/-- A function that occurs and was defined in the frame. -/
theorem mem_closures {f : Function} :
    f ∈ fs.closures roots i ↔ f ∈ fs.occurrences roots ∧ f.closure = i := by
  have hfunctions : f ∈ fs.functions roots ↔ f ∈ fs.occurrences roots := by
    refine ⟨fun hf ↦ mem_of_mem_eraseDupsBy hf, fun hf ↦ ?_⟩
    obtain ⟨g, hg, hid⟩ := exists_mem_eraseDupsBy Function.id hf
    rw [← h.eq_of_id (mem_of_mem_eraseDupsBy hg) hf hid]
    exact hg
  rw [closures, List.mem_filter, hfunctions, beq_iff_eq]

/-- The functions of its own were defined in the frame. -/
theorem own_subset_closures : fs.own roots i ⊆ fs.closures roots i := fun _ hf ↦
  h.mem_closures.2 ⟨(fs.own_sublist roots i).subset hf, (mem_own.1 hf).2.2⟩

/-- The functions of its own are some of those that were defined in the frame. -/
theorem own_le_closures : (fs.own roots i).length ≤ (fs.closures roots i).length := by
  have hle := (fs.nodup_own roots i).length_le_of_subset (List.map_subset _ h.own_subset_closures)
  rwa [List.length_map, List.length_map] at hle

/-- If they are as many, then all functions that were defined in the frame are its own. -/
theorem mem_own (hlen : (fs.closures roots i).length ≤ (fs.own roots i).length)
    {f : Function} (hf : f ∈ fs.occurrences roots) (hclosure : f.closure = i) :
    f ∈ fs.own roots i := by
  apply Classical.byContradiction
  intro hnot
  -- otherwise there would be room for one more
  have hnew : f.id ∉ (fs.own roots i).map Function.id := by
    intro hid
    obtain ⟨g, hg, hid⟩ := List.mem_map.1 hid
    exact hnot (h.eq_of_id ((fs.own_sublist roots i).subset hg) hf hid ▸ hg)
  have hsubset : f.id :: (fs.own roots i).map Function.id ⊆
      (fs.closures roots i).map Function.id :=
    List.cons_subset.2 ⟨List.mem_map_of_mem (h.mem_closures.2 ⟨hf, hclosure⟩),
      List.map_subset _ h.own_subset_closures⟩
  have hle := (List.nodup_cons.2 ⟨hnew, fs.nodup_own roots i⟩).length_le_of_subset hsubset
  rw [List.length_cons, List.length_map, List.length_map] at hle
  omega

/-- A function that occurs only once and is bound in a frame is nowhere else: what the other frames
and the roots hold, it is not inside of. -/
theorem not_elsewhere {f : Function} (hf : .function f ∈ (fs.vars i).map Prod.snd)
    (hcount : fs.functionCount roots f = 1) :
    (∀ j, j ≠ i → ∀ v ∈ (fs.vars j).map Prod.snd, .function f ∉ v.parts) ∧
      ∀ v ∈ roots.values, .function f ∉ v.parts := by
  obtain ⟨frame, hframe, -⟩ := mem_vars.1 hf
  obtain ⟨before, after, hheld, hframes, hvalues⟩ :=
    held_eq roots (Array.getElem?_toList.symm.trans hframe)
  let count (vs : List Value) : Nat := (vs.filterMap Value.function?).countP (·.id == f.id)
  have hpos : ∀ {vs : List Value}, .function f ∈ vs → 0 < count vs := fun hmem ↦
    List.countP_pos_iff.2 ⟨f, List.mem_filterMap.2 ⟨_, hmem, rfl⟩, beq_self_eq_true _⟩
  have happend : ∀ vs vs' : List Value, count (vs ++ vs') = count vs + count vs' := fun vs vs' ↦ by
    simp only [count, List.filterMap_append, List.countP_append]
  -- the places are those of the frame, where the function is, and those elsewhere
  have htotal : count before + count ((fs.vars i).map Prod.snd) + count after +
      count (fs.items roots) = 1 := by
    rw [← happend, ← happend, ← happend, ← hheld]
    exact hcount
  have hhere := hpos hf
  have hnot : ∀ v ∈ before ++ after, .function f ∉ v.parts := by
    intro v hv hinside
    rcases Value.eq_or_item_of_mem_parts hinside with rfl | ⟨id, items, hlist, hitem⟩
    · have hother := hpos hv
      rw [happend] at hother
      omega
    · have hmem : v ∈ fs.held roots := by
        rw [hheld]
        simp only [List.mem_append] at hv ⊢
        exact hv.imp_left .inl
      have hother := hpos (h.mem_items (Value.mem_partsAll.2 ⟨v, hmem, hlist⟩) hitem)
      omega
  exact ⟨fun j hj v hv ↦ hnot v (hframes j hj v hv), fun v hv ↦ hnot v (hvalues v hv)⟩

end Coherent

/-- Nothing holds the frame besides one handle and itself. -/
structure Alone (fs : Frames) (roots : Roots) (i : FrameId) : Prop where
  handles : roots.handles.count i = 1
  parent? : ∀ j, fs.parent? j ≠ some i
  vars : ∀ j, j ≠ i → ∀ v ∈ (fs.vars j).map Prod.snd, Ref.frame i ∉ v.refs
  values : ∀ v ∈ roots.values, Ref.frame i ∉ v.refs

/-- The count of the frame is that of the handle that is given back and of its own functions. -/
def Drops (fs : Frames) (roots : Roots) (i : FrameId) : Prop :=
  fs.frameCount roots i = 1 + (fs.vars i).countP fun entry ↦ fs.isOwnClosure roots i entry.2

/-- **The counts do not lie.** A frame with a handle whose count says so is held by nothing else. -/
theorem Coherent.alone (h : fs.Coherent roots) (hi : i ∈ roots.handles)
    (hdrops : fs.Drops roots i) : fs.Alone roots i := by
  have hhandles : 0 < roots.handles.count i := List.count_pos_iff.2 hi
  have hle : (fs.own roots i).length ≤ (fs.closures roots i).length := h.own_le_closures
  have hcount : roots.handles.count i + fs.toArray.toList.countP (fun f ↦ f.parent == some i) +
      (fs.closures roots i).length = 1 + (fs.own roots i).length := by
    rw [length_own, closures, ← List.countP_eq_length_filter]
    exact hdrops
  have hown : ∀ v, v ∈ fs.held roots → Ref.frame i ∈ v.refs → ∃ f, .function f ∈ v.parts ∧
      .function f ∈ (fs.vars i).map Prod.snd ∧ fs.functionCount roots f = 1 := by
    intro v hv href
    obtain ⟨f, hf, hclosure⟩ := Value.function_of_frame_mem_refs href
    have hplace := h.mem_places_of_part (Value.mem_partsAll.2 ⟨v, hv, hf⟩)
    have hmem := h.mem_own (by omega) (mem_occurrences.2 hplace) hclosure
    obtain ⟨hbound, hone, -⟩ := Frames.mem_own.1 hmem
    exact ⟨f, hf, hbound, hone⟩
  refine ⟨by omega, fun j hj ↦ ?_, fun j hj v hv href ↦ ?_, fun v hv href ↦ ?_⟩
  · obtain ⟨f, hf, hparent⟩ := Option.bind_eq_some_iff.1 hj
    have hmem : f ∈ fs.toArray.toList := List.mem_of_getElem? (Array.getElem?_toList.trans hf)
    have hchild : 0 < fs.toArray.toList.countP (fun f ↦ f.parent == some i) :=
      List.countP_pos_iff.2 ⟨f, hmem, beq_iff_eq.2 hparent⟩
    omega
  · obtain ⟨f, hf, hbound, hone⟩ := hown v (mem_held.2 (.inl ⟨j, hv⟩)) href
    exact (h.not_elsewhere hbound hone).1 j hj v hv hf
  · obtain ⟨f, hf, hbound, hone⟩ := hown v (mem_held.2 (.inr hv)) href
    exact (h.not_elsewhere hbound hone).2 v hv hf

end Frames

/-! ### Without the bindings -/

namespace Store

variable {A : Ref → Prop} {s s' : Store} {i : FrameId}

/-- What is the same refers to the same. -/
theorem SameAt.targets_eq {r : Ref} (h : s.SameAt s' r) : s.targets r = s'.targets r := by
  rcases r with j | id | id | id
  · have hframe : s.frames.frame? j = s'.frames.frame? j := h
    rw [targets, targets, Frames.parent?, Frames.parent?, Frames.vars, Frames.vars, hframe]
  · exact congrArg (fun z : Zone ↦ pokemonRefs z.wild) (contents_congr (o := .zone id) h)
  · exact congrArg (fun t : Team ↦ pokemonRefs t.roster) (contents_congr (o := .team id) h)
  · rfl

theorem SameAt.refl (s : Store) (r : Ref) : s.SameAt s r := by
  rcases r with j | id | id | id <;> exact rfl

theorem SameAt.symm {r : Ref} (h : s.SameAt s' r) : s'.SameAt s r := by
  rcases r with j | id | id | id <;> exact Eq.symm h

theorem SameAt.trans {s'' : Store} {r : Ref} (h : s.SameAt s' r) (h' : s'.SameAt s'' r) :
    s.SameAt s'' r := by
  rcases r with j | id | id | id <;> exact Eq.trans h h'

/-- Stores of the same shape have the same things. -/
theorem SameShape.has_iff (h : s.SameShape s') {r : Ref} : s.Has r ↔ s'.Has r := by
  rcases r with j | id | id | id
  · show j < s.frames.size ↔ _
    rw [h.frames]
    rfl
  · show id < s.zones.size ↔ _
    rw [h.zones]
    rfl
  · show id < s.teams.size ↔ _
    rw [h.teams]
    rfl
  · show id < s.pokemon.size ↔ _
    rw [h.pokemon]
    rfl

/-- A store shares everything with itself. -/
theorem Shared.refl (s : Store) : Shared (fun _ ↦ True) s s where
  shape := ⟨rfl, rfl, rfl, rfl, rfl⟩
  same r _ := .refl s r
  closed _ _ _ _ := trivial
  unused _ _ := trivial

/-- To share a part is the same from both sides. -/
theorem Shared.symm (h : Shared A s s') : Shared A s' s where
  shape := ⟨h.shape.frames.symm, h.shape.zones.symm, h.shape.teams.symm, h.shape.pokemon.symm,
    h.shape.fresh.symm⟩
  same r hr := (h.same r hr).symm
  closed r hr r' hr' := h.closed r hr r' ((h.same r hr).targets_eq ▸ hr')
  unused r hr := h.unused r (mt h.shape.has_iff.1 hr)

/-- The store without the bindings of a frame. -/
def drop (s : Store) (i : FrameId) : Store := { s with frames := s.frames.update i fun _ ↦ [] }

/-- The store when one of the handles on a frame is given back. -/
def release (s : Store) (roots : Roots) (i : FrameId) : Store :=
  { s with frames := s.frames.release roots i }

/-- If the counts allow it, the bindings are dropped. -/
theorem release_of_drops {roots : Roots} (h : s.frames.Drops roots i) :
    s.release roots i = s.drop i := by
  have hframes : s.frames.release roots i = s.frames.update i fun _ ↦ [] := if_pos h
  rw [release, hframes, drop]

/-- If they do not, nothing happens. -/
theorem release_of_not_drops {roots : Roots} (h : ¬ s.frames.Drops roots i) :
    s.release roots i = s := by
  have hframes : s.frames.release roots i = s.frames := if_neg h
  rw [release, hframes]

/-- Only the one frame loses its bindings. -/
theorem vars_drop (s : Store) (i j : FrameId) :
    (s.drop i).frames.vars j = if j = i then [] else s.frames.vars j := by
  show (((s.frames.toArray.modify i _)[j]?).map Frame.vars).getD [] = _
  rw [Array.getElem?_modify, Frames.vars, Frames.frame?]
  by_cases hij : i = j
  · rw [if_pos hij, if_pos hij.symm]
    cases s.frames.toArray[j]? with
    | none => rfl
    | some f => rfl
  · rw [if_neg hij, if_neg (Ne.symm hij)]

/-- What is left is numbered as before. -/
theorem Numbered.drop {c : Catalogue} (h : s.Numbered c) (i : FrameId) : (s.drop i).Numbered c := by
  refine ⟨h.fresh, fun j v hv ↦ ?_⟩
  rw [vars_drop] at hv
  split at hv
  · cases hv
  · exact h.bound j v hv

/-- Everything but the frame is as it was. -/
theorem sameAt_drop {r : Ref} (h : r = .frame i → ¬ s.Has r) : s.SameAt (s.drop i) r := by
  rcases r with j | id | id | id
  · show s.frames.toArray[j]? = (s.frames.toArray.modify i _)[j]?
    rw [Array.getElem?_modify]
    split
    · next hij =>
      subst hij
      have hnone : s.frames.toArray[i]? = none := frame?_of_not_has (h rfl)
      rw [hnone]
      rfl
    · rfl
  all_goals rfl

theorem sameShape_drop (s : Store) (i : FrameId) : s.SameShape (s.drop i) :=
  ⟨Array.size_modify.symm, rfl, rfl, rfl, rfl⟩

section Alone

variable {roots : Roots} (h : s.frames.Alone roots i)

include h

/-- Nothing but the frame itself refers to it. -/
theorem ne_of_mem_targets {r r' : Ref} (hr : r ≠ .frame i) (hr' : r' ∈ s.targets r) :
    r' ≠ .frame i := by
  rintro rfl
  rcases r with j | id | id | id
  · rcases List.mem_append.1 hr' with hparent | hvars
    · obtain ⟨p, hp, heq⟩ := List.mem_map.1 hparent
      cases heq
      exact h.parent? j (Option.mem_toList.1 hp)
    · obtain ⟨v, hv, hmem⟩ := Value.mem_refsAll.1 hvars
      exact h.vars j (fun hj ↦ hr (congrArg Ref.frame hj)) v hv hmem
  · obtain ⟨p, -, heq⟩ := List.mem_map.1 hr'
    cases heq
  · obtain ⟨p, -, heq⟩ := List.mem_map.1 hr'
    cases heq
  · cases hr'

/-- A frame that is held by nothing else cannot be got at. -/
theorem not_reaches_of_alone {rs : List Ref} (hrs : Ref.frame i ∉ rs) :
    ¬ s.Reaches rs (.frame i) := by
  have hne : ∀ r, s.Reaches rs r → r ≠ .frame i := by
    intro r hr
    induction hr with
    | root hmem => exact fun heq ↦ hrs (heq ▸ hmem)
    | next _ hnext ih => exact ne_of_mem_targets h ih hnext
  exact fun hreaches ↦ hne _ hreaches rfl

/-- What is shared is shared without the frame when its bindings are dropped on one side. -/
theorem Shared.drop (hs : Shared A s s') :
    Shared (fun r ↦ A r ∧ (r = .frame i → ¬ s.Has r)) (s.drop i) s' where
  shape := ⟨Array.size_modify.trans hs.shape.frames, hs.shape.zones, hs.shape.teams,
    hs.shape.pokemon, hs.shape.fresh⟩
  same r hr := (sameAt_drop hr.2).symm.trans (hs.same r hr.1)
  closed r hr r' hr' := by
    rw [← (sameAt_drop hr.2).targets_eq] at hr'
    refine ⟨hs.closed r hr.1 r' hr', fun hi ↦ ?_⟩
    -- only the frame itself could refer to it, and then it is not there
    by_cases hri : r = .frame i
    · rw [targets_of_not_has (hr.2 hri)] at hr'
      cases hr'
    · exact absurd hi (ne_of_mem_targets h hri hr')
  unused r hr := by
    have hnot : ¬ s.Has r := mt (sameShape_drop s i).has_iff.1 hr
    exact ⟨hs.unused r hnot, fun _ ↦ hnot⟩

end Alone

end Store

end SafariScript
