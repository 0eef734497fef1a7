import SafariScript.Proofs.Store.Objects
import SafariScript.Proofs.Store.Operations
import SafariScript.Store.Release

/-!
# Numbers of lists and functions

Lists and functions are values, and the same list or function may be in many places at once. What
makes it one thing is its number. So wherever a number turns up, it has to be on the same thing: a
`Catalogue` says which one for each number that was given so far, and a value is `Listed` when all
the lists and functions inside of it are those of the catalogue.

Numbers are given in order and never again, so a catalogue only grows (`Catalogue.le`), and what is
listed stays listed. The store of a session is `Numbered`: all that is bound in its frames is listed
in a catalogue of as many numbers as were given. Every operation on the store keeps it so, for a
later catalogue.
-/

namespace SafariScript

/-! ### What is inside a value -/

namespace Value

mutual

/-- The values inside a value, itself included. -/
def parts : Value → List Value
  | list id items => list id items :: partsAll items
  | v => [v]

/-- The values inside values. -/
def partsAll : List Value → List Value
  | [] => []
  | v :: vs => v.parts ++ partsAll vs

end

/-- To be no list. -/
def isLeaf : Value → Bool
  | list _ _ => false
  | _ => true

/-- Induction on how values are made of values. -/
theorem induction {P : Value → Prop} (leaf : ∀ v, v.isLeaf = true → P v)
    (list : ∀ id items, (∀ v ∈ items, P v) → P (.list id items)) (v : Value) : P v := by
  cases v with
  | list id items => exact list id items fun v _ ↦ induction leaf list v
  | _ => exact leaf _ rfl
termination_by sizeOf v
decreasing_by
  next hv =>
  have := List.sizeOf_lt_of_mem hv
  simp only [Value.list.sizeOf_spec]
  omega

theorem parts_of_isLeaf {v : Value} (h : v.isLeaf = true) : v.parts = [v] := by
  cases v with
  | list id items => cases h
  | _ => rfl

/-- What is inside values is inside one of them. -/
theorem mem_partsAll {u : Value} {vs : List Value} : u ∈ partsAll vs ↔ ∃ v ∈ vs, u ∈ v.parts := by
  induction vs with
  | nil => simp [partsAll]
  | cons v vs ih => simp [partsAll, ih]

/-- What is inside a list is the list, or inside one of its elements. -/
theorem mem_parts_list {u : Value} {id : Nat} {items : List Value} :
    u ∈ (list id items).parts ↔ u = list id items ∨ ∃ v ∈ items, u ∈ v.parts := by
  rw [← mem_partsAll]
  exact List.mem_cons

/-- A value is inside itself. -/
theorem self_mem_parts (v : Value) : v ∈ v.parts := by
  cases v <;> exact List.mem_cons_self

/-- What is inside a value is the value itself, or an item of a list inside of it. -/
theorem eq_or_item_of_mem_parts {u v : Value} (h : u ∈ v.parts) :
    u = v ∨ ∃ id items, list id items ∈ v.parts ∧ u ∈ items := by
  induction v using induction with
  | leaf v hv =>
    rw [parts_of_isLeaf hv] at h
    exact .inl (List.mem_singleton.1 h)
  | list id items ih =>
    rcases mem_parts_list.1 h with rfl | ⟨w, hw, hu⟩
    · exact .inl rfl
    rcases ih w hw hu with rfl | ⟨id', items', hlist, hu'⟩
    · exact .inr ⟨id, items, self_mem_parts _, hw⟩
    · exact .inr ⟨id', items', mem_parts_list.2 (.inr ⟨w, hw, hlist⟩), hu'⟩

/-- The elements of an inner list are inside the value. -/
theorem item_mem_parts {u v : Value} {id : Nat} {items : List Value} (h : list id items ∈ v.parts)
    (hu : u ∈ items) : u ∈ v.parts := by
  induction v using induction with
  | leaf v hv =>
    rw [parts_of_isLeaf hv, List.mem_singleton] at h
    rw [← h] at hv
    cases hv
  | list id' items' ih =>
    rcases mem_parts_list.1 h with heq | ⟨w, hw, hlist⟩
    · cases heq
      exact mem_parts_list.2 (.inr ⟨u, hu, u.self_mem_parts⟩)
    · exact mem_parts_list.2 (.inr ⟨w, hw, ih w hw hlist⟩)

theorem mem_listsAll {l : Nat × List Value} {vs : List Value} :
    l ∈ listsAll vs ↔ ∃ v ∈ vs, l ∈ v.lists := by
  induction vs with
  | nil => simp [listsAll]
  | cons v vs ih => simp [listsAll, ih]

/-- The lists of a value are the lists inside of it. -/
theorem mem_lists {v : Value} {id : Nat} {items : List Value} :
    (id, items) ∈ v.lists ↔ list id items ∈ v.parts := by
  induction v using induction with
  | leaf v hv =>
    rw [parts_of_isLeaf hv, List.mem_singleton]
    cases v with
    | list id' items' => cases hv
    | _ => simp [lists]
  | list id' items' ih =>
    have hinside : (id, items) ∈ listsAll items' ↔ ∃ v ∈ items', list id items ∈ v.parts := by
      rw [mem_listsAll]
      exact exists_congr fun v ↦ and_congr_right (ih v)
    rw [mem_parts_list, ← hinside, lists, List.mem_cons, Prod.mk.injEq, list.injEq]

/-- A value refers to a frame through a function inside of it. -/
theorem function_of_frame_mem_refs {v : Value} {i : FrameId} (h : Ref.frame i ∈ v.refs) :
    ∃ f, function f ∈ v.parts ∧ f.closure = i := by
  induction v using induction with
  | leaf v hv =>
    cases v with
    | list id items => cases hv
    | function f =>
      cases List.mem_singleton.1 h
      exact ⟨f, self_mem_parts _, rfl⟩
    | object o => cases List.mem_singleton.1 h
    | _ => cases h
  | list id items ih =>
    obtain ⟨w, hw, hi⟩ := mem_refsAll.1 h
    obtain ⟨f, hf, hclosure⟩ := ih w hw hi
    exact ⟨f, mem_parts_list.2 (.inr ⟨w, hw, hf⟩), hclosure⟩

end Value

/-! ### Catalogues -/

/-- The number of a list or a function. -/
def Value.number? : Value → Option Nat
  | list id _ => some id
  | function f => some f.id
  | _ => none

/-- A scalar has no number. -/
theorem Value.number?_of_isScalar {v : Value} (h : v.isScalar = true) : v.number? = none := by
  cases v with
  | null | bool | int | decimal | str => rfl
  | list | object | function | native => cases h

/-- The lists and functions that have the numbers below `size`. -/
structure Catalogue where
  size : Nat
  entry : Nat → Value

namespace Catalogue

/-- The later catalogue has the same entries, and perhaps more. -/
structure le (c c' : Catalogue) : Prop where
  size : c.size ≤ c'.size
  entry : ∀ n, n < c.size → c'.entry n = c.entry n

theorem le.refl (c : Catalogue) : c.le c := ⟨Nat.le_refl _, fun _ _ ↦ rfl⟩

theorem le.trans {c c' c'' : Catalogue} (h : c.le c') (h' : c'.le c'') : c.le c'' :=
  ⟨Nat.le_trans h.size h'.size, fun n hn ↦
    (h'.entry n (Nat.lt_of_lt_of_le hn h.size)).trans (h.entry n hn)⟩

/-- The catalogue with one more entry. -/
def add (c : Catalogue) (v : Value) : Catalogue where
  size := c.size + 1
  entry n := if n = c.size then v else c.entry n

/-- A new entry changes no other. -/
theorem le_add (c : Catalogue) (v : Value) : c.le (c.add v) :=
  ⟨Nat.le_succ _, fun _ hn ↦ if_neg (Nat.ne_of_lt hn)⟩

end Catalogue

/-- The lists and functions inside the value are those of the catalogue. -/
def Value.Listed (c : Catalogue) (v : Value) : Prop :=
  ∀ u ∈ v.parts, ∀ n, u.number? = some n → n < c.size ∧ c.entry n = u

namespace Value.Listed

variable {c c' : Catalogue} {v : Value}

/-- What is listed stays listed. -/
theorem mono (h : c.le c') (hv : v.Listed c) : v.Listed c' := by
  intro u hu n hn
  obtain ⟨hlt, hentry⟩ := hv u hu n hn
  exact ⟨Nat.lt_of_lt_of_le hlt h.size, (h.entry n hlt).trans hentry⟩

/-- What has no number need not be listed. -/
theorem of_number? (h : v.number? = none) : v.Listed c := by
  have hleaf : v.isLeaf = true := by
    cases v with
    | list id items => cases h
    | _ => rfl
  intro u hu n hn
  rw [parts_of_isLeaf hleaf, List.mem_singleton] at hu
  rw [hu, h] at hn
  cases hn

/-- A new list of what is listed. -/
theorem newList {items : List Value} (h : ∀ v ∈ items, v.Listed c) :
    (Value.list c.size items).Listed (c.add (.list c.size items)) := by
  intro u hu n hn
  rcases mem_parts_list.1 hu with rfl | ⟨v, hv, hu⟩
  · cases hn
    exact ⟨Nat.lt_succ_self _, if_pos rfl⟩
  · exact (h v hv).mono (c.le_add _) u hu n hn

/-- A function with the next number is listed by its entry. -/
theorem newFunction {f : Function} (h : f.id = c.size) :
    (Value.function f).Listed (c.add (.function f)) := by
  intro u hu n hn
  rw [List.mem_singleton.1 hu] at hn ⊢
  cases hn
  exact ⟨h ▸ Nat.lt_succ_self _, if_pos h⟩

/-- A scalar is listed in every catalogue. -/
theorem of_isScalar (h : v.isScalar = true) : v.Listed c := of_number? (number?_of_isScalar h)

end Value.Listed

/-! ### Numbered stores -/

/-- A new frame inside none is one inside a frame that is not there. -/
theorem Store.newRoot_eq (s : Store) : s.newRoot = s.newFrame s.frames.size := by
  rw [newRoot, newFrame, Frames.pushChild, dif_neg (Nat.lt_irrefl _)]

/-- All that is bound is listed, in a catalogue of the numbers that were given so far. -/
structure Store.Numbered (c : Catalogue) (s : Store) : Prop where
  fresh : s.fresh = c.size
  bound : ∀ i, ∀ v ∈ (s.frames.vars i).map Prod.snd, v.Listed c

namespace Store.Numbered

variable {c : Catalogue} {s : Store} {i : FrameId} {name : String} {v : Value}

/-- Objects have no part in it. -/
theorem of_eq {s' : Store} (h : s.Numbered c) (hframes : s'.frames = s.frames)
    (hfresh : s'.fresh = s.fresh) : s'.Numbered c :=
  ⟨hfresh.trans h.fresh, hframes ▸ h.bound⟩

/-- What a name stands for is listed. -/
theorem get? (h : s.Numbered c) (hv : s.frames.get? i name = some v) : v.Listed c := by
  obtain ⟨j, -, hj⟩ := Frames.get?_eq_some hv
  exact h.bound j v (Bindings.mem_of_get? hj)

/-- A new list takes the next number. -/
theorem newList (h : s.Numbered c) {items : List Value} (hitems : ∀ v ∈ items, v.Listed c) :
    (s.newList items).1.Listed (c.add (s.newList items).1) ∧
      (s.newList items).2.Numbered (c.add (s.newList items).1) := by
  refine ⟨?_, congrArg (· + 1) h.fresh, fun j u hu ↦ (h.bound j u hu).mono (c.le_add _)⟩
  have hnew : (s.newList items).1 = .list c.size items := by rw [← h.fresh]; rfl
  rw [hnew]
  exact .newList hitems

/-- A new function takes the next number. -/
theorem newFunction (h : s.Numbered c) (name : String) (params : List String) (body : List Stmt)
    (closure : FrameId) :
    (s.newFunction name params body closure).1.Listed
        (c.add (s.newFunction name params body closure).1) ∧
      (s.newFunction name params body closure).2.Numbered
        (c.add (s.newFunction name params body closure).1) :=
  ⟨.newFunction h.fresh, congrArg (· + 1) h.fresh, fun j u hu ↦ (h.bound j u hu).mono (c.le_add _)⟩

/-- A definition of what is listed already. -/
theorem define (h : s.Numbered c) (hv : v.Listed c) (i : FrameId) (name : String) :
    (s.define i name v).Numbered c := by
  refine ⟨h.fresh, fun j u hu ↦ ?_⟩
  replace hu : u ∈ ((s.frames.define i name v).vars j).map Prod.snd := hu
  rw [Frames.vars_define] at hu
  split at hu
  · rcases Bindings.mem_of_mem_insert hu with rfl | hold
    · exact hv
    · exact h.bound j u hold
  · exact h.bound j u hu

/-- Definitions one after the other. -/
theorem defineAll (h : s.Numbered c) {bindings : List (String × Value)}
    (hb : ∀ b ∈ bindings, b.2.Listed c) (i : FrameId) : (s.defineAll i bindings).Numbered c := by
  induction bindings generalizing s with
  | nil => exact h
  | cons b bindings ih =>
    obtain ⟨hv, hrest⟩ := List.forall_mem_cons.1 hb
    exact ih (h.define hv i b.1) hrest

/-- An assignment of what is listed already. -/
theorem assign (h : s.Numbered c) (hv : v.Listed c) (i : FrameId) (name : String) :
    (s.assign i name v).2.Numbered c := by
  have hset : ∃ j, (s.frames.set i name v).2 = s.frames.define j name v := by
    unfold Frames.set
    split
    · exact ⟨_, rfl⟩
    · exact ⟨_, rfl⟩
  obtain ⟨j, hj⟩ := hset
  exact (h.define hv j name).of_eq hj rfl

/-- A new frame binds nothing. -/
theorem newFrame (h : s.Numbered c) (around : FrameId) : (s.newFrame around).2.Numbered c := by
  refine ⟨h.fresh, fun j u hu ↦ h.bound j u ?_⟩
  have hvars : (s.newFrame around).2.frames.vars j = s.frames.vars j := Frames.vars_pushChild ..
  rwa [hvars] at hu

theorem newRoot (h : s.Numbered c) : s.newRoot.2.Numbered c :=
  s.newRoot_eq ▸ h.newFrame _

end Store.Numbered

/-! ### Answers of objects -/

/-- The answer is no list or function that was there before. -/
def Reply.Unnumbered : Reply → Prop
  | value v => v.number? = none
  | roster _ => True

namespace Object.Contents

variable {o : Object} {x x' : o.Contents} {name : String} {reply : Reply}

/-- A property is a scalar or a roster, and neither has a number yet. -/
theorem unnumbered_get (h : x.get name = .ok reply) : reply.Unnumbered := by
  cases o with
  | zone id =>
    replace h : Zone.get x name = .ok reply := h
    unfold Zone.get at h
    split at h <;> cases h <;> trivial
  | team id =>
    replace h : Team.get x name = .ok reply := h
    unfold Team.get at h
    split at h <;> cases h <;> trivial
  | pokemon id =>
    obtain ⟨v, hv, rfl⟩ := Except.of_map_eq_ok h
    exact Value.number?_of_isScalar (isScalar_pokemon_get hv)

/-- A method answers with a scalar, an object or a roster. -/
theorem unnumbered_call {look : PokemonId → Pokemon} {args : List Value}
    {named : List (String × Value)} (h : x.call look name args named = .ok (reply, x')) :
    reply.Unnumbered := by
  cases o with
  | zone id =>
    replace h : Zone.answer x name args named = .ok (reply, x') := h
    unfold Zone.answer at h
    obtain ⟨_, -, h⟩ := Except.of_bind_eq_ok h
    split at h
    case h_1 | h_2 =>
      obtain ⟨n, -, h⟩ := Except.of_bind_eq_ok h
      cases h
      rfl
    · obtain ⟨v, -, h⟩ := Except.of_bind_eq_ok h
      obtain ⟨p, -, h⟩ := Except.of_bind_eq_ok h
      cases h
      rfl
    · cases h
  | team id =>
    replace h : Team.answer look x name args named = .ok (reply, x') := h
    cases Team.answer_eq_ok.1 h <;> trivial
  | pokemon id =>
    obtain ⟨v, hv, hreply⟩ := Except.of_map_eq_ok h
    cases hreply
    exact Value.number?_of_isScalar (isScalar_pokemon_answer hv)

end Object.Contents

namespace Store

variable {α β : Type}

/-- The store behind a computation is numbered by a later catalogue, in which the values that it
gives are listed. -/
def Numbers (c : Catalogue) (carries : α → List Value) (r : EStateM.Result Fault Store α) : Prop :=
  ∃ c', c.le c' ∧ (behind r).Numbered c' ∧ ∀ a s', r = .ok a s' → ∀ v ∈ carries a, v.Listed c'

namespace Numbers

variable {c c' : Catalogue} {carries : α → List Value} {s s' : Store}

/-- An operation with a result, for a later catalogue. -/
theorem ok {a : α} (hle : c.le c') (hs : s.Numbered c') (hv : ∀ v ∈ carries a, v.Listed c') :
    Numbers c carries (.ok a s) := by
  refine ⟨c', hle, hs, fun b s' h ↦ ?_⟩
  cases h
  exact hv

/-- A check has no part in the numbering. -/
theorem check_bind {x : Except Fault β} {f : β → StoreM α} (hs : s.Numbered c)
    (hf : ∀ b, x = .ok b → Numbers c carries (f b s)) :
    Numbers c carries ((Steps.check x >>= f) s) := by
  cases x with
  | ok b => exact hf b rfl
  | error fault => exact ⟨c, .refl c, hs, fun _ _ h ↦ by cases h⟩

/-- A roster becomes a new list, which takes the next number. -/
theorem ofReply {reply : Reply} (hs : s.Numbered c) (hreply : reply.Unnumbered) :
    Numbers c (fun v ↦ [v]) (Store.ofReply reply s) := by
  cases reply with
  | value v => exact .ok (.refl c) hs (List.forall_mem_singleton.2 (.of_number? hreply))
  | roster members =>
    have hitems : ∀ v ∈ members.map fun id ↦ Value.object (.pokemon id), v.Listed c :=
      List.forall_mem_map.2 fun _ _ ↦ .of_number? rfl
    obtain ⟨hlist, hstore⟩ := hs.newList hitems
    exact .ok (c.le_add _) hstore (List.forall_mem_singleton.2 hlist)

/-- To read a property may make a list of a roster. -/
theorem getProperty (hs : s.Numbered c) (o : Object) (name : String) :
    Numbers c (fun v ↦ [v]) (Store.getProperty o name s) := by
  rw [getProperty_eq]
  exact .check_bind hs fun reply h ↦ .ofReply hs (Object.Contents.unnumbered_get h)

/-- To write a property gives no number. -/
theorem setProperty (hs : s.Numbered c) (o : Object) (name : String) (v : Value) :
    Numbers c (fun _ ↦ []) (Store.setProperty o name v s) := by
  rw [setProperty_eq]
  exact .check_bind hs fun x _ ↦ .ok (.refl c) (hs.of_eq (frames_put s o x) (fresh_put s o x))
    fun _ h ↦ absurd h List.not_mem_nil

/-- To call a method may make a list of a roster. -/
theorem callMethod (hs : s.Numbered c) (o : Object) (name : String) (args : List Value)
    (named : List (String × Value)) :
    Numbers c (fun v ↦ [v]) (Store.callMethod o name args named s) := by
  rw [callMethod_eq]
  refine .check_bind hs fun answer h ↦ ?_
  have hput : (s.put o answer.2).Numbered c :=
    hs.of_eq (frames_put s o answer.2) (fresh_put s o answer.2)
  exact .ofReply hput (Object.Contents.unnumbered_call h)

/-- A native function makes an object or a scalar. -/
theorem callNative (hs : s.Numbered c) (n : Native) (args : List Value) :
    Numbers c (fun v ↦ [v]) (Store.callNative n args s) := by
  have hnew : ∀ {s' : Store} {v : Value}, s'.frames = s.frames → s'.fresh = s.fresh →
      v.number? = none → Numbers c (fun v ↦ [v]) (.ok v s') := fun hframes hfresh hv ↦
    .ok (.refl c) (hs.of_eq hframes hfresh) (List.forall_mem_singleton.2 (.of_number? hv))
  cases n with
  | safariZone =>
    rw [callNative_safariZone]
    exact .check_bind hs fun _ _ ↦ hnew rfl rfl rfl
  | pokemon =>
    rw [callNative_pokemon]
    exact .check_bind hs fun _ _ ↦ hnew rfl rfl rfl
  | team | len => exact .check_bind hs fun _ _ ↦ hnew rfl rfl rfl

end Numbers

end Store

end SafariScript
