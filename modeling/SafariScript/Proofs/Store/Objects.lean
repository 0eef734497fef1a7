import SafariScript.Proofs.Store.Sharing

/-!
# Operations on one object

What is read from the heap of objects is what was put there (`contents_put`, `put_put`), and to put
an object does not touch another one (`sameAt_put_of_ne`).

A method may write to its object at any of its steps, and zones and teams have all Pokémon at hand
to write to. That they do not is what the equations of the operations say (`setProperty_eq`,
`callMethod_eq`): every check stands before the first write, and all writes go to the object itself.
A constructor may leave a Pokémon half made, but only one that the store does not have yet
(`callNative_pokemon`). So an operation that fails has changed nothing, and one that succeeds has
changed no other object (`Store.Confined`).
-/

namespace SafariScript

/-! ### The heap of objects -/

theorem Array.getD_setIfInBounds_self {α : Type} {xs : Array α} {i : Nat} (hi : i < xs.size)
    (x d : α) : (xs.setIfInBounds i x).getD i d = x := by
  rw [Array.getD_eq_getD_getElem?, Array.getElem?_setIfInBounds_self_of_lt hi, Option.getD_some]

namespace Store

open Steps (check)

variable {s : Store} {o : Object}

/-- What is read is what was put there. -/
theorem contents_put (h : s.Has (.object o)) (x : o.Contents) : (s.put o x).contents o = x := by
  cases o <;> exact Array.getD_setIfInBounds_self h _ _

/-- Only the last write counts. -/
theorem put_put (x y : o.Contents) : (s.put o x).put o y = s.put o y := by
  cases o with
  | zone id =>
    exact congrArg (fun zones ↦ { s with zones := zones }) (Array.setIfInBounds_setIfInBounds ..)
  | team id =>
    exact congrArg (fun teams ↦ { s with teams := teams }) (Array.setIfInBounds_setIfInBounds ..)
  | pokemon id =>
    exact congrArg (fun pokemon ↦ { s with pokemon := pokemon })
      (Array.setIfInBounds_setIfInBounds ..)

/-- To put an object leaves the others alone. -/
theorem sameAt_put_of_ne {o' : Object} (h : o ≠ o') (x : o.Contents) :
    s.SameAt (s.put o x) (.object o') := by
  have hne : ∀ {f : Nat → Object} {id id' : Nat}, f id ≠ f id' → id ≠ id' :=
    fun hf hid ↦ hf (congrArg _ hid)
  cases o with
  | zone id =>
    cases o' with
    | zone id' => exact (Array.getElem?_setIfInBounds_ne (hne h)).symm
    | team id' | pokemon id' => rfl
  | team id =>
    cases o' with
    | team id' => exact (Array.getElem?_setIfInBounds_ne (hne h)).symm
    | zone id' | pokemon id' => rfl
  | pokemon id =>
    cases o' with
    | pokemon id' => exact (Array.getElem?_setIfInBounds_ne (hne h)).symm
    | zone id' | team id' => rfl

/-- What is the same at an object has the same contents there. -/
theorem contents_congr {s' : Store} (h : s.SameAt s' (.object o)) :
    s.contents o = s'.contents o := by
  have hget : ∀ {α : Type} {xs xs' : Array α} {i : Nat} {d : α}, xs[i]? = xs'[i]? →
      xs.getD i d = xs'.getD i d := by
    intro α xs xs' i d hi
    rw [Array.getD_eq_getD_getElem?, hi, ← Array.getD_eq_getD_getElem?]
  cases o <;> exact hget h

/-- What is read of another object is what was there before. -/
theorem contents_put_of_ne {o' : Object} (h : o ≠ o') (x : o.Contents) :
    (s.put o x).contents o' = s.contents o' :=
  (contents_congr (sameAt_put_of_ne h x)).symm

/-- To put an object leaves the variables alone. -/
@[simp] theorem frames_put (s : Store) (o : Object) (x : o.Contents) :
    (s.put o x).frames = s.frames := by
  cases o <;> rfl

@[simp] theorem fresh_put (s : Store) (o : Object) (x : o.Contents) :
    (s.put o x).fresh = s.fresh := by
  cases o <;> rfl

/-! ### The operations -/

/-- An operation behind a check succeeds if both do. -/
theorem check_bind_eq_ok {α β : Type} {x : Except Fault α} {f : α → StoreM β} {b : β} {s' : Store} :
    (check x >>= f) s = .ok b s' ↔ ∃ a, x = .ok a ∧ f a s = .ok b s' := by
  constructor
  · intro h
    cases x with
    | ok a => exact ⟨a, rfl, h⟩
    | error fault => cases h
  · rintro ⟨a, rfl, h⟩
    exact h

/-! ### What they change -/

/-- All variables are as they were, and so are all objects that were there, other than those that
may be changed. -/
structure SameBut (may : Object → Prop) (s s' : Store) : Prop where
  frames : s'.frames = s.frames
  objects : ∀ o, s.Has (.object o) → ¬ may o → s.SameAt s' (.object o)

namespace SameBut

variable {may : Object → Prop} {s' : Store}

theorem refl (s : Store) : SameBut may s s :=
  ⟨rfl, fun o _ _ ↦ by cases o <;> rfl⟩

/-- To put an object changes that object only. -/
theorem put (s : Store) (o : Object) (x : o.Contents) : SameBut (· = o) s (s.put o x) :=
  ⟨frames_put s o x, fun _ _ hne ↦ sameAt_put_of_ne (Ne.symm hne) x⟩

/-- A new list changes no object. -/
theorem newList (h : SameBut may s s') (items : List Value) :
    SameBut may s (s'.newList items).2 := by
  refine ⟨h.frames, fun o ho hmay ↦ ?_⟩
  have hsame := h.objects o ho hmay
  cases o <;> exact hsame

/-- A new zone takes the place of no object. -/
theorem newZone (s : Store) (z : Zone) : SameBut may s (s.newZone z).2 := by
  refine ⟨rfl, fun o ho _ ↦ ?_⟩
  cases o with
  | zone id => exact (Array.getElem?_eq_getElem ho).trans (Array.getElem?_push_lt ho).symm
  | team id | pokemon id => rfl

theorem newTeam (s : Store) (t : Team) : SameBut may s (s.newTeam t).2 := by
  refine ⟨rfl, fun o ho _ ↦ ?_⟩
  cases o with
  | team id => exact (Array.getElem?_eq_getElem ho).trans (Array.getElem?_push_lt ho).symm
  | zone id | pokemon id => rfl

/-- A new Pokémon takes the place of no object. -/
theorem newPokemon (s : Store) (p : Pokemon) : SameBut may s (s.newPokemon p).2 := by
  refine ⟨rfl, fun o ho _ ↦ ?_⟩
  cases o with
  | pokemon id => exact (Array.getElem?_eq_getElem ho).trans (Array.getElem?_push_lt ho).symm
  | zone id | team id => rfl

end SameBut

/-- What an operation that may change some of the objects leaves behind: if it fails, the store is
exactly as it was, and if it succeeds, it is the same but for these objects. -/
def Confined {α : Type} (may : Object → Prop) (s : Store) : EStateM.Result Fault Store α → Prop
  | .error _ s' => s' = s
  | .ok _ s' => SameBut may s s'

namespace Confined

variable {α β : Type} {may : Object → Prop}

/-- A check that fails leaves the store as it is. -/
theorem check_bind {x : Except Fault α} {f : α → StoreM β} (hf : ∀ a, s.Confined may (f a s)) :
    s.Confined may ((check x >>= f) s) := by
  cases x with
  | ok a => exact hf a
  | error fault => rfl

/-- To answer makes at most a list. -/
theorem ofReply {s' : Store} (h : SameBut may s s') (reply : Reply) :
    s.Confined may (Store.ofReply reply s') := by
  cases reply with
  | value v => exact h
  | roster members => exact h.newList (members.map fun id ↦ .object (.pokemon id))

/-- To read a property changes no object. -/
theorem getProperty (s : Store) (o : Object) (name : String) :
    s.Confined (fun _ ↦ False) (Store.getProperty o name s) := by
  rw [getProperty_eq]
  exact .check_bind fun reply ↦ .ofReply (.refl s) reply

/-- To write a property changes the object at most. -/
theorem setProperty (s : Store) (o : Object) (name : String) (v : Value) :
    s.Confined (· = o) (Store.setProperty o name v s) := by
  rw [setProperty_eq]
  exact .check_bind fun x ↦ SameBut.put s o x

/-- To call a method changes the object at most. -/
theorem callMethod (s : Store) (o : Object) (name : String) (args : List Value)
    (named : List (String × Value)) :
    s.Confined (· = o) (Store.callMethod o name args named s) := by
  rw [callMethod_eq]
  exact .check_bind fun answer ↦ .ofReply (.put s o answer.2) answer.1

/-- To call a native function changes no object that is there. -/
theorem callNative (s : Store) (n : Native) (args : List Value) :
    s.Confined (fun _ ↦ False) (Store.callNative n args s) := by
  cases n with
  | safariZone =>
    rw [callNative_safariZone]
    exact .check_bind fun z ↦ SameBut.newZone s z
  | team => exact .check_bind fun _ ↦ SameBut.newTeam s .new
  | pokemon =>
    rw [callNative_pokemon]
    exact .check_bind fun p ↦ SameBut.newPokemon s p
  | len => exact .check_bind fun _ ↦ SameBut.refl s

end Confined

/-- **A failed operation changes nothing.** Whatever is asked of an object, by whatever name and
with whatever values and arguments: if the operation fails, the store is exactly as it was. If it
succeeds, no other object is changed, and reading a property and calling a native function change
none at all. -/
theorem object_operations_confined (s : Store) (o : Object) (name : String) (v : Value)
    (args : List Value) (named : List (String × Value)) (n : Native) :
    s.Confined (fun _ ↦ False) (getProperty o name s) ∧
      s.Confined (· = o) (setProperty o name v s) ∧
      s.Confined (· = o) (callMethod o name args named s) ∧
      s.Confined (fun _ ↦ False) (callNative n args s) :=
  ⟨.getProperty s o name, .setProperty s o name v, .callMethod s o name args named,
    .callNative s n args⟩

end Store

end SafariScript
