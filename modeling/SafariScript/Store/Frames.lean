import SafariScript.Value.Basic

/-!
# Frames of variables

A frame binds names to values and stands inside an older frame, or inside none. A name is looked
up along the `path` of a frame: the frame itself, the frame around it, and so on outward. Since a
frame is always younger than the frame around it (`Frames.older`), every path ends.

* `define` binds a name in one frame;
* `assign?` changes the nearest binding along the path, if there is one;
* `set` does the same, and without a binding makes one in the outermost frame.
-/

namespace SafariScript

/-- Names with their values, in ascending order of names. -/
abbrev Bindings := List (String × Value)

namespace Bindings

/-- The value of a name. -/
def get? (name : String) : Bindings → Option Value
  | [] => none
  | (name', value) :: vars => if name = name' then some value else get? name vars

/-- Binds a name, in place of its old value if it has one. -/
def insert (name : String) (value : Value) : Bindings → Bindings
  | [] => [(name, value)]
  | (name', value') :: vars =>
    if name = name' then (name, value) :: vars
    else if name < name' then (name, value) :: (name', value') :: vars
    else (name', value') :: insert name value vars

/-- Reading a name after one binding: the bound name has the new value, all others their old. -/
theorem get?_insert (name name' : String) (value : Value) (vars : Bindings) :
    (vars.insert name value).get? name' = if name' = name then some value else vars.get? name' := by
  induction vars with
  | nil => rfl
  | cons entry vars ih =>
    obtain ⟨key, old⟩ := entry
    by_cases hk : name = key
    · subst hk
      by_cases h : name' = name <;> simp [insert, get?, h]
    · by_cases hlt : name < key
      · simp [insert, get?, hk, hlt]
      · by_cases hn : name' = key
        · subst hn
          simp [insert, get?, hk, hlt, Ne.symm hk]
        · simp [insert, get?, hk, hlt, hn, ih]

end Bindings

/-- A frame: the frame around it, and its bindings. -/
structure Frame where
  parent : Option FrameId
  vars : Bindings
deriving Inhabited

/-- The frames of a store, by number. -/
structure Frames where
  toArray : Array Frame
  /-- A frame is younger than the frame around it. -/
  older : ∀ (i : FrameId) (f : Frame) (p : FrameId),
    toArray[i]? = some f → f.parent = some p → p < i

namespace Frames

/-- The number of frames. -/
def size (fs : Frames) : Nat := fs.toArray.size

/-- No frames. -/
def empty : Frames where
  toArray := #[]
  older i f p hf _ := by simp at hf

/-- A frame by number. -/
def frame? (fs : Frames) (i : FrameId) : Option Frame := fs.toArray[i]?

/-- The bindings of a frame. -/
def vars (fs : Frames) (i : FrameId) : Bindings := ((fs.frame? i).map Frame.vars).getD []

/-- The frame around a frame. -/
def parent? (fs : Frames) (i : FrameId) : Option FrameId := (fs.frame? i).bind Frame.parent

/-- A frame is younger than the frame around it. -/
theorem lt_of_parent? {fs : Frames} {i p : FrameId} (h : fs.parent? i = some p) : p < i := by
  obtain ⟨f, hf, hp⟩ := Option.bind_eq_some_iff.1 h
  exact fs.older i f p hf hp

/-- The frames in which a name is looked up from a frame, innermost first. -/
def path (fs : Frames) (i : FrameId) : List FrameId :=
  match h : fs.parent? i with
  | none => [i]
  | some p =>
    have : p < i := lt_of_parent? h
    i :: fs.path p

/-- The outermost frame around a frame. -/
def root (fs : Frames) (i : FrameId) : FrameId := (fs.path i).getLast?.getD i

/-- The frame that binds a name as seen from a frame. -/
def resolve? (fs : Frames) (i : FrameId) (name : String) : Option FrameId :=
  (fs.path i).find? fun j ↦ ((fs.vars j).get? name).isSome

/-- The value of a name as seen from a frame. -/
def get? (fs : Frames) (i : FrameId) (name : String) : Option Value :=
  (fs.path i).findSome? fun j ↦ (fs.vars j).get? name

/-- Replaces the bindings of a frame. -/
def update (fs : Frames) (i : FrameId) (change : Bindings → Bindings) : Frames where
  toArray := fs.toArray.modify i fun f ↦ { f with vars := change f.vars }
  older j f p hf hp := by
    rw [Array.getElem?_modify] at hf
    split at hf
    · obtain ⟨g, hg, rfl⟩ := Option.map_eq_some_iff.1 hf
      exact fs.older j g p hg hp
    · exact fs.older j f p hf hp

/-- Binds a name in the frame itself. -/
def define (fs : Frames) (i : FrameId) (name : String) (value : Value) : Frames :=
  fs.update i (Bindings.insert name value)

/-- Changes the nearest binding of a name, if there is one. -/
def assign? (fs : Frames) (i : FrameId) (name : String) (value : Value) : Option Frames :=
  match fs.resolve? i name with
  | some j => some (fs.define j name value)
  | none => none

/-- Changes the nearest binding of a name; if there is none, binds it in the outermost frame, and
says so. -/
def set (fs : Frames) (i : FrameId) (name : String) (value : Value) : Bool × Frames :=
  match fs.resolve? i name with
  | some j => (false, fs.define j name value)
  | none => (true, fs.define (fs.root i) name value)

/-- A new frame at the end; the frame around it has to be an old one. -/
def push (fs : Frames) (f : Frame) (h : ∀ p, f.parent = some p → p < fs.size) : Frames where
  toArray := fs.toArray.push f
  older i g p hg hp := by
    rw [Array.getElem?_push] at hg
    split at hg
    · next hi =>
      cases hg
      exact hi ▸ h p hp
    · exact fs.older i g p hg hp

/-- A new frame inside none, and its number. -/
def pushRoot (fs : Frames) : FrameId × Frames :=
  (fs.size, fs.push ⟨none, []⟩ (by simp))

/-- A new frame inside the frame `i`, and its number. -/
def pushChild (fs : Frames) (i : FrameId) : FrameId × Frames :=
  if h : i < fs.size then (fs.size, fs.push ⟨some i, []⟩ (by simpa using h))
  else fs.pushRoot

/-- The frame as reports show it: its names in order, and whether it stands inside none. -/
def outline (fs : Frames) (i : FrameId) : String :=
  r"Environment { names: [" ++
    String.intercalate ", " ((fs.vars i).map fun entry ↦ Text.quote entry.1) ++ "], global: " ++
    boolText (fs.parent? i).isNone ++ r" }"

end Frames

end SafariScript
