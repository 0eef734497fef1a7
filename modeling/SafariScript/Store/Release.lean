import SafariScript.Store.Frames

/-!
# Releasing frames

Those who hold a frame by a handle give it back when they are done with it. A function holds the
frame in which it was defined, and often that frame holds the function: the two keep each other.
When a handle is given back and **nothing but such functions** holds the frame besides it, nobody
can get at the frame any more, and its bindings are dropped.

What holds what is counted over the whole graph of frames, lists and functions. A list or a
function is one thing however many places refer to it, so its own references count once.
-/

namespace SafariScript

/-- The frames and values that are held from outside the store. -/
structure Roots where
  handles : List FrameId
  values : List Value

namespace Value

mutual

/-- The lists inside a value, itself included, with their numbers. -/
def lists : Value → List (Nat × List Value)
  | list id items => (id, items) :: listsAll items
  | _ => []

/-- The lists inside values. -/
def listsAll : List Value → List (Nat × List Value)
  | [] => []
  | v :: vs => lists v ++ listsAll vs

end

/-- The function, if the value is one. -/
def function? : Value → Option Function
  | function f => some f
  | _ => none

end Value

namespace Frames

/-- The values that frames and roots hold directly. -/
def held (fs : Frames) (roots : Roots) : List Value :=
  fs.toArray.toList.flatMap (fun f ↦ f.vars.map Prod.snd) ++ roots.values

/-- Every place that refers to a value: those of frames and roots, and those of each list once. -/
def places (fs : Frames) (roots : Roots) : List Value :=
  let held := fs.held roots
  held ++ ((Value.listsAll held).eraseDupsBy fun l l' ↦ l.1 == l'.1).flatMap Prod.snd

/-- The functions that are referred to, each once. -/
def functions (fs : Frames) (roots : Roots) : List Function :=
  ((fs.places roots).filterMap Value.function?).eraseDupsBy fun f f' ↦ f.id == f'.id

/-- How many places refer to a function. -/
def functionCount (fs : Frames) (roots : Roots) (f : Function) : Nat :=
  ((fs.places roots).filterMap Value.function?).countP fun f' ↦ f'.id == f.id

/-- How many handles, younger frames and functions refer to a frame. -/
def frameCount (fs : Frames) (roots : Roots) (i : FrameId) : Nat :=
  roots.handles.count i + fs.toArray.toList.countP (fun f ↦ f.parent == some i) +
    (fs.functions roots).countP fun f ↦ f.closure == i

/-- Whether a value is a function that was defined in the frame and is referred to only once. -/
def isOwnClosure (fs : Frames) (roots : Roots) (i : FrameId) (v : Value) : Bool :=
  match v with
  | .function f => fs.functionCount roots f == 1 && f.closure == i
  | _ => false

/-- Gives back one of the handles on a frame; `roots` still has it. -/
def release (fs : Frames) (roots : Roots) (i : FrameId) : Frames :=
  let own := (fs.vars i).countP fun entry ↦ fs.isOwnClosure roots i entry.2
  if fs.frameCount roots i = 1 + own then fs.update i fun _ ↦ [] else fs

end Frames

end SafariScript
