import SafariScript.Proofs.Evaluation.Bounds
import SafariScript.Store.Basic

/-!
# Operations on the store

Evaluation changes the store by a few operations: it makes lists, functions and frames, binds and
assigns variables, asks and changes objects, and throws balls. `StoreOp` is such an operation with
all it is given, and `StoreOp.apply` what it makes of a store. A failed operation is one, too: it
leaves the store that it had reached.

What a run does to the store is then a list of operations (`Store.after`), and what a run may do is
said by what its operations do to objects (`Store.Leads`). A property of stores that every operation
keeps is kept by all runs, also halfway.
-/

namespace SafariScript

/-- The store that a computation leaves behind, whatever its outcome. -/
def Store.behind {α : Type} : EStateM.Result Fault Store α → Store
  | .ok _ s => s
  | .error _ s => s

/-- An operation on the store. -/
inductive StoreOp where
  | newList (items : List Value)
  | newFunction (name : String) (params : List String) (body : List Stmt) (closure : FrameId)
  | newFrame (around : FrameId)
  | define (frame : FrameId) (name : String) (v : Value)
  | assign (frame : FrameId) (name : String) (v : Value)
  | getProperty (o : Object) (name : String)
  | setProperty (o : Object) (name : String) (v : Value)
  | callMethod (o : Object) (name : String) (args : List Value) (named : List (String × Value))
  | callNative (n : Native) (args : List Value)
  | throwBall (zone : Nat) (target : PokemonId)

namespace StoreOp

/-- The store behind the operation. -/
def apply (s : Store) : StoreOp → Store
  | newList items => (s.newList items).2
  | newFunction name params body closure => (s.newFunction name params body closure).2
  | newFrame around => (s.newFrame around).2
  | define frame name v => s.define frame name v
  | assign frame name v => (s.assign frame name v).2
  | getProperty o name => Store.behind (Store.getProperty o name s)
  | setProperty o name v => Store.behind (Store.setProperty o name v s)
  | callMethod o name args named => Store.behind (Store.callMethod o name args named s)
  | callNative n args => Store.behind (Store.callNative n args s)
  | throwBall zone target => (s.throwBall zone target).2

/-- What the operation does to an object, if it is one that a program has to ask for. -/
def act? : StoreOp → Option Act
  | setProperty _ name _ => some (.write name)
  | callMethod _ name _ _ => some (.call name)
  | throwBall _ _ => some .throwBall
  | _ => none

end StoreOp

namespace Store

/-- The store behind the operations, one after the other. -/
def after (s : Store) (ops : List StoreOp) : Store := ops.foldl StoreOp.apply s

/-- Operations followed by operations. -/
theorem after_append (s : Store) (ops ops' : List StoreOp) :
    s.after (ops ++ ops') = (s.after ops).after ops' :=
  List.foldl_append

/-- Operations that do no more to objects than is allowed lead from the one store to the other. -/
def Leads (allowed : Act → Prop) (s s' : Store) : Prop :=
  ∃ ops, s' = s.after ops ∧ ∀ op ∈ ops, ∀ a ∈ op.act?, allowed a

namespace Leads

variable {allowed : Act → Prop} {s s' s'' : Store}

theorem refl (s : Store) : Leads allowed s s := ⟨[], rfl, nofun⟩

/-- What is allowed twice is allowed once. -/
theorem trans (h : Leads allowed s s') (h' : Leads allowed s' s'') : Leads allowed s s'' := by
  obtain ⟨ops, rfl, hops⟩ := h
  obtain ⟨ops', rfl, hops'⟩ := h'
  exact ⟨ops ++ ops', (after_append ..).symm, List.forall_mem_append.2 ⟨hops, hops'⟩⟩

/-- One operation that is allowed. -/
theorem op (op : StoreOp) (hop : ∀ a ∈ op.act?, allowed a) : Leads allowed s (op.apply s) :=
  ⟨[op], rfl, List.forall_mem_singleton.2 hop⟩

/-- Parameters are bound by definitions, which every program may do. -/
theorem defineAll (s : Store) (frame : FrameId) (bindings : List (String × Value)) :
    Leads allowed s (s.defineAll frame bindings) := by
  induction bindings generalizing s with
  | nil => exact .refl s
  | cons b bindings ih =>
    have hone : Leads allowed s (s.define frame b.1 b.2) := .op (.define frame b.1 b.2) nofun
    exact hone.trans (ih (s.define frame b.1 b.2))

end Leads

end Store

end SafariScript
