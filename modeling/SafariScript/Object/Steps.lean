import SafariScript.Fault

/-!
# Steps

What acts on a state does so step by step. A fault ends the steps, and what was written before it
stays written.
-/

namespace SafariScript

/-- Steps on a state, which may end in a fault. -/
abbrev Steps (σ : Type) := EStateM Fault σ

namespace Steps

variable {σ τ α : Type}

/-- Raises the fault of a failed check. -/
def check : Except Fault α → Steps σ α
  | .ok a => pure a
  | .error fault => throw fault

/-- Steps on a part of the state. The part goes back to where it was taken from as the steps leave
it, also when they end in a fault. -/
def onPart (part : σ → τ) (replace : τ → σ → σ) (x : Steps τ α) : Steps σ α := fun s ↦
  match x (part s) with
  | .ok a t => .ok a (replace t s)
  | .error fault t => .error fault (replace t s)

/-- Steps on something that is not part of the state yet. It is lost when they end in a fault. -/
def onNew (t : τ) (x : Steps τ Unit) : Steps σ τ := fun s ↦
  match x t with
  | .ok _ t' => .ok t' s
  | .error fault _ => .error fault s

end Steps

end SafariScript
