import SafariScript.Store.Basic

/-!
# Computations that mirror each other

A change of the state, of the results and of the errors carries over to outcomes (`image`). One
computation **mirrors** another when it makes the image of an outcome from the image of a state
(`Mirrors`). This passes through the ways in which computations are put together.
-/

namespace SafariScript

/-- The outcome with `f` applied to its error, `h` to its state and `g` to its result. -/
def image {ε σ α β : Type} (f : ε → ε) (h : σ → σ) (g : α → β) :
    EStateM.Result ε σ α → EStateM.Result ε σ β
  | .ok a s => .ok (g a) (h s)
  | .error e s => .error (f e) (h s)

/-- From the image of a state, the second computation has the image of the outcome that the first
one has from the state. -/
def Mirrors {ε σ α β : Type} (f : ε → ε) (h : σ → σ) (g : α → β) (x : EStateM ε σ α)
    (x' : EStateM ε σ β) : Prop :=
  ∀ s, x' (h s) = image f h g (x s)

namespace Mirrors

variable {ε σ α β γ δ : Type} {f : ε → ε} {h : σ → σ} {g : α → β} {k : γ → δ}

/-- Results that mirror each other. -/
theorem pure {a : α} {b : β} (hb : b = g a) :
    Mirrors f h g (Pure.pure a : EStateM ε σ α) (Pure.pure b) := fun s ↦ by
  subst hb
  rfl

theorem throw {e e' : ε} (he : e' = f e) :
    Mirrors f h g (throw e : EStateM ε σ α) (throw e') := fun s ↦ by
  subst he
  rfl

/-- If both parts mirror each other, so do the sequences. -/
theorem bind {x : EStateM ε σ α} {x' : EStateM ε σ β} {y : α → EStateM ε σ γ}
    {y' : β → EStateM ε σ δ} (hx : Mirrors f h g x x') (hy : ∀ a, Mirrors f h k (y a) (y' (g a))) :
    Mirrors f h k (x >>= y) (x' >>= y') := by
  intro s
  show EStateM.bind x' y' (h s) = image f h k (EStateM.bind x y s)
  rw [EStateM.bind, EStateM.bind, hx s]
  cases x s with
  | ok a s' => exact hy a s'
  | error e s' => rfl

/-- What looks at the state looks at its image on the other side. -/
theorem look {y : σ → EStateM ε σ γ} {y' : σ → EStateM ε σ δ}
    (hy : ∀ s, Mirrors f h k (y s) (y' (h s))) : Mirrors f h k (get >>= y) (get >>= y') :=
  fun s ↦ hy s s

/-- Changes of the state that commute with its image. -/
theorem modify {c c' : σ → σ} (hc : ∀ s, c' (h s) = h (c s)) :
    Mirrors f h id (modify c : EStateM ε σ PUnit) (modify c') := fun s ↦
  congrArg (EStateM.Result.ok PUnit.unit) (hc s)

theorem set {t t' : σ} (ht : t' = h t) :
    Mirrors f h id (set t : EStateM ε σ PUnit) (set t') := fun _ ↦
  congrArg (EStateM.Result.ok PUnit.unit) ht

/-- Changes with a result that commute with the image. -/
theorem modifyGet {c : σ → α × σ} {c' : σ → β × σ} (hc : ∀ s, c' (h s) = Prod.map g h (c s)) :
    Mirrors f h g (modifyGet c : EStateM ε σ α) (modifyGet c') := fun s ↦
  congrArg (fun r : β × σ ↦ EStateM.Result.ok r.1 r.2) (hc s)

end Mirrors

end SafariScript
