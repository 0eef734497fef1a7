import Mathlib.Data.List.Forall2
import SafariScript.Proofs.Evaluation.Hosts

/-!
# Equality of values

Two values are equal for a script if they are the same kind of thing and have the same contents,
with a shortcut for lists: those of one number are equal without a look at their items. Here the
shortcut is shown to make no difference. A value of which the lists have lost their numbers
(`Value.unnumbered`) has nothing but its contents left, and equality is equality of that
(`equals_iff`). It follows that equality is an equivalence, and that it does not tell a list from a
copy of it.

Two things are needed. A number has to be on one list only, as it is with all values that a host can
get hold of (`Host.Sound`); and there may be no decimals, since there is a decimal that does not
equal itself, and different integers equal the same decimal (`Value.Exact`). Symmetry needs
neither.
-/

namespace SafariScript

/-! ### Decimals -/

namespace Decimal

open Float.Model in
/-- To compare the other way round gives the opposite. -/
theorem compare_swap (a b : UnpackedFloat) :
    (UnpackedFloat.compare a b).map Ordering.swap = UnpackedFloat.compare b a := by
  cases a with
  | notANumber => cases b <;> rfl
  | infinity s => rcases s with _ | _ <;> rcases b with (_ | _) | _ | _ | _ <;> rfl
  | zero s => rcases b with (_ | _) | _ | _ | ⟨_ | _, _, _, _⟩ <;> rfl
  | finite s m e _ =>
    -- two numbers of one sign are compared by size
    have hsize (m' : Nat) (e' : Int) :
        ((compare e e').then (compare m m')).swap = (compare e' e).then (compare m' m) := by
      rw [Ordering.swap_then, Nat.compare_swap, Int.compare_swap]
    rcases s with _ | _ <;> rcases b with (_ | _) | _ | _ | ⟨_ | _, m', e', _⟩
    any_goals rfl
    · exact congrArg (some ·.swap) (hsize m' e')
    · exact congrArg some (hsize m' e')

theorem beq_comm (x y : Float) : (x == y) = (y == x) := by
  show (x.toModel.unpack.compare y.toModel.unpack == some .eq) =
    (y.toModel.unpack.compare x.toModel.unpack == some .eq)
  rw [← compare_swap]
  rcases y.toModel.unpack.compare x.toModel.unpack with _ | _ | _ | _ <;> rfl

end Decimal

namespace Value

variable {w : Catalogue} {a b c : Value} {as bs : List Value} {i j : Nat}

/-! ### Symmetry -/

/-- Lists are compared alike from both sides, if their elements are. -/
theorem equalsAll_comm (h : ∀ a ∈ as, ∀ b : Value, a.equals b = b.equals a) (bs : List Value) :
    equalsAll as bs = equalsAll bs as := by
  induction as generalizing bs with
  | nil => cases bs <;> rfl
  | cons a as ih =>
    cases bs with
    | nil => rfl
    | cons b bs =>
      rw [equalsAll, equalsAll, h a List.mem_cons_self b,
        ih (fun a' ha' ↦ h a' (List.mem_cons_of_mem _ ha')) bs]

/-- **Equality is symmetric.** -/
theorem equals_comm (a b : Value) : a.equals b = b.equals a := by
  induction a using Value.induction generalizing b with
  | leaf a ha =>
    cases a with
    | list => cases ha
    | int n | decimal x => cases b <;> first | rfl | exact Decimal.beq_comm _ _ | exact BEq.comm
    | _ => cases b <;> first | rfl | exact BEq.comm
  | list i as ih =>
    cases b with
    | list j bs => rw [equals, equals, equalsAll_comm ih bs, BEq.comm]
    | _ => rfl

/-! ### Contents -/

mutual

/-- The value with all lists inside of it made the same but for their items. -/
def unnumbered : Value → Value
  | list _ items => list 0 (unnumberedAll items)
  | v => v

/-- The values with all lists inside of them made the same but for their items. -/
def unnumberedAll : List Value → List Value
  | [] => []
  | v :: vs => v.unnumbered :: unnumberedAll vs

end

/-- The value is listed in the catalogue, and no decimal is inside of it. -/
structure Exact (w : Catalogue) (v : Value) : Prop where
  listed : v.Listed w
  whole : ∀ u ∈ v.parts, u.ty ≠ .decimal

theorem Exact.item {v : Value} (h : (list i as).Exact w) (hv : v ∈ as) : v.Exact w where
  listed u hu := h.listed u (mem_parts_list.2 (.inr ⟨v, hv, hu⟩))
  whole u hu := h.whole u (mem_parts_list.2 (.inr ⟨v, hv, hu⟩))

/-- A number is on one thing only. -/
theorem Exact.eq_of_number? {n : Nat} (ha : a.Exact w) (hb : b.Exact w) (han : a.number? = some n)
    (hbn : b.number? = some n) : a = b :=
  (ha.listed a a.self_mem_parts n han).2.symm.trans (hb.listed b b.self_mem_parts n hbn).2

/-- Lists are equal if they are so element by element. -/
theorem equalsAll_iff_forall₂ :
    equalsAll as bs = true ↔ List.Forall₂ (fun a b ↦ a.equals b = true) as bs := by
  induction as generalizing bs with
  | nil => cases bs <;> simp [equalsAll]
  | cons a as ih => cases bs <;> simp [equalsAll, ih]

theorem equalsAll_iff (h : ∀ a ∈ as, ∀ b ∈ bs, a.equals b = true ↔ a.unnumbered = b.unnumbered) :
    equalsAll as bs = true ↔ unnumberedAll as = unnumberedAll bs := by
  induction as generalizing bs with
  | nil => cases bs <;> simp [equalsAll, unnumberedAll]
  | cons a as ih =>
    cases bs with
    | nil => simp [equalsAll, unnumberedAll]
    | cons b bs =>
      have hitem := h a List.mem_cons_self b List.mem_cons_self
      have hitems : equalsAll as bs = true ↔ unnumberedAll as = unnumberedAll bs :=
        ih fun a' ha' b' hb' ↦ h a' (List.mem_cons_of_mem _ ha') b' (List.mem_cons_of_mem _ hb')
      rw [equalsAll, Bool.and_eq_true, hitem, hitems, unnumberedAll, unnumberedAll,
        List.cons.injEq]

/-- **Equality is equality of contents.** -/
theorem equals_iff (ha : a.Exact w) (hb : b.Exact w) :
    a.equals b = true ↔ a.unnumbered = b.unnumbered := by
  induction a using Value.induction generalizing b with
  | leaf a hleaf =>
    cases a with
    | list => cases hleaf
    | decimal x => exact absurd rfl (ha.whole _ (self_mem_parts _))
    | function f =>
      cases b with
      | function g =>
        simp only [equals, unnumbered, beq_iff_eq]
        exact ⟨fun h ↦ ha.eq_of_number? hb rfl (congrArg some h.symm), fun h ↦ by cases h; rfl⟩
      | _ => simp [equals, unnumbered]
    | int n =>
      cases b with
      | decimal x => exact absurd rfl (hb.whole _ (self_mem_parts _))
      | _ => simp [equals, unnumbered]
    | _ => cases b <;> simp [equals, unnumbered]
  | list i as ih =>
    cases b with
    | list j bs =>
      have hitems : equalsAll as bs = true ↔ unnumberedAll as = unnumberedAll bs :=
        equalsAll_iff fun a ha' b hb' ↦ ih a ha' (ha.item ha') (hb.item hb')
      rw [equals, Bool.or_eq_true, hitems, unnumbered, unnumbered, list.injEq, beq_iff_eq]
      refine ⟨fun h ↦ ⟨rfl, h.elim (fun hij ↦ ?_) id⟩, fun h ↦ .inr h.2⟩
      -- the shortcut: of one number there is one list
      cases ha.eq_of_number? hb rfl (congrArg some hij.symm)
      rfl
    | _ => simp [equals, unnumbered]

/-- The shortcut makes no difference. -/
theorem equals_list_iff (ha : (list i as).Exact w) (hb : (list j bs).Exact w) :
    (list i as).equals (list j bs) = true ↔ equalsAll as bs = true := by
  rw [equals_iff ha hb, equalsAll_iff fun a ha' b hb' ↦ equals_iff (ha.item ha') (hb.item hb'),
    unnumbered, unnumbered, list.injEq]
  exact and_iff_right rfl

/-- **Equality is an equivalence.** Among the values of a catalogue without decimals inside, all
laws of an equivalence hold. Lists are equal if their items are, one by one, whether they are one
and the same or not; and values with the same contents, such as a list and a copy of it, are
interchangeable in every comparison. Equality of all values is symmetric. And all that a host ever
holds are values of one catalogue. -/
theorem equals_equivalence (w : Catalogue) :
    Equivalence (fun a b : {v : Value // v.Exact w} ↦ a.1.equals b.1 = true) ∧
    (∀ i as j bs, (list i as).Exact w → (list j bs).Exact w →
      ((list i as).equals (list j bs) = true ↔
        List.Forall₂ (fun a b ↦ a.equals b = true) as bs)) ∧
    (∀ a b : Value, a.Exact w → b.Exact w → a.unnumbered = b.unnumbered →
      ∀ c : Value, c.Exact w → a.equals c = b.equals c ∧ c.equals a = c.equals b) ∧
    (∀ a b : Value, a.equals b = b.equals a) ∧
    ∀ sink drops requests, ∃ w' : Catalogue,
      ∀ v ∈ ((Host.new sink).run drops requests).2.values, v.Listed w' := by
  refine ⟨⟨fun a ↦ ?_, fun {a b} h ↦ ?_, fun {a b c} h h' ↦ ?_⟩, ?_, ?_, equals_comm, ?_⟩
  · exact (equals_iff a.2 a.2).2 rfl
  · exact (equals_comm b.1 a.1).trans h
  · rw [equals_iff a.2 b.2] at h
    rw [equals_iff b.2 c.2] at h'
    exact (equals_iff a.2 c.2).2 (h.trans h')
  · intro i as j bs ha hb
    rw [equals_list_iff ha hb, equalsAll_iff_forall₂]
  · intro a b ha hb hsame c hc
    have heq : a.equals c = b.equals c := by
      rw [Bool.eq_iff_iff, equals_iff ha hc, equals_iff hb hc, hsame]
    exact ⟨heq, by rw [equals_comm c a, equals_comm c b, heq]⟩
  · intro sink drops requests
    obtain ⟨w', -, hvalues⟩ := (Host.Sound.new sink).run drops requests
    exact ⟨w', hvalues⟩

/-- A list that holds another one twice. -/
def doubled : Value := list 2 [list 0 [.int 1], list 0 [.int 1]]

/-- A list that holds the other one and a copy of it. -/
def copied : Value := list 3 [list 0 [.int 1], list 1 [.int 1]]

/-- The catalogue of these lists. -/
def copies : Catalogue := ⟨4, ([list 0 [.int 1], list 1 [.int 1], doubled, copied].getD · .null)⟩

/-- A copy is equal to what it is a copy of, and equal to the same. -/
theorem equals_equivalence_copies :
    doubled.Exact copies ∧ copied.Exact copies ∧ doubled.equals copied = true ∧
      ∀ c : Value, c.Exact copies → doubled.equals c = copied.equals c := by
  have hdoubled : doubled.Exact copies := by
    constructor <;> simp [Listed, doubled, copies, parts, partsAll, number?, ty]
  have hcopied : copied.Exact copies := by
    constructor <;> simp [Listed, copied, copies, parts, partsAll, number?, ty]
  obtain ⟨hequivalence, -, hcopy, -⟩ := equals_equivalence copies
  have heq : ∀ c : Value, c.Exact copies → doubled.equals c = copied.equals c := fun c hc ↦
    (hcopy _ _ hdoubled hcopied rfl c hc).1
  exact ⟨hdoubled, hcopied, (heq copied hcopied).trans (hequivalence.refl ⟨copied, hcopied⟩), heq⟩

end Value

end SafariScript
