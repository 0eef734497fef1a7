import SafariScript.Power
import SafariScript.Proofs.Store.Operations
import SafariScript.Proofs.Store.References

/-!
# The counters of zones

A zone counts balls and turns in integers of 64 bits, and neither count is ever negative
(`Zone.InRange`). Four things write them: a property that is written to, a method that raises a
counter, a throw, and the making of a zone. Each of them checks before it writes, so what it writes
is what the arithmetic of **all integers** gives: nothing wraps around (`CounterStep`).

So every operation on the store changes each zone by such a step, and the zones that it makes are in
range (`StoreOp.counterStep`, `StoreOp.inRange_created`). A store whose zones are in range stays so
along all operations (`Store.InRange.after`).
-/

namespace SafariScript

open scoped Power

/-! ### Integers -/

/-- A checked sum is the sum of the integers. -/
theorem Integer.toInt_of_add? {a b n : Int64} (h : Integer.add? a b = some n) :
    n.toInt = a.toInt + b.toInt := by
  unfold Integer.add? Integer.ofInt? at h
  split at h
  · next hbounds =>
    cases h
    exact Int64.toInt_ofInt_of_le hbounds.1 hbounds.2
  · cases h

theorem Integer.toInt_nonneg {n : Int64} (h : ¬ n < 0) : 0 ≤ n.toInt := by
  rw [Int64.lt_iff_toInt_lt, Int64.toInt_zero] at h
  exact Int.not_lt.1 h

/-- One can be taken from what is positive. -/
theorem Integer.toInt_pred {n : Int64} (h : ¬ n ≤ 0) :
    0 < n.toInt ∧ (n - 1).toInt = n.toInt - 1 := by
  rw [Int64.le_iff_toInt_le, Int64.toInt_zero] at h
  have hpos : 0 < n.toInt := Int.not_le.1 h
  have hone : 1 ≤ n := by
    rw [Int64.le_iff_toInt_le, Int64.toInt_one]
    exact hpos
  exact ⟨hpos, (Int64.toInt_sub_of_le n 1 (by decide) hone).trans (by rw [Int64.toInt_one])⟩

/-! ### Zones -/

/-- Neither counter is negative, and both are integers of 64 bits. -/
structure Zone.InRange (z : Zone) : Prop where
  balls : 0 ≤ z.balls.toInt ∧ z.balls.toInt ≤ 2 ^ (63 : Nat) - 1
  turns : 0 ≤ z.turns.toInt ∧ z.turns.toInt ≤ 2 ^ (63 : Nat) - 1

/-- Integers of 64 bits are never too large, so it is enough that none is negative. -/
theorem Zone.InRange.of_nonneg {z : Zone} (hballs : 0 ≤ z.balls.toInt)
    (hturns : 0 ≤ z.turns.toInt) : z.InRange :=
  ⟨⟨hballs, Int.le_sub_one_of_lt z.balls.toInt_lt⟩, ⟨hturns, Int.le_sub_one_of_lt z.turns.toInt_lt⟩⟩

/-- How an operation may change the counters of the zone `z` with the number `id`: not at all; by
writing to the property; by a method that raises the counter by an amount; or by a throw in this
zone, which takes one ball and one turn. -/
inductive CounterStep (id : Nat) (z z' : Zone) : StoreOp → Prop
  | kept {op : StoreOp} : z'.balls = z.balls → z'.turns = z.turns → CounterStep id z z' op
  | writeBalls {v : Value} : Arguments.toCounter (.property .zone "balls") v = .ok z'.balls →
    0 ≤ z'.balls.toInt → z'.turns = z.turns →
    CounterStep id z z' (.setProperty (.zone id) "balls" v)
  | writeTurns {v : Value} : Arguments.toCounter (.property .zone "turns") v = .ok z'.turns →
    0 ≤ z'.turns.toInt → z'.balls = z.balls →
    CounterStep id z z' (.setProperty (.zone id) "turns" v)
  | addBalls {n : Int64} : 0 ≤ n.toInt → z'.balls.toInt = z.balls.toInt + n.toInt →
    z'.turns = z.turns → CounterStep id z z' (.callMethod (.zone id) "addBalls" [.int n] [])
  | addTurns {n : Int64} : 0 ≤ n.toInt → z'.turns.toInt = z.turns.toInt + n.toInt →
    z'.balls = z.balls → CounterStep id z z' (.callMethod (.zone id) "addTurns" [.int n] [])
  | throwBall {target : PokemonId} : 0 < z.balls.toInt → 0 < z.turns.toInt →
    z'.balls.toInt = z.balls.toInt - 1 → z'.turns.toInt = z.turns.toInt - 1 →
    CounterStep id z z' (.throwBall id target)

/-- A step keeps the counters in range. -/
theorem CounterStep.inRange {id : Nat} {z z' : Zone} {op : StoreOp} (h : CounterStep id z z' op)
    (hz : z.InRange) : z'.InRange := by
  obtain ⟨⟨hballs, -⟩, hturns, -⟩ := hz
  cases h with
  | kept hb ht => exact .of_nonneg (hb ▸ hballs) (ht ▸ hturns)
  | writeBalls _ hb ht => exact .of_nonneg hb (ht ▸ hturns)
  | writeTurns _ ht hb => exact .of_nonneg (hb ▸ hballs) ht
  | addBalls hn hb ht => exact .of_nonneg (by omega) (ht ▸ hturns)
  | addTurns hn ht hb => exact .of_nonneg (hb ▸ hballs) (by omega)
  | throwBall hb ht hb' ht' => exact .of_nonneg (by omega) (by omega)

/-- A value that is accepted as a counter is not negative. -/
theorem toCounter_nonneg {place : Place} {v : Value} {n : Int64}
    (h : Arguments.toCounter place v = .ok n) : 0 ≤ n.toInt := by
  obtain ⟨k, -, hk⟩ := Except.of_bind_eq_ok h
  split at hk
  · cases hk
  · next hneg =>
    cases hk
    exact Integer.toInt_nonneg hneg

/-- A write to a zone is such a step. -/
theorem CounterStep.of_set {id : Nat} {z z' : Zone} {name : String} {v : Value}
    (h : z.withProperty name v = .ok z') :
    CounterStep id z z' (.setProperty (.zone id) name v) := by
  unfold Zone.withProperty at h
  dsimp only at h
  split at h
  case h_1 =>
    obtain ⟨n, hn, h⟩ := Except.of_bind_eq_ok h
    cases h
    exact .writeBalls hn (toCounter_nonneg hn) rfl
  case h_2 =>
    obtain ⟨n, hn, h⟩ := Except.of_bind_eq_ok h
    cases h
    exact .writeTurns hn (toCounter_nonneg hn) rfl
  all_goals cases h

/-- A counter is raised by the one argument of the method, exactly. -/
theorem eq_of_raised {counter n : Int64} {method : String} {args : List Value}
    (h : Zone.raised counter method args = .ok n) :
    ∃ k : Int64, args = [.int k] ∧ 0 ≤ k.toInt ∧ n.toInt = counter.toInt + k.toInt := by
  obtain ⟨v, hone, h⟩ := Except.of_bind_eq_ok h
  obtain ⟨k, hint, h⟩ := Except.of_bind_eq_ok h
  have hargs : args = [v] := Arguments.one_eq_ok.1 hone
  have hv : v = .int k := by
    cases v <;> cases hint
    rfl
  split at h
  · cases h
  · next hneg =>
    split at h
    · next hsum =>
      cases h
      exact ⟨k, by rw [hargs, hv], Integer.toInt_nonneg hneg, Integer.toInt_of_add? hsum⟩
    · cases h

/-- A method of a zone is such a step. -/
theorem CounterStep.of_call {id : Nat} {z z' : Zone} {name : String} {args : List Value}
    {named : List (String × Value)} {reply : Reply}
    (h : z.answer name args named = .ok (reply, z')) :
    CounterStep id z z' (.callMethod (.zone id) name args named) := by
  obtain ⟨_, hnamed, hcall⟩ := Except.of_bind_eq_ok h
  obtain rfl := Arguments.noneNamed_eq_ok.1 hnamed
  split at hcall
  · obtain ⟨n, hn, hz'⟩ := Except.of_bind_eq_ok hcall
    obtain ⟨k, rfl, hk, hsum⟩ := eq_of_raised hn
    cases hz'
    exact .addBalls hk hsum rfl
  · obtain ⟨n, hn, hz'⟩ := Except.of_bind_eq_ok hcall
    obtain ⟨k, rfl, hk, hsum⟩ := eq_of_raised hn
    cases hz'
    exact .addTurns hk hsum rfl
  · obtain ⟨v, -, hwild⟩ := Except.of_bind_eq_ok hcall
    obtain ⟨p, -, hz'⟩ := Except.of_bind_eq_ok hwild
    cases hz'
    exact .kept rfl rfl
  · cases hcall

/-- A throw takes a ball and a turn if there is one of each, or it changes nothing. -/
theorem CounterStep.of_throwBall (id : Nat) (z : Zone) (target : PokemonId) (p : Pokemon) :
    CounterStep id z (z.throwBall target p).2.1 (.throwBall id target) := by
  unfold Zone.throwBall
  split
  · exact .kept rfl rfl
  split
  · exact .kept rfl rfl
  next hballs =>
  split
  · exact .kept rfl rfl
  next hturns =>
  obtain ⟨hb, hb'⟩ := Integer.toInt_pred hballs
  obtain ⟨ht, ht'⟩ := Integer.toInt_pred hturns
  dsimp only
  split
  · exact .throwBall hb ht hb' ht'
  · exact .throwBall hb ht hb' ht'

/-- A zone is made in range. -/
theorem inRange_of_describedZone {args : List Value} {z : Zone}
    (h : Store.describedZone args = .ok z) : z.InRange := by
  unfold Store.describedZone at h
  split at h
  · obtain ⟨balls, hballs, h⟩ := Except.of_bind_eq_ok h
    obtain ⟨turns, hturns, h⟩ := Except.of_bind_eq_ok h
    cases h
    exact .of_nonneg (toCounter_nonneg hballs) (toCounter_nonneg hturns)
  · cases h

/-! ### Operations -/

/-- What an operation makes of the zones, by the way it does it. -/
inductive ZonesAfter (s : Store) (op : StoreOp) : Array Zone → Prop
  | same : ZonesAfter s op s.zones
  | changed {id : Nat} {z : Zone} : CounterStep id (s.zone id) z op →
    ZonesAfter s op (s.zones.setIfInBounds id z)
  | created {z : Zone} : z.InRange → ZonesAfter s op (s.zones.push z)

namespace ZonesAfter

variable {s : Store} {op : StoreOp}

/-- A check in front of a computation. -/
theorem check_bind {α β : Type} {x : Except Fault α} {f : α → StoreM β}
    (hf : ∀ a, x = .ok a → ZonesAfter s op (Store.behind (f a s)).zones) :
    ZonesAfter s op (Store.behind ((Steps.check x >>= f) s)).zones := by
  cases x with
  | ok a => exact hf a rfl
  | error fault => exact .same

/-- The making of a list changes no zone. -/
theorem ofReply (s' : Store) (h : ZonesAfter s op s'.zones) (reply : Reply) :
    ZonesAfter s op (Store.behind (Store.ofReply reply s')).zones := by
  cases reply <;> exact h

theorem getProperty (s : Store) (o : Object) (name : String) :
    ZonesAfter s (.getProperty o name) (Store.behind (Store.getProperty o name s)).zones := by
  rw [Store.getProperty_eq]
  exact .check_bind fun reply _ ↦ .ofReply s .same reply

/-- A write changes one zone at most, by a step. -/
theorem setProperty (s : Store) (o : Object) (name : String) (v : Value) :
    ZonesAfter s (.setProperty o name v) (Store.behind (Store.setProperty o name v s)).zones := by
  rw [Store.setProperty_eq]
  refine .check_bind fun x hx ↦ ?_
  cases o with
  | zone id => exact .changed (.of_set hx)
  | team id | pokemon id => exact .same

/-- A method changes one zone at most, by a step. -/
theorem callMethod (s : Store) (o : Object) (name : String) (args : List Value)
    (named : List (String × Value)) : ZonesAfter s (.callMethod o name args named)
      (Store.behind (Store.callMethod o name args named s)).zones := by
  rw [Store.callMethod_eq]
  refine .check_bind fun answer h ↦ .ofReply (s.put o answer.2) ?_ answer.1
  cases o with
  | zone id => exact .changed (.of_call h)
  | team id | pokemon id => exact .same

/-- A native function may make a zone, in range. -/
theorem callNative (s : Store) (n : Native) (args : List Value) :
    ZonesAfter s (.callNative n args) (Store.behind (Store.callNative n args s)).zones := by
  cases n with
  | safariZone =>
    rw [Store.callNative_safariZone]
    exact .check_bind fun z hz ↦ .created (inRange_of_describedZone hz)
  | team => exact .check_bind fun _ _ ↦ .same
  | pokemon =>
    rw [Store.callNative_pokemon]
    exact .check_bind fun _ _ ↦ .same
  | len => exact .check_bind fun _ _ ↦ .same

end ZonesAfter

/-- Every operation changes one zone at most, or makes one. -/
theorem StoreOp.zonesAfter (op : StoreOp) (s : Store) : ZonesAfter s op (op.apply s).zones := by
  cases op with
  | newList | newFunction | newFrame | define | assign => exact .same
  | getProperty o name => exact .getProperty s o name
  | setProperty o name v => exact .setProperty s o name v
  | callMethod o name args named => exact .callMethod s o name args named
  | callNative n args => exact .callNative s n args
  | throwBall zone target => exact .changed (.of_throwBall zone (s.zone zone) target _)

/-- **One operation.** An operation keeps every zone, and changes its counters by a step. -/
theorem StoreOp.counterStep (op : StoreOp) {s : Store} {id : Nat} {z : Zone}
    (hz : s.zones[id]? = some z) :
    ∃ z', (op.apply s).zones[id]? = some z' ∧ CounterStep id z z' op := by
  have hzones := op.zonesAfter s
  generalize (op.apply s).zones = zones at hzones ⊢
  cases hzones with
  | same => exact ⟨z, hz, .kept rfl rfl⟩
  | @changed id' z' hstep =>
    rw [Array.getElem?_setIfInBounds]
    split
    · next hid =>
      subst hid
      obtain ⟨hlt, -⟩ := Array.getElem?_eq_some_iff.1 hz
      have hzone : s.zone id' = z := by
        unfold Store.zone
        rw [Array.getD_eq_getD_getElem?, hz, Option.getD_some]
      exact ⟨z', by rw [if_pos hlt], hzone ▸ hstep⟩
    · exact ⟨z, hz, .kept rfl rfl⟩
  | created _ =>
    obtain ⟨hlt, -⟩ := Array.getElem?_eq_some_iff.1 hz
    rw [Array.getElem?_push, if_neg (Nat.ne_of_lt hlt)]
    exact ⟨z, hz, .kept rfl rfl⟩

/-- The counters of all zones are in range. -/
def Store.InRange (s : Store) : Prop := ∀ (id : Nat) (z : Zone), s.zones[id]? = some z → z.InRange

/-- A zone that an operation makes is in range. -/
theorem StoreOp.inRange_created (op : StoreOp) {s : Store} {id : Nat} {z : Zone}
    (hnew : s.zones[id]? = none) (hz : (op.apply s).zones[id]? = some z) : z.InRange := by
  have hzones := op.zonesAfter s
  generalize (op.apply s).zones = zones at hzones hz
  cases hzones with
  | same => cases hnew.symm.trans hz
  | changed _ =>
    rw [Array.getElem?_setIfInBounds] at hz
    split at hz
    · next hid =>
      subst hid
      rw [if_neg (Nat.not_lt.2 (Array.getElem?_eq_none_iff.1 hnew))] at hz
      cases hz
    · cases hnew.symm.trans hz
  | created hrange =>
    rw [Array.getElem?_push] at hz
    split at hz
    · cases hz
      exact hrange
    · cases hnew.symm.trans hz

namespace Store.InRange

variable {s : Store}

/-- Every operation keeps all zones in range. -/
theorem apply (h : s.InRange) (op : StoreOp) : (op.apply s).InRange := by
  intro id z' hz'
  cases hz : s.zones[id]? with
  | none => exact op.inRange_created hz hz'
  | some z =>
    obtain ⟨z'', hz'', hstep⟩ := op.counterStep hz
    cases hz''.symm.trans hz'
    exact hstep.inRange (h id z hz)

/-- **All operations.** The counters stay in range along any operations. -/
theorem after (h : s.InRange) (ops : List StoreOp) : (s.after ops).InRange := by
  induction ops generalizing s with
  | nil => exact h
  | cons op ops ih => exact ih (h.apply op)

end Store.InRange

end SafariScript
