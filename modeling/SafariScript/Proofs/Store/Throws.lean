import SafariScript.Proofs.Store.Counters
import SafariScript.Proofs.Store.Objects

/-!
# The account of throws

A session throws balls in a zone at one Pokémon after the other, in any order and at some of them
again and again. `Store.throwAll` makes such throws and records what became of each.

`Accounted` is what a record accounts for: what the throws cost, who left the zone, who is captured,
and that nothing else is changed. It holds of one throw (`Accounted.single`) and of two records one
behind the other (`Accounted.append`), and so of all throws.

The targets are Pokémon of the store, whether they are in the zone or not. A number without a
Pokémon cannot be marked as captured and could be caught twice.
-/

namespace SafariScript

/-- The outcomes that cost a ball and a turn. -/
def ThrowOutcome.spends : ThrowOutcome → Bool
  | caught | brokeFree => true
  | alreadyCaught | noBalls | gameOver => false

/-- The outcomes in a zone without balls or without turns. -/
def ThrowOutcome.isOver : ThrowOutcome → Bool
  | noBalls | gameOver => true
  | alreadyCaught | caught | brokeFree => false

/-- Where nothing is left nothing is spent. -/
theorem ThrowOutcome.spends_of_isOver {o : ThrowOutcome} (h : o.isOver = true) :
    o.spends = false := by
  revert h
  cases o <;> decide

/-- A throw and what became of it. -/
structure Throw where
  target : PokemonId
  outcome : ThrowOutcome
deriving DecidableEq

/-- The number of throws that cost a ball and a turn. -/
def spent (record : List Throw) : Nat := record.countP (·.outcome.spends)

/-- Two records spend what each of them spends. -/
theorem spent_append (record record' : List Throw) :
    spent (record ++ record') = spent record + spent record' :=
  List.countP_append

/-- Throws balls in a zone at the targets, one after the other, and records what became of them. -/
def Store.throwAll (zone : Nat) : List PokemonId → Store → List Throw × Store
  | [], s => ([], s)
  | target :: targets, s =>
    let (outcome, s') := s.throwBall zone target
    let (record, s'') := throwAll zone targets s'
    (⟨target, outcome⟩ :: record, s'')

/-- **What a record accounts for**, between the store in front of the throws and the store behind
them. -/
structure Accounted (zone : Nat) (s : Store) (record : List Throw) (s' : Store) : Prop where
  /-- Each throw that costs something takes one ball. -/
  balls : (s'.zone zone).balls.toInt = (s.zone zone).balls.toInt - spent record
  /-- And one turn. -/
  turns : (s'.zone zone).turns.toInt = (s.zone zone).turns.toInt - spent record
  /-- A zone without balls or without turns has nothing to spend. -/
  nothing_spent : (s.zone zone).balls.toInt ≤ 0 ∨ (s.zone zone).turns.toInt ≤ 0 → spent record = 0
  /-- Any other zone spends no more than it has of both. -/
  spent_le : 0 < (s.zone zone).balls.toInt → 0 < (s.zone zone).turns.toInt →
    (spent record : Int) ≤ min (s.zone zone).balls.toInt (s.zone zone).turns.toInt
  /-- When a throw was refused for want of balls or turns, they are still wanting at the end. -/
  wanting : ∀ r ∈ record, r.outcome.isOver = true →
    (s'.zone zone).balls.toInt ≤ 0 ∨ (s'.zone zone).turns.toInt ≤ 0
  /-- And no later throw costs anything. -/
  stopped : record.Pairwise fun r r' ↦ r.outcome.isOver = true → r'.outcome.spends = false
  /-- A Pokémon that was captured before stays so. -/
  already : ∀ r ∈ record, (s.pokemonAt r.target).captured = true → r.outcome = .alreadyCaught
  /-- A Pokémon that is caught is not caught again. -/
  once : record.Pairwise fun r r' ↦ r.target = r'.target → r.outcome = .caught →
    r'.outcome = .alreadyCaught
  /-- Those that were caught leave the zone, as often as they are in it, and the others keep their
  order. -/
  wild : (s'.zone zone).wild = (s.zone zone).wild.filter fun id ↦ ⟨id, .caught⟩ ∉ record
  /-- Those that were caught are captured, besides those that were so before. -/
  captured_iff : ∀ id, (s'.pokemonAt id).captured = true ↔
    (s.pokemonAt id).captured = true ∨ ⟨id, .caught⟩ ∈ record
  /-- No other attribute of a Pokémon is changed. -/
  pokemon : ∀ id, s'.pokemonAt id = { s.pokemonAt id with captured := (s'.pokemonAt id).captured }
  /-- Nothing else is changed in the store. -/
  elsewhere : s' = { s with
    zones := s.zones.setIfInBounds zone (s'.zone zone)
    pokemon := s'.pokemon } ∧ s'.pokemon.size = s.pokemon.size

/-- A Pokémon that is not caught is not changed. -/
theorem Accounted.pokemonAt_eq {zone : Nat} {s s' : Store} {record : List Throw}
    (h : Accounted zone s record s') {id : PokemonId} (hid : ⟨id, .caught⟩ ∉ record) :
    s'.pokemonAt id = s.pokemonAt id := by
  have hcaptured : (s'.pokemonAt id).captured = (s.pokemonAt id).captured := by
    rw [Bool.eq_iff_iff, h.captured_iff id]
    exact or_iff_left hid
  rw [h.pokemon id, hcaptured]

/-- A throw that is refused for want of balls or turns is the last that changes the counters. -/
theorem Accounted.counters_of_over {zone : Nat} {s s' : Store} {before after : List Throw}
    {r : Throw} (h : Accounted zone s (before ++ r :: after) s') (hr : r.outcome.isOver = true) :
    (s'.zone zone).balls.toInt = (s.zone zone).balls.toInt - spent before ∧
      (s'.zone zone).turns.toInt = (s.zone zone).turns.toInt - spent before := by
  obtain ⟨hstopped, -⟩ := List.pairwise_cons.1 (List.pairwise_append.1 h.stopped).2.1
  have hnone : spent (r :: after) = 0 := by
    refine List.countP_eq_zero.2 (List.forall_mem_cons.2 ⟨?_, fun r' hr' ↦ ?_⟩)
    · rw [ThrowOutcome.spends_of_isOver hr]
      exact Bool.false_ne_true
    · rw [hstopped r' hr' hr]
      exact Bool.false_ne_true
  have hballs := h.balls
  have hturns := h.turns
  rw [spent_append] at hballs hturns
  omega

/-! ### One throw -/

/-- What a throw makes of the zone `z` and of its target `p`, by its outcome. -/
inductive Zone.Thrown (z : Zone) (id : PokemonId) (p : Pokemon) :
    ThrowOutcome → Zone → Pokemon → Prop
  | refused {o : ThrowOutcome} : o.spends = false → (p.captured = true → o = .alreadyCaught) →
    (o.isOver = true → z.balls.toInt ≤ 0 ∨ z.turns.toInt ≤ 0) → Thrown z id p o z p
  | made {o : ThrowOutcome} {z' : Zone} {p' : Pokemon} : o.spends = true → p.captured = false →
    0 < z.balls.toInt → 0 < z.turns.toInt → z'.balls.toInt = z.balls.toInt - 1 →
    z'.turns.toInt = z.turns.toInt - 1 →
    z'.wild = z.wild.filter (fun id' ↦ ¬ (id' = id ∧ o = .caught)) →
    p' = { p with captured := decide (o = .caught) } → Thrown z id p o z' p'

/-- Every throw has one of the outcomes. -/
theorem Zone.thrown (z : Zone) (id : PokemonId) (p : Pokemon) :
    z.Thrown id p (z.throwBall id p).1 (z.throwBall id p).2.1 (z.throwBall id p).2.2 := by
  unfold Zone.throwBall
  split
  · exact .refused rfl (fun _ ↦ rfl) fun h ↦ Bool.noConfusion h
  next hfree =>
  split
  · next hballs =>
    rw [Int64.le_iff_toInt_le, Int64.toInt_zero] at hballs
    exact .refused rfl (fun h ↦ absurd h hfree) fun _ ↦ .inl hballs
  next hballs =>
  split
  · next hturns =>
    rw [Int64.le_iff_toInt_le, Int64.toInt_zero] at hturns
    exact .refused rfl (fun h ↦ absurd h hfree) fun _ ↦ .inr hturns
  next hturns =>
  obtain ⟨hb, hb'⟩ := Integer.toInt_pred hballs
  obtain ⟨ht, ht'⟩ := Integer.toInt_pred hturns
  rw [Bool.not_eq_true] at hfree
  dsimp only
  split
  · exact .made rfl hfree hb ht hb' ht' (by simp) rfl
  · refine .made rfl hfree hb ht hb' ht' (List.filter_eq_self.2 (by simp)).symm ?_
    exact congrArg (fun c ↦ { p with captured := c }) hfree

namespace Accounted

variable {s s' s'' : Store} {zone : Nat} {record record' : List Throw}

theorem nil (s : Store) (zone : Nat) : Accounted zone s [] s where
  balls := (Int.sub_zero _).symm
  turns := (Int.sub_zero _).symm
  nothing_spent _ := rfl
  spent_le hballs hturns := by
    show (0 : Int) ≤ _
    omega
  wanting r hr := absurd hr List.not_mem_nil
  stopped := .nil
  already r hr := absurd hr List.not_mem_nil
  once := .nil
  wild := (List.filter_eq_self.2 (by simp)).symm
  captured_iff id := by simp
  pokemon id := rfl
  elsewhere := ⟨(s.put_contents (.zone zone)).symm, rfl⟩

theorem mem_single {r : Throw} {id : PokemonId} :
    ⟨id, .caught⟩ ∈ [r] ↔ id = r.target ∧ r.outcome = .caught := by
  rw [List.mem_singleton, eq_comm (a := r.outcome), ← Throw.mk.injEq]

/-- A throw that is refused leaves the store as it is. -/
theorem refused {r : Throw} (hspends : r.outcome.spends = false)
    (halready : (s.pokemonAt r.target).captured = true → r.outcome = .alreadyCaught)
    (hover : r.outcome.isOver = true →
      (s.zone zone).balls.toInt ≤ 0 ∨ (s.zone zone).turns.toInt ≤ 0) :
    Accounted zone s [r] s := by
  have hspent : spent [r] = 0 := by simp [spent, hspends]
  have hcaught : ∀ id, ⟨id, .caught⟩ ∉ [r] := by
    intro id hmem
    rw [(mem_single.1 hmem).2] at hspends
    cases hspends
  exact {
    balls := by omega
    turns := by omega
    nothing_spent := fun _ ↦ hspent
    spent_le := by omega
    wanting := List.forall_mem_singleton.2 hover
    stopped := List.pairwise_singleton ..
    already := List.forall_mem_singleton.2 halready
    once := List.pairwise_singleton ..
    wild := (List.filter_eq_self.2 fun id _ ↦ decide_eq_true (hcaught id)).symm
    captured_iff := fun id ↦ (or_iff_left (hcaught id)).symm
    pokemon := fun _ ↦ rfl
    elsewhere := ⟨(s.put_contents (.zone zone)).symm, rfl⟩ }

/-- A throw that is made takes a ball and a turn, and its target out of the zone if it is caught. -/
theorem made {r : Throw} {z : Zone} {p : Pokemon} (hzone : zone < s.zones.size)
    (htarget : r.target < s.pokemon.size) (hspends : r.outcome.spends = true)
    (hfree : (s.pokemonAt r.target).captured = false) (hballs : 0 < (s.zone zone).balls.toInt)
    (hturns : 0 < (s.zone zone).turns.toInt)
    (hballs' : z.balls.toInt = (s.zone zone).balls.toInt - 1)
    (hturns' : z.turns.toInt = (s.zone zone).turns.toInt - 1)
    (hwild : z.wild = (s.zone zone).wild.filter fun id ↦ ¬ (id = r.target ∧ r.outcome = .caught))
    (hp : p = { s.pokemonAt r.target with captured := decide (r.outcome = .caught) })
    (hs' : s' = (s.put (.zone zone) z).put (.pokemon r.target) p) : Accounted zone s [r] s' := by
  have hspent : spent [r] = 1 := by simp [spent, hspends]
  have hkinds : ∀ {id}, Object.pokemon id ≠ .zone zone := fun h ↦ Object.noConfusion h
  have hz : s'.zone zone = z := by
    subst hs'
    have hhas : s.Has (.object (.zone zone)) := hzone
    exact (Store.contents_put_of_ne hkinds p).trans (Store.contents_put hhas z)
  have hself : s'.pokemonAt r.target = p := by
    subst hs'
    have hhas : (s.put (.zone zone) z).Has (.object (.pokemon r.target)) := htarget
    exact Store.contents_put hhas p
  have hother : ∀ {id}, id ≠ r.target → s'.pokemonAt id = s.pokemonAt id := by
    intro id hid
    subst hs'
    have hne : Object.pokemon r.target ≠ .pokemon id := fun h ↦ hid (Object.pokemon.inj h).symm
    exact (Store.contents_put_of_ne hne p).trans (Store.contents_put_of_ne hkinds.symm z)
  exact {
    balls := by
      rw [hz, hspent]
      exact hballs'
    turns := by
      rw [hz, hspent]
      exact hturns'
    nothing_spent := by omega
    spent_le := by omega
    wanting := List.forall_mem_singleton.2 fun hover ↦
      absurd (ThrowOutcome.spends_of_isOver hover) (Bool.not_eq_false _ ▸ hspends)
    stopped := List.pairwise_singleton ..
    already := List.forall_mem_singleton.2 fun hcaptured ↦
      absurd hcaptured (Bool.not_eq_true _ ▸ hfree)
    once := List.pairwise_singleton ..
    wild := by
      rw [hz, hwild]
      exact List.filter_congr fun id _ ↦ decide_eq_decide.2 (not_congr mem_single.symm)
    captured_iff := fun id ↦ by
      rw [mem_single]
      by_cases hid : id = r.target
      · rw [hid, hself, hp, hfree]
        simp
      · rw [hother hid]
        simp [hid]
    pokemon := fun id ↦ by
      by_cases hid : id = r.target
      · rw [hid, hself, hp]
      · rw [hother hid]
    elsewhere := by
      rw [hz]
      subst hs'
      exact ⟨rfl, Array.size_setIfInBounds⟩ }

/-- **One throw.** -/
theorem single {target : PokemonId} (hzone : zone < s.zones.size)
    (htarget : target < s.pokemon.size) :
    Accounted zone s [⟨target, (s.throwBall zone target).1⟩] (s.throwBall zone target).2 := by
  have hthrown := (s.zone zone).thrown target (s.pokemonAt target)
  generalize ho : ((s.zone zone).throwBall target (s.pokemonAt target)).1 = o at hthrown
  generalize hz : ((s.zone zone).throwBall target (s.pokemonAt target)).2.1 = z at hthrown
  generalize hp : ((s.zone zone).throwBall target (s.pokemonAt target)).2.2 = p at hthrown
  have hthrow : s.throwBall zone target = (o, (s.put (.zone zone) z).put (.pokemon target) p) := by
    rw [← ho, ← hz, ← hp]
    rfl
  rw [hthrow]
  cases hthrown with
  | refused hspends halready hover =>
    have hsame :
        (s.put (.zone zone) (s.zone zone)).put (.pokemon target) (s.pokemonAt target) = s :=
      (congrArg (Store.put · (.pokemon target) (s.pokemonAt target))
        (s.put_contents (.zone zone))).trans (s.put_contents (.pokemon target))
    rw [hsame]
    exact .refused hspends halready hover
  | made hspends hfree hballs hturns hballs' hturns' hwild hp =>
    exact .made hzone htarget hspends hfree hballs hturns hballs' hturns' hwild hp rfl

/-- **One record behind the other.** -/
theorem append (h : Accounted zone s record s') (h' : Accounted zone s' record' s'') :
    Accounted zone s (record ++ record') s'' where
  balls := by
    have hballs := h.balls
    have hballs' := h'.balls
    rw [spent_append]
    omega
  turns := by
    have hturns := h.turns
    have hturns' := h'.turns
    rw [spent_append]
    omega
  nothing_spent hnone := by
    -- With nothing spent before, the second part begins with the same balls and turns.
    have hzero := h.nothing_spent hnone
    have hballs := h.balls
    have hturns := h.turns
    have hzero' := h'.nothing_spent (by omega)
    rw [spent_append]
    omega
  spent_le hballs hturns := by
    have hle := h.spent_le hballs hturns
    have hballs' := h.balls
    have hturns' := h.turns
    have hzero := h'.nothing_spent
    have hle' := h'.spent_le
    rw [spent_append]
    omega
  wanting r hr hover := by
    rcases List.mem_append.1 hr with hr | hr
    · have hwant := h.wanting r hr hover
      have hzero := h'.nothing_spent hwant
      have hballs := h'.balls
      have hturns := h'.turns
      omega
    · exact h'.wanting r hr hover
  stopped := by
    refine List.pairwise_append.2 ⟨h.stopped, h'.stopped, fun r hr r' hr' hover ↦ ?_⟩
    -- Where a throw found the encounter over, no later throw spends anything.
    have hzero := h'.nothing_spent (h.wanting r hr hover)
    exact Bool.not_eq_true _ ▸ List.countP_eq_zero.1 hzero r' hr'
  already r hr hcaptured := by
    rcases List.mem_append.1 hr with hr | hr
    · exact h.already r hr hcaptured
    · exact h'.already r hr ((h.captured_iff _).2 (.inl hcaptured))
  once := by
    refine List.pairwise_append.2 ⟨h.once, h'.once, fun r hr r' hr' htarget hcaught ↦ ?_⟩
    -- What was caught in the first part is captured when the second begins.
    have hmem : ⟨r'.target, .caught⟩ ∈ record := by
      rw [← htarget, ← hcaught]
      exact hr
    exact h'.already r' hr' ((h.captured_iff _).2 (.inr hmem))
  wild := by
    rw [h'.wild, h.wild, List.filter_filter]
    refine List.filter_congr fun id _ ↦ ?_
    simp only [List.mem_append, not_or, Bool.decide_and, Bool.and_comm]
  captured_iff id := by rw [h'.captured_iff id, h.captured_iff id, or_assoc, List.mem_append]
  pokemon id := by rw [h'.pokemon id, h.pokemon id]
  elsewhere := by
    obtain ⟨hs, hsize⟩ := h.elsewhere
    obtain ⟨hs', hsize'⟩ := h'.elsewhere
    refine ⟨?_, hsize'.trans hsize⟩
    calc s'' = _ := hs'
      _ = _ := by
        rw [hs]
        simp only [Array.setIfInBounds_setIfInBounds]

/-- **All throws.** -/
theorem throwAll (targets : List PokemonId) (hzone : zone < s.zones.size)
    (htargets : ∀ target ∈ targets, target < s.pokemon.size) :
    Accounted zone s (s.throwAll zone targets).1 (s.throwAll zone targets).2 := by
  induction targets generalizing s with
  | nil => exact .nil s zone
  | cons target targets ih =>
    obtain ⟨htarget, htargets⟩ := List.forall_mem_cons.1 htargets
    have hsingle : Accounted zone s [⟨target, (s.throwBall zone target).1⟩] _ :=
      .single hzone htarget
    refine hsingle.append (ih ?_ fun target' htarget' ↦ ?_)
    · show zone < (s.zones.setIfInBounds zone _).size
      rw [Array.size_setIfInBounds]
      exact hzone
    · rw [hsingle.elsewhere.2]
      exact htargets target' htarget'

end Accounted

/-- The record has the targets in their order. -/
theorem Store.map_target_throwAll (zone : Nat) (targets : List PokemonId) (s : Store) :
    (s.throwAll zone targets).1.map Throw.target = targets := by
  induction targets generalizing s with
  | nil => rfl
  | cons target targets ih => exact congrArg (target :: ·) (ih (s.throwBall zone target).2)

/-- **Throws are accounted for.** Whatever a zone has of balls, turns and wild Pokémon, and whatever
is thrown at in it: the record has an entry for each throw and accounts for the store behind them; a
Pokémon that was not caught is not changed at all; and the counters stand still from the first throw
on that is refused for want of balls or turns. -/
theorem Store.throwAll_accounted {s : Store} {zone : Nat} {targets : List PokemonId}
    (hzone : zone < s.zones.size) (htargets : ∀ target ∈ targets, target < s.pokemon.size) :
    ∃ record s', s.throwAll zone targets = (record, s') ∧ record.map Throw.target = targets ∧
      Accounted zone s record s' ∧
      (∀ id, ⟨id, .caught⟩ ∉ record → s'.pokemonAt id = s.pokemonAt id) ∧
      ∀ before r after, record = before ++ r :: after → r.outcome.isOver = true →
        (s'.zone zone).balls.toInt = (s.zone zone).balls.toInt - spent before ∧
        (s'.zone zone).turns.toInt = (s.zone zone).turns.toInt - spent before := by
  have haccounted : Accounted zone s _ _ := .throwAll targets hzone htargets
  refine ⟨_, _, rfl, s.map_target_throwAll zone targets, haccounted,
    fun _ ↦ haccounted.pokemonAt_eq, fun before r after hrecord hover ↦ ?_⟩
  rw [hrecord] at haccounted
  exact haccounted.counters_of_over hover

/-- Three balls in a zone that a Pokémon is in twice, next to another one of the same name. -/
def twinParade : Store :=
  { Store.empty with
    zones := #[⟨3, 7, [0, 1, 0, 2]⟩]
    pokemon := #[.new "Eevee" 5, .new "Eevee" 60, .new "Chansey" 7, .new "Ditto" 9] }

/-- The third throw finds its target caught and costs nothing, so the balls last for one more; the
Pokémon that was in the zone twice is gone twice. -/
theorem throwAll_accounted_twinParade :
    0 < twinParade.zones.size ∧ (∀ target ∈ [0, 1, 0, 3, 2, 1], target < twinParade.pokemon.size) ∧
      ∃ record s', twinParade.throwAll 0 [0, 1, 0, 3, 2, 1] = (record, s') ∧
        record.map Throw.outcome =
          [.caught, .brokeFree, .alreadyCaught, .caught, .noBalls, .noBalls] ∧
        (s'.zone 0).wild = [1, 2] ∧ Accounted 0 twinParade record s' := by
  have hzone : 0 < twinParade.zones.size := by decide
  have htargets : ∀ target ∈ [0, 1, 0, 3, 2, 1], target < twinParade.pokemon.size := by decide
  obtain ⟨record, s', hrun, -, haccounted, -⟩ := Store.throwAll_accounted hzone htargets
  refine ⟨hzone, htargets, record, s', hrun, ?_, ?_, haccounted⟩
  · have hrecord : record = (twinParade.throwAll 0 [0, 1, 0, 3, 2, 1]).1 := by rw [hrun]
    rw [hrecord]
    decide
  · have hs' : s' = (twinParade.throwAll 0 [0, 1, 0, 3, 2, 1]).2 := by rw [hrun]
    rw [hs']
    decide

end SafariScript
