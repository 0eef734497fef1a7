import SafariScript.Proofs.Store.Effects

/-!
# Rosters

A team takes Pokémon in and drops them by name, and anything else may happen in between: Pokémon are
written to, caught, put into zones and other teams. Here the roster of a team is compared with its
**history** (`Team.history`), which has only who was added and which names were removed. What
remains of a history (`Team.remaining`) are those that were added, in this order and as often as
they were, without those whose name was removed later.

Members are dropped by the name that they have at that time, and remain by the name that they have
at the end. These are the same, since no operation changes the name of a Pokémon
(`Store.nameOf_after`). Each operation does to the roster what it adds to the history
(`StoreOp.roster_apply`), and so the roster is what remains of the history after all operations
(`Store.Follows.after`).
-/

namespace SafariScript

/-! ### Histories -/

namespace Team

/-- What happens to the roster of a team. -/
inductive Event where
  | added (id : PokemonId)
  | removed (name : String)
deriving DecidableEq

/-- Those that were added, without those whose name was removed later. -/
def remaining (nameOf : PokemonId → String) : List Event → List PokemonId
  | [] => []
  | .added id :: later =>
    if .removed (nameOf id) ∈ later then remaining nameOf later
    else id :: remaining nameOf later
  | .removed _ :: later => remaining nameOf later

/-- What an event makes of a roster. -/
def Event.apply (nameOf : PokemonId → String) (roster : List PokemonId) : Event → List PokemonId
  | added id => roster ++ [id]
  | removed name => roster.filter fun id ↦ nameOf id ≠ name

variable {nameOf nameOf' : PokemonId → String}

/-- **What remains after one more event.** -/
theorem remaining_append (history : List Event) (e : Event) :
    remaining nameOf (history ++ [e]) = e.apply nameOf (remaining nameOf history) := by
  induction history with
  | nil => cases e <;> rfl
  | cons first later ih =>
    cases first with
    | removed name => exact ih
    | added id =>
      rw [List.cons_append, remaining, remaining, ih]
      by_cases hlater : .removed (nameOf id) ∈ later
      · rw [if_pos hlater, if_pos (List.mem_append_left _ hlater)]
      rw [if_neg hlater]
      cases e with
      | added id' => rw [if_neg (by simpa using hlater)]; rfl
      | removed name =>
        by_cases hname : nameOf id = name
        · rw [if_pos (by simp [hname])]
          simp [Event.apply, hname]
        · rw [if_neg (by simpa [hname] using hlater)]
          simp [Event.apply, hname]

/-- What remains depends on the names of those that were added. -/
theorem remaining_congr {history : List Event}
    (h : ∀ id, .added id ∈ history → nameOf id = nameOf' id) :
    remaining nameOf history = remaining nameOf' history := by
  induction history with
  | nil => rfl
  | cons first later ih =>
    have hlater := ih fun id hid ↦ h id (List.mem_cons_of_mem _ hid)
    cases first with
    | removed name => exact hlater
    | added id => rw [remaining, remaining, hlater, h id List.mem_cons_self]

/-- What a call of a method does to the roster, if it is one that changes it and is given what it
takes. -/
def Event.ofCall? (name : String) (args : List Value) (named : List (String × Value)) :
    Option Event :=
  match name, args, named with
  | "add", [.object (.pokemon id)], [] => some (.added id)
  | "remove", [.str wanted], [] => some (.removed wanted)
  | _, _, _ => none

end Team

/-- What an operation does to the roster of a team. -/
def StoreOp.event? (team : Nat) : StoreOp → Option Team.Event
  | callMethod o name args named =>
    if o = .team team then Team.Event.ofCall? name args named else none
  | _ => none

/-- What operations do to the roster of a team, one after the other. -/
def Team.history (team : Nat) (ops : List StoreOp) : List Team.Event :=
  ops.filterMap (StoreOp.event? team)

/-! ### The roster follows the history -/

namespace Team

variable {look : PokemonId → Pokemon} {name : String} {args : List Value}
  {named : List (String × Value)}

/-- A call that would change the roster does not fail. -/
theorem ofCall?_of_error {t : Team} {fault : Fault}
    (h : t.answer look name args named = .error fault) : Event.ofCall? name args named = none := by
  unfold Event.ofCall?
  split
  · cases h
  · cases h
  · rfl

/-- A method does to the roster what it adds to the history, and nothing if it fails. -/
theorem roster_afterCall (team : Nat) (t : Team) :
    (Object.Contents.afterCall (o := .team team) look t name args named).roster =
      (Event.ofCall? name args named).elim t.roster
        (Event.apply (fun id ↦ (look id).name) t.roster) := by
  show (((t.answer look name args named).toOption.map Prod.snd).getD t).roster = _
  cases hcall : t.answer look name args named with
  | error fault => rw [ofCall?_of_error hcall]; rfl
  | ok answer =>
    obtain ⟨reply, t'⟩ := answer
    cases answer_eq_ok.1 hcall with
    | add | remove | find | filter => rfl

end Team

/-- **One operation** does to the roster of a team what it adds to its history. -/
theorem StoreOp.roster_apply (op : StoreOp) {s : Store} {team : Nat}
    (hteam : s.Has (.object (.team team))) : ((op.apply s).team team).roster =
      (op.event? team).elim (s.team team).roster
        (Team.Event.apply s.nameOf (s.team team).roster) := by
  have houtcome := (op.apply_object hteam).2
  show ((op.apply s).contents (.team team)).roster = _
  rw [houtcome]
  cases op with
  | setProperty o name v =>
    rw [outcome]
    split
    · show (((s.team team).withProperty name v).toOption.getD (s.team team)).roster = _
      cases hset : (s.team team).withProperty name v with
      | error fault => rfl
      | ok t => exact absurd hset not_team_withProperty
    · rfl
  | callMethod o name args named =>
    rw [outcome, event?]
    split
    · exact Team.roster_afterCall team (s.team team)
    · rfl
  | _ => rfl

namespace Store

/-- The roster of a team is what remains of a history, of Pokémon that are there. -/
structure Follows (s : Store) (team : Nat) (history : List Team.Event) : Prop where
  here : s.Has (.object (.team team))
  known : ∀ id, .added id ∈ history → s.Has (.object (.pokemon id))
  roster : (s.team team).roster = Team.remaining s.nameOf history

namespace Follows

variable {s : Store} {team : Nat} {history : List Team.Event}

/-- One operation keeps the roster in step with the history. -/
theorem apply (h : s.Follows team history) (op : StoreOp)
    (hadded : ∀ id, op.event? team = some (.added id) → s.Has (.object (.pokemon id))) :
    (op.apply s).Follows team (history ++ (op.event? team).toList) := by
  have hknown : ∀ id, .added id ∈ history ++ (op.event? team).toList →
      s.Has (.object (.pokemon id)) := by
    intro id hid
    rcases List.mem_append.1 hid with hid | hid
    · exact h.known id hid
    · exact hadded id (Option.mem_toList.1 hid)
  refine ⟨(op.apply_object h.here).1, fun id hid ↦ (op.apply_object (hknown id hid)).1, ?_⟩
  rw [Team.remaining_congr fun id hid ↦ op.nameOf_apply (hknown id hid), op.roster_apply h.here,
    h.roster]
  cases op.event? team with
  | none => rw [Option.toList_none, List.append_nil]; rfl
  | some e => exact (Team.remaining_append history e).symm

/-- **All operations.** -/
theorem after (h : s.Follows team history) (ops : List StoreOp)
    (hadded : ∀ before op later id, ops = before ++ op :: later →
      op.event? team = some (.added id) → (s.after before).Has (.object (.pokemon id))) :
    (s.after ops).Follows team (history ++ Team.history team ops) := by
  induction ops generalizing s history with
  | nil =>
    rw [Team.history, List.filterMap_nil, List.append_nil]
    exact h
  | cons op ops ih =>
    have hone := h.apply op fun id ↦ hadded [] op ops id rfl
    have hrest := ih hone fun before op' later id hops ↦
      hadded (op :: before) op' later id (congrArg (op :: ·) hops)
    have hhistory : Team.history team (op :: ops) =
        (op.event? team).toList ++ Team.history team ops := by
      rw [Team.history, List.filterMap_cons]
      cases op.event? team <;> rfl
    rw [hhistory, ← List.append_assoc]
    exact hrest

end Follows

end Store

/-! ### Answers of a team -/

/-- The list of these Pokémon with the given number. -/
def Value.roster (n : Nat) (ids : List PokemonId) : Value :=
  .list n (ids.map fun id ↦ .object (.pokemon id))

namespace Store

/-- The computation fails with a fault of the category. -/
def Fails {α : Type} (category : Fault.Category) (r : EStateM.Result Fault Store α) : Prop :=
  ∃ fault s', r = .error fault s' ∧ fault.category = category

/-- Asks a team for the member of a name. -/
abbrev findMember (team : Nat) (wanted : String) : StoreM Value :=
  callMethod (.team team) "find" [.str wanted] []

variable {s : Store} {team : Nat} {wanted : String}

/-- A method of a team looks at all Pokémon of the store. -/
theorem callMethod_team (s : Store) (team : Nat) (name : String) (args : List Value)
    (named : List (String × Value)) : callMethod (.team team) name args named s =
      (Steps.check ((s.team team).answer s.pokemonAt name args named) >>= fun answer ↦ do
        set (s.put (.team team) answer.2)
        ofReply answer.1) s :=
  callMethod_eq s (.team team) name args named

/-- To find a member leaves the store alone. -/
theorem findMember_eq (s : Store) (team : Nat) (wanted : String) : findMember team wanted s =
    ((s.team team).find? s.pokemonAt wanted).elim (.error (.noSuchMember wanted) s)
      fun id ↦ .ok (.object (.pokemon id)) s := by
  rw [findMember, callMethod_team, Team.answer_find]
  cases (s.team team).find? s.pokemonAt wanted with
  | none => rfl
  | some id => exact congrArg (EStateM.Result.ok _) (s.put_contents (.team team))

theorem findMember_eq_ok {id : PokemonId} :
    findMember team wanted s = .ok (.object (.pokemon id)) s ↔
      (s.team team).find? s.pokemonAt wanted = some id := by
  rw [findMember_eq]
  cases (s.team team).find? s.pokemonAt wanted <;> simp

/-- No member is found just when none has the name. -/
theorem fails_findMember : Fails .notFound (findMember team wanted s) ↔
    (s.team team).find? s.pokemonAt wanted = none := by
  rw [findMember_eq]
  cases (s.team team).find? s.pokemonAt wanted with
  | none => exact ⟨fun _ ↦ rfl, fun _ ↦ ⟨_, s, rfl, rfl⟩⟩
  | some id =>
    constructor
    · rintro ⟨_, _, h, -⟩
      cases h
    · intro h
      cases h

theorem answer_findMember_congr {s' : Store}
    (h : (s'.team team).find? s'.pokemonAt wanted = (s.team team).find? s.pokemonAt wanted) :
    answer (findMember team wanted s') = answer (findMember team wanted s) := by
  rw [findMember_eq, findMember_eq, h]
  cases (s.team team).find? s.pokemonAt wanted <;> rfl

/-- To remove a name makes it missing, and no other. -/
theorem find?_remove (look : PokemonId → Pokemon) (t : Team) (wanted other : String) :
    (t.remove look wanted).find? look other =
      if other = wanted then none else t.find? look other := by
  rw [Team.find?, Team.remove, List.find?_filter, Team.find?]
  split
  · next heq => simp [heq]
  · next hne =>
    congr 1
    funext id
    rw [decide_eq_decide]
    grind

/-- A team gets shorter by a name exactly if it has a member of that name. -/
theorem length_remove_eq (look : PokemonId → Pokemon) (t : Team) (wanted : String) :
    (t.remove look wanted).roster.length = t.roster.length ↔ t.find? look wanted = none := by
  rw [Team.remove, List.length_filter_eq_length_iff, Team.find?, List.find?_eq_none]
  simp

/-- Whatever is done after the value was put into a variable, other than binding variables: the
variable has it still. -/
def Keeps (s : Store) (v : Value) : Prop :=
  ∀ i x later, s.Has (.frame i) → (∀ op ∈ later, op.binds = false) →
    ((s.define i x v).after later).frames.get? i x = some v

theorem keeps (s : Store) (v : Value) : s.Keeps v := by
  intro i x later hi hlater
  have hsize : i < (s.define i x v).frames.size := by
    rw [define, Frames.size_define]
    exact hi
  have hbound : ((s.frames.define i x v).vars i).get? x = some v := by
    rw [Frames.get?_vars_define, if_pos ⟨rfl, hi, rfl⟩]
  have hbinds : (s.frames.define i x v).Binds i x := by simp [Frames.Binds, hbound]
  rw [get?_after hsize x later hlater, define, Frames.get?_eq_bind,
    Frames.resolve?_of_binds hbinds]
  exact hbound

/-- **What a team with these members answers.** -/
structure Answers (s : Store) (team : Nat) (members : List PokemonId) : Prop where
  /-- Its size is their number. -/
  size : ∃ n : Int64, getProperty (.team team) "size" s = .ok (.int n) s ∧
    n = Int64.ofNat members.length ∧
    ((members.length : Int) ≤ Int64.maxValue.toInt → n.toInt = members.length)
  /-- The earliest member of a name is found. -/
  found : ∀ wanted id, findMember team wanted s = .ok (.object (.pokemon id)) s ↔
    ∃ before later, members = before ++ id :: later ∧ s.nameOf id = wanted ∧
      ∀ id' ∈ before, s.nameOf id' ≠ wanted
  /-- A name is missing if no member has it. -/
  missing : ∀ wanted, Fails .notFound (findMember team wanted s) ↔
    ∀ id ∈ members, s.nameOf id ≠ wanted
  /-- To remove a name says whether it was to be found. It is missing then, and what is found under
  any other name is the same as before. -/
  removed : ∀ wanted, ∃ b s',
    callMethod (.team team) "remove" [.str wanted] [] s = .ok (.bool b) s' ∧
    (b = true ↔ ∃ v s₁, findMember team wanted s = .ok v s₁) ∧
    Fails .notFound (findMember team wanted s') ∧
    ∀ other, other ≠ wanted →
      answer (findMember team other s') = answer (findMember team other s)
  /-- A list of the members is the same list with the same members still, when it was kept in a
  variable, after any operations that bind no variable. -/
  listed : ∃ s₁, getProperty (.team team) "pokemon" s = .ok (.roster s.fresh members) s₁ ∧
    s₁.Keeps (.roster s.fresh members)
  /-- And so is a list of some of them. -/
  selected : ∀ criteria v s₁, callMethod (.team team) "filter" [] criteria s = .ok v s₁ →
    ∃ ids, ids.Sublist members ∧ v = .roster s.fresh ids ∧ s₁.Keeps v

/-- A team that is there answers by its roster. -/
theorem answers (hteam : s.Has (.object (.team team))) :
    s.Answers team (s.team team).roster where
  size := by
    refine ⟨_, rfl, rfl, fun hfits ↦ ?_⟩
    rw [show Int64.maxValue.toInt = 9223372036854775807 from rfl] at hfits
    rw [countOf, Int64.toInt_ofNat']
    apply Int.bmod_eq_of_le <;> simp only [Int64.size] <;> omega
  found wanted id := by
    rw [findMember_eq_ok, Team.find?, List.find?_eq_some_iff_append]
    simp only [decide_eq_true_eq, Bool.not_eq_true', decide_eq_false_iff_not]
    constructor
    · rintro ⟨hname, before, later, hroster, hbefore⟩
      exact ⟨before, later, hroster, hname, hbefore⟩
    · rintro ⟨before, later, hroster, hname, hbefore⟩
      exact ⟨hname, before, later, hroster, hbefore⟩
  missing wanted := by
    rw [fails_findMember, Team.find?, List.find?_eq_none]
    simp only [decide_eq_true_eq]
    rfl
  removed wanted := by
    have hteam' : (s.put (.team team) ((s.team team).remove s.pokemonAt wanted)).team team = _ :=
      contents_put hteam ((s.team team).remove s.pokemonAt wanted)
    -- Whether something was removed is told by the length, so a member that is found makes it
    -- shorter.
    refine ⟨_, s.put (.team team) ((s.team team).remove s.pokemonAt wanted),
      callMethod_team s team "remove" [.str wanted] [], ?_, ?_, ?_⟩
    · rw [decide_eq_true_eq, ne_eq, length_remove_eq, findMember_eq]
      cases (s.team team).find? s.pokemonAt wanted <;> simp
    · rw [fails_findMember, hteam']
      exact (find?_remove s.pokemonAt _ wanted wanted).trans (if_pos rfl)
    · intro other hne
      refine answer_findMember_congr ?_
      rw [hteam']
      exact (find?_remove s.pokemonAt _ wanted other).trans (if_neg hne)
  listed := ⟨_, rfl, keeps _ _⟩
  selected criteria v s₁ h := by
    rw [callMethod_team, Team.answer_filter] at h
    cases hselect : (s.team team).select s.pokemonAt criteria with
    | error fault =>
      rw [hselect] at h
      cases h
    | ok ids =>
      rw [hselect] at h
      cases h
      refine ⟨ids, ?_, rfl, keeps _ _⟩
      rw [(Team.select_eq_ok.1 hselect).2.2]
      exact List.filter_sublist

/-- **The roster follows the history.** From a new team on, whatever operations there are: the
roster is what remains of the history of the team, and this is what the team answers from. Those
that are added have to be there, and no operation changes the name of a Pokémon. -/
theorem roster_follows_history {ops : List StoreOp} (hteam : s.Has (.object (.team team)))
    (hnew : s.team team = .new)
    (hadded : ∀ before op later id, ops = before ++ op :: later →
      op.event? team = some (.added id) → (s.after before).Has (.object (.pokemon id))) :
    ∃ members, members = Team.remaining (s.after ops).nameOf (Team.history team ops) ∧
      ((s.after ops).team team).roster = members ∧ (s.after ops).Answers team members ∧
      ∀ id, s.Has (.object (.pokemon id)) → (s.after ops).nameOf id = s.nameOf id := by
  have hstart : s.Follows team [] :=
    ⟨hteam, fun _ h ↦ absurd h List.not_mem_nil, by rw [hnew]; rfl⟩
  have hafter : (s.after ops).Follows team (Team.history team ops) := hstart.after ops hadded
  refine ⟨_, rfl, hafter.roster, ?_, fun id hid ↦ nameOf_after hid ops⟩
  rw [← hafter.roster]
  exact answers hafter.here

/-- Two Pokémon of one name and another one, a zone and two teams. -/
def campground : Store :=
  { Store.empty with
    zones := #[.new 5 9]
    teams := #[.new, .new]
    pokemon := #[.new "Eevee" 5, .new "Eevee" 60, .new "Chansey" 7] }

/-- A Pokémon joins twice, its name is removed, and it joins again. In between it is written to,
caught, and added to a zone and to the other team. -/
def campgroundOps : List StoreOp :=
  let add (team : Nat) (id : PokemonId) : StoreOp :=
    .callMethod (.team team) "add" [.object (.pokemon id)] []
  [add 0 0, add 0 2, .setProperty (.pokemon 0) "name" (.str "Mew"), add 0 0, add 0 1,
    .throwBall 0 0, add 1 0, .callMethod (.zone 0) "addPokemon" [.object (.pokemon 2)] [],
    .callMethod (.team 0) "remove" [.str "Eevee"] [], .setProperty (.pokemon 1) "level" (.int 3),
    add 0 1, .callMethod (.team 0) "remove" [.int 3] [], add 0 0]

/-- Those that remain joined after the name was removed, or have another one. Calls that fail are no
events. -/
theorem roster_follows_history_campground :
    campground.Has (.object (.team 0)) ∧ campground.team 0 = .new ∧
      ((campground.after campgroundOps).team 0).roster = [2, 1, 0] ∧
      (campground.after campgroundOps).Answers 0 [2, 1, 0] := by
  have hteam : campground.Has (.object (.team 0)) := by
    show 0 < campground.teams.size
    decide
  have hhistory : Team.history 0 campgroundOps = [.added 0, .added 2, .added 0, .added 1,
      .removed "Eevee", .added 1, .added 0] := by decide
  have hadded : ∀ before op later id, campgroundOps = before ++ op :: later →
      op.event? 0 = some (.added id) → (campground.after before).Has (.object (.pokemon id)) := by
    intro before op later id hops hevent
    refine has_after ?_ before
    have hmem : .added id ∈ Team.history 0 campgroundOps :=
      List.mem_filterMap.2 ⟨op, hops ▸ List.mem_append_right _ List.mem_cons_self, hevent⟩
    simp only [hhistory, List.mem_cons, Team.Event.added.injEq, reduceCtorEq, List.not_mem_nil,
      or_false, false_or] at hmem
    show id < 3
    rcases hmem with rfl | rfl | rfl | rfl | rfl | rfl <;> decide
  obtain ⟨members, hmembers, hroster, hanswers, -⟩ := roster_follows_history hteam rfl hadded
  have hthree : members = [2, 1, 0] := by
    rw [hmembers, hhistory]
    decide
  rw [← hthree]
  exact ⟨hteam, rfl, hroster, hanswers⟩

end Store

end SafariScript
