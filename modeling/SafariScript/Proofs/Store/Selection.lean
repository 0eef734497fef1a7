import SafariScript.Proofs.Store.Rosters

/-!
# Selections

A team selects those of its members that meet criteria, each an attribute and the value it should
have. Whether a Pokémon `Meets` criteria is said here by what a script would find: reading each of
the attributes gives a value that equals the wanted one. A selection would fail with the first read
that fails. But it checks the names before it looks at any member, and every attribute with a known
name can be read (`Pokemon.get_of_mem`), so known criteria never fail at a member
(`filterMembers_of_known`).

From there on a selection is a matter of logic. Criteria are met together or not
(`meets_append`, `meets_perm`), so their order does not matter, and to select by some and then by
others is to select by all of them.
-/

namespace SafariScript

namespace Store

variable {s : Store} {team : Nat} {id : PokemonId} {c d : List (String × Value)}

/-- Asks a team for the members that meet criteria. -/
abbrev filterMembers (team : Nat) (criteria : List (String × Value)) : StoreM Value :=
  callMethod (.team team) "filter" [] criteria

/-! ### To meet criteria -/

/-- In every criterion the Pokémon has the wanted value. -/
def Meets (s : Store) (criteria : List (String × Value)) (id : PokemonId) : Prop :=
  ∀ k ∈ criteria, ∃ v, getProperty (.pokemon id) k.1 s = .ok v s ∧ v.equals k.2 = true

/-- What a script reads is the attribute. -/
theorem getProperty_pokemon_eq_ok {name : String} {v : Value} :
    getProperty (.pokemon id) name s = .ok v s ↔ (s.pokemonAt id).get name = .ok v := by
  show Steps.check ((s.pokemonAt id).get name) s = .ok v s ↔ _
  cases (s.pokemonAt id).get name with
  | error fault => exact ⟨fun h ↦ (by cases h), fun h ↦ (by cases h)⟩
  | ok w =>
    constructor <;> intro h <;> cases h <;> rfl

/-- To meet criteria can be computed. -/
theorem meets_iff : s.Meets c id ↔ (s.pokemonAt id).meets c = true := by
  rw [Pokemon.meets, List.all_eq_true]
  refine forall₂_congr fun k _ ↦ ?_
  simp only [getProperty_pokemon_eq_ok]
  cases (s.pokemonAt id).get k.1 with
  | error fault => simp [Except.toOption]
  | ok v => simp [Except.toOption]

instance (s : Store) (criteria : List (String × Value)) : DecidablePred (s.Meets criteria) :=
  fun _ ↦ decidable_of_iff _ meets_iff.symm

/-- Criteria are met together or not. -/
theorem meets_append : s.Meets (c ++ d) id ↔ s.Meets c id ∧ s.Meets d id :=
  List.forall_mem_append

/-- The order of criteria does not matter. -/
theorem meets_perm {c' : List (String × Value)} (h : c.Perm c') :
    s.Meets c id ↔ s.Meets c' id :=
  forall_congr' fun _ ↦ imp_congr_left h.mem_iff

/-- Only the attributes of the Pokémon matter. -/
theorem meets_congr {s' : Store} (h : s'.pokemonAt id = s.pokemonAt id) :
    s'.Meets c id ↔ s.Meets c id := by
  rw [meets_iff, meets_iff, h]

/-! ### To select -/

/-- The members of a team that meet criteria. -/
def selection (s : Store) (team : Nat) (criteria : List (String × Value)) : List PokemonId :=
  (s.team team).roster.filter (s.Meets criteria ·)

/-- The selection can be computed. -/
theorem selection_eq (s : Store) (team : Nat) (criteria : List (String × Value)) :
    s.selection team criteria =
      (s.team team).roster.filter fun id ↦ (s.pokemonAt id).meets criteria := by
  refine List.filter_congr fun id _ ↦ ?_
  rw [Bool.eq_iff_iff, decide_eq_true_iff]
  exact meets_iff

theorem selection_perm {c' : List (String × Value)} (h : c.Perm c') :
    s.selection team c = s.selection team c' :=
  List.filter_congr fun _ _ ↦ decide_eq_decide.2 (meets_perm h)

/-- To select among the selected. -/
theorem selection_append {s' : Store} {team' : Nat}
    (hroster : (s'.team team').roster = s.selection team c)
    (hlook : ∀ id ∈ s.selection team c, s'.pokemonAt id = s.pokemonAt id) :
    s'.selection team' d = s.selection team (c ++ d) := by
  calc s'.selection team' d
    _ = (s.selection team c).filter (s'.Meets d ·) := by rw [selection, hroster]
    _ = (s.selection team c).filter (s.Meets d ·) :=
        List.filter_congr fun id hid ↦ decide_eq_decide.2 (meets_congr (hlook id hid))
    _ = s.selection team (c ++ d) := by
        rw [selection, List.filter_filter, selection]
        refine List.filter_congr fun id _ ↦ ?_
        rw [Bool.and_comm, ← Bool.decide_and]
        exact decide_eq_decide.2 meets_append.symm

/-- To ask for members is to select, and to make a list of them. -/
theorem filterMembers_eq (s : Store) (team : Nat) (criteria : List (String × Value)) :
    filterMembers team criteria s =
      (Steps.check ((s.team team).select s.pokemonAt criteria) >>= fun ids ↦
        ofReply (.roster ids)) s := by
  rw [filterMembers, callMethod_team, Team.answer_filter]
  cases (s.team team).select s.pokemonAt criteria with
  | error fault => rfl
  | ok ids => exact congrArg (ofReply (.roster ids)) (s.put_contents (.team team))

/-- **Known criteria select.** There is one more list then, and nothing else has changed. -/
theorem filterMembers_of_known (s : Store) (team : Nat) (hc : c ≠ [])
    (hknown : ∀ k ∈ c, k.1 ∈ Pokemon.properties) : filterMembers team c s =
      .ok (.roster s.fresh (s.selection team c)) { s with fresh := s.fresh + 1 } := by
  rw [filterMembers_eq, Team.select_of_known hc hknown, ← selection_eq]
  rfl

/-- **An unknown criterion fails**, before any member is looked at. -/
theorem filterMembers_of_unknown (s : Store) (team : Nat)
    (hunknown : ∃ k ∈ c, k.1 ∉ Pokemon.properties) : ∃ name, name ∉ Pokemon.properties ∧
      filterMembers team c s = .error (.unknownProperty .pokemon name) s := by
  obtain ⟨k, hk, hname⟩ := hunknown
  obtain ⟨name, hmissing, hselect⟩ : ∃ name, _ ∧ (s.team team).select s.pokemonAt c = _ :=
    Team.select_of_unknown hk hname
  refine ⟨name, hmissing, ?_⟩
  rw [filterMembers_eq, hselect]
  rfl

/-- **Filtering is conjunctive selection.** Known criteria select the members that meet all of
them, in the order of the roster and as often as they are there, and leave the store as it was but
for the new list. The order of the criteria does not matter, and to select by more criteria among
those that were selected, in any team that has them, is to select by all the criteria at once. It
fails without a criterion, and with an unknown one, whatever the roster. -/
theorem filter_conjunctive (s : Store) (team : Nat) (hc : c ≠ []) (hd : d ≠ [])
    (hknown : ∀ k ∈ c ++ d, k.1 ∈ Pokemon.properties) :
    (∃ ids, ids = (s.team team).roster.filter (s.Meets c ·) ∧
      filterMembers team c s = .ok (.roster s.fresh ids) { s with fresh := s.fresh + 1 } ∧
      (∀ c', c.Perm c' → filterMembers team c' s = filterMembers team c s) ∧
      ∀ s₂ team₂, (s₂.team team₂).roster = ids → (∀ id ∈ ids, s₂.pokemonAt id = s.pokemonAt id) →
        ∃ both,
          filterMembers team (c ++ d) s =
            .ok (.roster s.fresh both) { s with fresh := s.fresh + 1 } ∧
          filterMembers team₂ d s₂ =
            .ok (.roster s₂.fresh both) { s₂ with fresh := s₂.fresh + 1 }) ∧
    (∀ criteria, (∃ k ∈ criteria, k.1 ∉ Pokemon.properties) → ∃ fault,
      filterMembers team criteria s = .error fault s ∧ fault.category = .unknownProperty) ∧
    ∃ fault, filterMembers team [] s = .error fault s ∧ fault.category = .invalidArgument := by
  obtain ⟨hknownc, hknownd⟩ := List.forall_mem_append.1 hknown
  refine ⟨⟨_, rfl, filterMembers_of_known s team hc hknownc, fun c' hperm ↦ ?_, ?_⟩, ?_, ?_⟩
  · have hc' : c' ≠ [] := fun h ↦ hc (List.perm_nil.1 (h ▸ hperm))
    have hknown' : ∀ k ∈ c', k.1 ∈ Pokemon.properties := fun k hk ↦
      hknownc k (hperm.mem_iff.2 hk)
    rw [filterMembers_of_known s team hc' hknown', filterMembers_of_known s team hc hknownc,
      selection_perm hperm]
  · intro s₂ team₂ hroster hlook
    refine ⟨s.selection team (c ++ d), ?_, ?_⟩
    · exact filterMembers_of_known s team (List.append_ne_nil_of_left_ne_nil hc d) hknown
    · rw [← selection_append hroster hlook]
      exact filterMembers_of_known s₂ team₂ hd hknownd
  · intro criteria hunknown
    obtain ⟨name, -, hfails⟩ := filterMembers_of_unknown s team hunknown
    exact ⟨_, hfails, rfl⟩
  · exact ⟨.noCriterion, filterMembers_eq s team [], rfl⟩

/-- Three Pokémon, two of one name and two of one level, and two teams. -/
def meadow : Store :=
  { Store.empty with
    teams := #[⟨[1, 0, 1, 2]⟩, ⟨[1, 1, 2]⟩]
    pokemon := #[.new "Eevee" 5, .new "Eevee" 60, .new "Chansey" 60] }

/-- To select by all criteria at once, one of them twice, and to select by the others among those
with one level. -/
theorem filter_conjunctive_meadow :
    meadow.selection 0 [("level", .int 60)] = [1, 1, 2] ∧
      filterMembers 0 [("level", .int 60), ("name", .str "Eevee"), ("level", .int 60)] meadow =
        .ok (.roster 0 [1, 1]) { meadow with fresh := 1 } ∧
      filterMembers 1 [("name", .str "Eevee"), ("level", .int 60)] meadow =
        .ok (.roster 0 [1, 1]) { meadow with fresh := 1 } := by
  have hids : meadow.selection 0 [("level", .int 60)] = [1, 1, 2] := by decide
  obtain ⟨⟨ids, rfl, -, -, hmore⟩, -, -⟩ := filter_conjunctive meadow 0
    (c := [("level", .int 60)]) (d := [("name", .str "Eevee"), ("level", .int 60)])
    (List.cons_ne_nil _ _) (List.cons_ne_nil _ _) (by decide)
  obtain ⟨both, hall, hamong⟩ := hmore meadow 1 hids.symm fun _ _ ↦ rfl
  have hboth : Value.roster meadow.fresh both = .roster 0 [1, 1] := by
    injection hamong with hlist
    exact hlist.symm
  rw [hboth] at hall hamong
  exact ⟨hids, hall, hamong⟩

end Store

end SafariScript
