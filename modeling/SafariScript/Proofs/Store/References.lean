import SafariScript.Operator
import SafariScript.Proofs.Store.Methods

/-!
# What refers to what

A value may refer to frames and objects: an object is a reference itself, a function refers to the
frame it was defined in, and a list to what its items refer to (`Value.refs`). What the store holds
refers on (`Store.targets`): a frame to the frame around it and through its bindings, a zone and a
team to their Pokémon. What can be got at from some references is what these lead to
(`Store.Reaches`).

Nothing comes out of nothing: the results of operators and the attributes of objects refer to
nothing, and the answers of an object refer only to its own Pokémon (`refs_zone_answer` and the
like).
-/

namespace SafariScript

/-- Something in the store that can be referred to. -/
inductive Ref where
  | frame (id : FrameId)
  | object (o : Object)
deriving DecidableEq

/-! ### References of values -/

mutual

/-- What a value refers to. -/
def Value.refs : Value → List Ref
  | list _ items => Value.refsAll items
  | object o => [.object o]
  | function f => [.frame f.closure]
  | _ => []

/-- What values refer to. -/
def Value.refsAll : List Value → List Ref
  | [] => []
  | v :: vs => v.refs ++ Value.refsAll vs

end

/-- Values refer to what one of them refers to. -/
theorem Value.mem_refsAll {r : Ref} {vs : List Value} :
    r ∈ Value.refsAll vs ↔ ∃ v ∈ vs, r ∈ v.refs := by
  induction vs with
  | nil => simp [Value.refsAll]
  | cons v vs ih => simp [Value.refsAll, ih]

@[simp] theorem Value.refs_ofLiteral (value : Literal) : (Value.ofLiteral value).refs = [] := by
  cases value <;> rfl

/-! ### References of results -/

/-- A value that is there only once: neither a list nor a reference to anything. -/
def Value.isScalar : Value → Bool
  | null | bool _ | int _ | decimal _ | str _ => true
  | list _ _ | object _ | function _ | native _ => false

/-- A scalar refers to nothing. -/
theorem Value.refs_of_isScalar {v : Value} (h : v.isScalar = true) : v.refs = [] := by
  cases v with
  | null | bool | int | decimal | str => rfl
  | list | object | function | native => cases h

theorem isScalar_checked {op : BinaryOp} {n : Option Int64} {v : Value}
    (h : checked op n = .ok v) : v.isScalar = true := by
  cases n with
  | some n =>
    cases h
    rfl
  | none => cases h

/-- A unary operator gives a scalar. -/
theorem isScalar_unary {op : UnaryOp} {v w : Value} (h : op.apply v = .ok w) :
    w.isScalar = true := by
  unfold UnaryOp.apply at h
  split at h
  · exact isScalar_checked h
  · cases h
    rfl
  · cases h
  · cases h
    rfl

/-- Operators on integers give scalars. -/
theorem isScalar_onInts {op : BinaryOp} {a b : Int64} {v : Value} (h : op.onInts a b = .ok v) :
    v.isScalar = true := by
  unfold BinaryOp.onInts at h
  split at h
  case h_4 | h_5 =>
    split at h
    · cases h
    · exact isScalar_checked h
  all_goals first
    | exact isScalar_checked h
    | cases h; rfl

/-- Operators on decimals give scalars. -/
theorem isScalar_onDecimals {op : BinaryOp} {left right : Ty} {a b : Float} {v : Value}
    (h : op.onDecimals left right a b = .ok v) : v.isScalar = true := by
  unfold BinaryOp.onDecimals at h
  split at h
  case h_4 =>
    split at h
    · cases h
    · cases h
      rfl
  case h_5 => cases h
  all_goals
    cases h
    rfl

/-- What an operator makes of two values is there only once, whatever these are. -/
theorem isScalar_binary {text : Value → String} {op : BinaryOp} {l r v : Value}
    (h : op.apply text l r = .ok v) : v.isScalar = true := by
  have hnumbers : ∀ {op : BinaryOp}, op.onNumbers l r = .ok v → v.isScalar = true := by
    intro op h
    unfold BinaryOp.onNumbers at h
    split at h
    · exact isScalar_onInts h
    · split at h
      · exact isScalar_onDecimals h
      · cases h
  unfold BinaryOp.apply at h
  split at h
  case h_5 => exact hnumbers h
  all_goals
    cases h
    rfl

/-- The result of a unary operator refers to nothing. -/
theorem refs_unary {op : UnaryOp} {v w : Value} (h : op.apply v = .ok w) : w.refs = [] :=
  Value.refs_of_isScalar (isScalar_unary h)

/-- The result of a binary operator refers to nothing. -/
theorem refs_binary {text : Value → String} {op : BinaryOp} {l r v : Value}
    (h : op.apply text l r = .ok v) : v.refs = [] :=
  Value.refs_of_isScalar (isScalar_binary h)

/-! ### References of objects -/

/-- The references to Pokémon. -/
def pokemonRefs (ids : List PokemonId) : List Ref := ids.map fun id ↦ .object (.pokemon id)

/-- What the answer of an object refers to. -/
def Reply.refs : Reply → List Ref
  | value v => v.refs
  | roster members => pokemonRefs members

/-- Pokémon as values refer to these Pokémon. -/
theorem Value.refsAll_pokemon (ids : List PokemonId) :
    Value.refsAll (ids.map fun id ↦ .object (.pokemon id)) = pokemonRefs ids := by
  induction ids with
  | nil => rfl
  | cons id ids ih =>
    rw [List.map_cons, Value.refsAll, ih]
    rfl

/-- From a sequence that succeeds, both parts have. -/
theorem Except.of_bind_eq_ok {ε α β : Type} {x : Except ε α} {f : α → Except ε β} {b : β}
    (h : x >>= f = .ok b) : ∃ a, x = .ok a ∧ f a = .ok b := by
  cases x with
  | ok a => exact ⟨a, rfl, h⟩
  | error e => cases h

theorem Except.of_map_eq_ok {ε α β : Type} {x : Except ε α} {f : α → β} {b : β}
    (h : x.map f = .ok b) : ∃ a, x = .ok a ∧ f a = b := by
  cases x with
  | ok a => exact ⟨a, rfl, Except.ok.inj h⟩
  | error e => cases h

/-- The attributes of a Pokémon are scalars. -/
theorem isScalar_pokemon_get {p : Pokemon} {name : String} {v : Value} (h : p.get name = .ok v) :
    v.isScalar = true := by
  unfold Pokemon.get at h
  split at h <;> cases h <;> rfl

/-- A Pokémon answers with scalars. -/
theorem isScalar_pokemon_answer {p : Pokemon} {name : String} {args : List Value}
    {named : List (String × Value)} {v : Value} (h : p.answer name args named = .ok v) :
    v.isScalar = true := by
  unfold Pokemon.answer at h
  split at h
  · obtain ⟨_, -, h⟩ := Except.of_bind_eq_ok h
    obtain ⟨_, -, h⟩ := Except.of_bind_eq_ok h
    cases h
    rfl
  · cases h

theorem refs_pokemon_get {p : Pokemon} {name : String} {v : Value} (h : p.get name = .ok v) :
    v.refs = [] :=
  Value.refs_of_isScalar (isScalar_pokemon_get h)

theorem refs_pokemon_answer {p : Pokemon} {name : String} {args : List Value}
    {named : List (String × Value)} {v : Value} (h : p.answer name args named = .ok v) :
    v.refs = [] :=
  Value.refs_of_isScalar (isScalar_pokemon_answer h)

/-- A zone gives out its own Pokémon only. -/
theorem refs_zone_get {z : Zone} {name : String} {reply : Reply} (h : z.get name = .ok reply) :
    reply.refs ⊆ pokemonRefs z.wild := by
  unfold Zone.get at h
  split at h
  case h_3 =>
    cases h
    exact List.Subset.refl _
  case h_4 => cases h
  all_goals
    cases h
    exact List.nil_subset _

/-- To write a property of a zone leaves its Pokémon alone. -/
theorem wild_zone_withProperty {z z' : Zone} {name : String} {v : Value}
    (h : z.withProperty name v = .ok z') : z'.wild = z.wild := by
  unfold Zone.withProperty at h
  dsimp only at h
  split at h
  case h_1 | h_2 =>
    obtain ⟨n, -, h⟩ := Except.of_bind_eq_ok h
    cases h
    rfl
  all_goals cases h

/-- One argument and no other. -/
theorem Arguments.one_eq_ok {name : String} {args : List Value} {v : Value} :
    Arguments.one name args = .ok v ↔ args = [v] := by
  unfold Arguments.one
  split
  · simp
  · next hargs =>
    constructor
    · intro h
      cases h
    · rintro rfl
      exact absurd rfl (hargs v)

theorem Arguments.noneNamed_eq_ok {name : String} {named : List (String × Value)} {u : Unit} :
    Arguments.noneNamed name named = .ok u ↔ named = [] := by
  cases named <;> simp [Arguments.noneNamed]

theorem Arguments.count_eq_ok {name : String} {args : List Value} {n : Nat} {u : Unit} :
    Arguments.count name args n = .ok u ↔ args.length = n := by
  unfold Arguments.count
  split <;> simp [*]

theorem Arguments.string_eq_ok {place : Place} {v : Value} {t : String} :
    Arguments.string place v = .ok t ↔ v = .str t := by
  cases v <;> simp [Arguments.string]

/-- Only a Pokémon passes for one. -/
theorem Arguments.pokemon_eq_ok {place : Place} {v : Value} {id : PokemonId} :
    Arguments.pokemon place v = .ok id ↔ v = .object (.pokemon id) := by
  unfold Arguments.pokemon
  split <;> simp_all

/-- The argument that names a Pokémon refers to it. -/
theorem mem_refsAll_of_one {name : String} {place : Place} {args : List Value} {v : Value}
    {id : PokemonId} (hone : Arguments.one name args = .ok v)
    (hid : Arguments.pokemon place v = .ok id) : .object (.pokemon id) ∈ Value.refsAll args := by
  rw [Arguments.one_eq_ok.1 hone, Arguments.pokemon_eq_ok.1 hid]
  exact List.mem_cons_self

/-- A method of a zone answers with a number, and lets in at most a Pokémon it was given. -/
theorem refs_zone_answer {z z' : Zone} {name : String} {args : List Value}
    {named : List (String × Value)} {reply : Reply}
    (h : z.answer name args named = .ok (reply, z')) :
    reply.refs = [] ∧ pokemonRefs z'.wild ⊆ pokemonRefs z.wild ++ Value.refsAll args := by
  unfold Zone.answer at h
  obtain ⟨_, -, h⟩ := Except.of_bind_eq_ok h
  split at h
  case h_1 | h_2 =>
    obtain ⟨n, -, h⟩ := Except.of_bind_eq_ok h
    cases h
    exact ⟨rfl, List.subset_append_left _ _⟩
  · obtain ⟨v, hone, h⟩ := Except.of_bind_eq_ok h
    obtain ⟨id, hid, h⟩ := Except.of_bind_eq_ok h
    cases h
    refine ⟨rfl, ?_⟩
    have hmem := mem_refsAll_of_one hone hid
    simp only [pokemonRefs, List.map_append]
    refine List.append_subset.2 ⟨List.subset_append_left _ _, ?_⟩
    simpa using Or.inr hmem
  · cases h

/-- After a throw there are no other Pokémon in the zone than before. -/
theorem wild_zone_throwBall (z : Zone) (id : PokemonId) (p : Pokemon) :
    (z.throwBall id p).2.1.wild ⊆ z.wild := by
  unfold Zone.throwBall
  repeat' split
  all_goals try exact List.Subset.refl _
  exact List.filter_sublist.subset

/-- A team gives out its own members only. -/
theorem refs_team_get {t : Team} {name : String} {reply : Reply} (h : t.get name = .ok reply) :
    reply.refs ⊆ pokemonRefs t.roster := by
  unfold Team.get at h
  split at h
  · cases h
    exact List.Subset.refl _
  · cases h
    exact List.nil_subset _
  · cases h

/-- No property of a team can be written. -/
theorem not_team_withProperty {t t' : Team} {name : String} {v : Value} :
    t.withProperty name v ≠ .ok t' := by
  unfold Team.withProperty
  split <;> exact nofun

/-- The attributes of the list can be read. -/
theorem Pokemon.get_of_mem (p : Pokemon) {name : String} (hname : name ∈ Pokemon.properties) :
    ∃ v, p.get name = .ok v := by
  simp only [Pokemon.properties, List.mem_cons, List.not_mem_nil, or_false] at hname
  rcases hname with rfl | rfl | rfl | rfl | rfl | rfl <;> exact ⟨_, rfl⟩

/-- Whether in every criterion the attribute can be read and equals the wanted value. -/
def Pokemon.meets (p : Pokemon) (criteria : List (String × Value)) : Bool :=
  criteria.all fun c ↦ (p.get c.1).toOption.any (·.equals c.2)

/-- **No read fails** in the middle of known criteria, so a Pokémon satisfies them or it does
not. -/
theorem Team.satisfies_of_known (p : Pokemon) {criteria : List (String × Value)}
    (hknown : ∀ c ∈ criteria, c.1 ∈ Pokemon.properties) :
    satisfies p criteria = .ok (p.meets criteria) := by
  induction criteria with
  | nil => rfl
  | cons c criteria ih =>
    obtain ⟨v, hv⟩ := p.get_of_mem (hknown c List.mem_cons_self)
    have hrest := ih fun d hd ↦ hknown d (List.mem_cons_of_mem c hd)
    rw [Pokemon.meets, List.all_cons, ← Pokemon.meets]
    show (p.get c.1 >>= fun v ↦ if v.equals c.2 then satisfies p criteria else .ok false) = _
    rw [hv, hrest]
    show (if v.equals c.2 = true then _ else _) = Except.ok (v.equals c.2 && p.meets criteria)
    cases v.equals c.2 <;> rfl

/-- Known criteria are asked of all Pokémon. -/
theorem Team.matching_of_known (look : PokemonId → Pokemon) {criteria : List (String × Value)}
    (hknown : ∀ c ∈ criteria, c.1 ∈ Pokemon.properties) (ids : List PokemonId) :
    matching look criteria ids = .ok (ids.filter fun id ↦ (look id).meets criteria) := by
  induction ids with
  | nil => rfl
  | cons id ids ih =>
    rw [matching, satisfies_of_known _ hknown, ih, List.filter_cons]
    rfl

/-- Known criteria select. -/
theorem Team.select_of_known {look : PokemonId → Pokemon} {t : Team}
    {criteria : List (String × Value)} (hne : criteria ≠ [])
    (hknown : ∀ c ∈ criteria, c.1 ∈ Pokemon.properties) :
    t.select look criteria = .ok (t.roster.filter fun id ↦ (look id).meets criteria) := by
  have hfind : criteria.find? (fun c ↦ !Pokemon.properties.contains c.1) = none :=
    List.find?_eq_none.2 fun c hc ↦ by simpa using hknown c hc
  unfold Team.select
  rw [if_neg (by simpa using hne)]
  split
  · next hunknown => cases hunknown.symm.trans hfind
  · exact matching_of_known look hknown t.roster

/-- A criterion that is not known fails, or one before it. -/
theorem Team.select_of_unknown {look : PokemonId → Pokemon} {t : Team}
    {criteria : List (String × Value)} {c : String × Value} (hc : c ∈ criteria)
    (hname : c.1 ∉ Pokemon.properties) : ∃ name, name ∉ Pokemon.properties ∧
      t.select look criteria = .error (.unknownProperty .pokemon name) := by
  unfold Team.select
  rw [if_neg (by simpa using List.ne_nil_of_mem hc)]
  split
  · next name v hunknown =>
    have hmissing : (!Pokemon.properties.contains name) = true :=
      List.find?_some (a := (name, v)) hunknown
    exact ⟨name, by simpa using hmissing, rfl⟩
  · next hnone =>
    have hpasses : ¬(!Pokemon.properties.contains c.1) = true := List.find?_eq_none.1 hnone c hc
    exact absurd (by simpa using hpasses) hname

/-- **A selection succeeds** if there is a criterion and each names an attribute. -/
theorem Team.select_eq_ok {look : PokemonId → Pokemon} {t : Team}
    {criteria : List (String × Value)} {ids : List PokemonId} :
    t.select look criteria = .ok ids ↔ criteria ≠ [] ∧
      (∀ c ∈ criteria, c.1 ∈ Pokemon.properties) ∧
      ids = t.roster.filter fun id ↦ (look id).meets criteria := by
  constructor
  · intro h
    have hne : criteria ≠ [] := by
      rintro rfl
      cases h
    have hknown : ∀ c ∈ criteria, c.1 ∈ Pokemon.properties := by
      intro c hc
      refine Decidable.by_contra fun hname ↦ ?_
      obtain ⟨name, -, hfails⟩ : ∃ name, _ ∧ t.select look criteria = _ :=
        select_of_unknown hc hname
      cases h.symm.trans hfails
    exact ⟨hne, hknown, Except.ok.inj (h.symm.trans (select_of_known hne hknown))⟩
  · rintro ⟨hne, hknown, rfl⟩
    exact select_of_known hne hknown

/-- What a method of a team answers and leaves behind, one case for each method. -/
inductive Team.Called (look : PokemonId → Pokemon) (t : Team) :
    String → List Value → List (String × Value) → Reply → Team → Prop
  | add {id : PokemonId} : Called look t "add" [.object (.pokemon id)] []
    (.value (.int (countOf (t.roster ++ [id])))) ⟨t.roster ++ [id]⟩
  | remove {wanted : String} : Called look t "remove" [.str wanted] []
    (.value (.bool ((t.remove look wanted).roster.length ≠ t.roster.length))) (t.remove look wanted)
  | find {wanted : String} {id : PokemonId} : t.find? look wanted = some id →
    Called look t "find" [.str wanted] [] (.value (.object (.pokemon id))) t
  | filter {criteria : List (String × Value)} {ids : List PokemonId} :
    t.select look criteria = .ok ids → Called look t "filter" [] criteria (.roster ids) t

/-- To find a member is to look for its name in the roster. -/
theorem Team.answer_find (look : PokemonId → Pokemon) (t : Team) (wanted : String) :
    t.answer look "find" [.str wanted] [] = (t.find? look wanted).elim
      (.error (.noSuchMember wanted)) fun id ↦ .ok (.value (.object (.pokemon id)), t) := by
  simp only [Team.answer, Arguments.one, Arguments.noneNamed, Arguments.string, bind, Except.bind]
  cases t.find? look wanted <;> rfl

/-- To filter is to select by the criteria, which leaves the team alone. -/
theorem Team.answer_filter (look : PokemonId → Pokemon) (t : Team)
    (criteria : List (String × Value)) : t.answer look "filter" [] criteria =
      (t.select look criteria).map fun ids ↦ (.roster ids, t) := by
  show t.select look criteria >>= (fun ids ↦ Except.ok (Reply.roster ids, t)) = _
  cases t.select look criteria <;> rfl

/-- **A method of a team succeeds in just these cases.** -/
theorem Team.answer_eq_ok {look : PokemonId → Pokemon} {t t' : Team} {name : String}
    {args : List Value} {named : List (String × Value)} {reply : Reply} :
    t.answer look name args named = .ok (reply, t') ↔ t.Called look name args named reply t' := by
  constructor
  · intro hcall
    -- A call has passed one check after the other: how many arguments, which names, and what kind.
    unfold Team.answer at hcall
    dsimp only at hcall
    split at hcall
    · obtain ⟨v, hone, hrest⟩ := Except.of_bind_eq_ok hcall
      obtain ⟨_, hnamed, hrest⟩ := Except.of_bind_eq_ok hrest
      obtain ⟨id, hid, h⟩ := Except.of_bind_eq_ok hrest
      obtain rfl := Arguments.one_eq_ok.1 hone
      obtain rfl := Arguments.noneNamed_eq_ok.1 hnamed
      obtain rfl := Arguments.pokemon_eq_ok.1 hid
      cases h
      exact .add
    · obtain ⟨v, hone, hrest⟩ := Except.of_bind_eq_ok hcall
      obtain ⟨_, hnamed, hrest⟩ := Except.of_bind_eq_ok hrest
      obtain ⟨wanted, hwanted, h⟩ := Except.of_bind_eq_ok hrest
      obtain rfl := Arguments.one_eq_ok.1 hone
      obtain rfl := Arguments.noneNamed_eq_ok.1 hnamed
      obtain rfl := Arguments.string_eq_ok.1 hwanted
      cases h
      exact .remove
    · obtain ⟨v, hone, hrest⟩ := Except.of_bind_eq_ok hcall
      obtain ⟨_, hnamed, hrest⟩ := Except.of_bind_eq_ok hrest
      obtain ⟨wanted, hwanted, h⟩ := Except.of_bind_eq_ok hrest
      obtain rfl := Arguments.one_eq_ok.1 hone
      obtain rfl := Arguments.noneNamed_eq_ok.1 hnamed
      obtain rfl := Arguments.string_eq_ok.1 hwanted
      split at h
      · next id hid =>
        cases h
        exact .find hid
      · cases h
    · obtain ⟨_, hcount, hrest⟩ := Except.of_bind_eq_ok hcall
      obtain ⟨ids, hids, h⟩ := Except.of_bind_eq_ok hrest
      obtain rfl := List.length_eq_zero_iff.1 (Arguments.count_eq_ok.1 hcount)
      cases h
      exact .filter hids
    · cases hcall
  · intro h
    cases h with
    | add | remove => rfl
    | find hid => rw [Team.answer_find, hid]; rfl
    | filter hids => rw [Team.answer_filter, hids]; rfl

/-- A method of a team answers with members of it at most, and lets in at most a Pokémon it was
given. -/
theorem refs_team_answer {look : PokemonId → Pokemon} {t t' : Team} {name : String}
    {args : List Value} {named : List (String × Value)} {reply : Reply}
    (h : t.answer look name args named = .ok (reply, t')) :
    reply.refs ⊆ pokemonRefs t.roster ∧
      pokemonRefs t'.roster ⊆ pokemonRefs t.roster ++ Value.refsAll args := by
  have hpart : ∀ p : PokemonId → Bool, pokemonRefs (t.roster.filter p) ⊆ pokemonRefs t.roster :=
    fun p ↦ List.map_subset _ List.filter_sublist.subset
  cases Team.answer_eq_ok.1 h with
  | @add id =>
    refine ⟨List.nil_subset _, ?_⟩
    simp only [pokemonRefs, List.map_append]
    exact List.Subset.refl _
  | remove => exact ⟨List.nil_subset _, fun r hr ↦ List.mem_append_left _ (hpart _ hr)⟩
  | @find wanted id hid =>
    refine ⟨?_, List.subset_append_left _ _⟩
    have hmem : id ∈ t.roster := List.mem_of_find?_eq_some hid
    simpa [Reply.refs, Value.refs, pokemonRefs] using hmem
  | filter hids =>
    rw [(Team.select_eq_ok.1 hids).2.2]
    exact ⟨hpart _, List.subset_append_left _ _⟩

/-- Whether members match depends on these members only. -/
theorem Team.matching_congr {look look' : PokemonId → Pokemon} {criteria : List (String × Value)}
    {ids : List PokemonId} (hlook : ∀ id ∈ ids, look id = look' id) :
    matching look criteria ids = matching look' criteria ids := by
  induction ids with
  | nil => rfl
  | cons id ids ih =>
    rw [matching, matching, hlook id List.mem_cons_self,
      ih fun id' hid' ↦ hlook id' (List.mem_cons_of_mem id hid')]

/-- A team asks only about its own members. -/
theorem team_answer_congr {look look' : PokemonId → Pokemon} {t : Team}
    (hlook : ∀ id ∈ t.roster, look id = look' id) (name : String) (args : List Value)
    (named : List (String × Value)) :
    t.answer look name args named = t.answer look' name args named := by
  have hremove : t.remove look = t.remove look' := by
    funext wanted
    unfold Team.remove
    rw [List.filter_congr fun id hid ↦ by rw [hlook id hid]]
  have hfind : t.find? look = t.find? look' := by
    funext wanted
    unfold Team.find?
    rw [← List.head?_filter, ← List.head?_filter,
      List.filter_congr fun id hid ↦ by rw [hlook id hid]]
  have hselect : t.select look = t.select look' := by
    funext criteria
    unfold Team.select
    rw [Team.matching_congr hlook]
  unfold Team.answer
  rw [hremove, hfind, hselect]

/-! ### References in the store -/

/-- What the store holds at a reference refers to these. -/
def Store.targets (s : Store) : Ref → List Ref
  | .frame i => (s.frames.parent? i).toList.map .frame ++
      Value.refsAll ((s.frames.vars i).map Prod.snd)
  | .object (.zone id) => pokemonRefs (s.zone id).wild
  | .object (.team id) => pokemonRefs (s.team id).roster
  | .object (.pokemon _) => []

/-- What can be got at from the given references. -/
inductive Store.Reaches (s : Store) (roots : List Ref) : Ref → Prop
  | root {r : Ref} : r ∈ roots → Reaches s roots r
  | next {r r' : Ref} : Reaches s roots r → r' ∈ s.targets r → Reaches s roots r'

end SafariScript
