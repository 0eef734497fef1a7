import SafariScript.Store.Basic

/-!
# What methods come to

A method acts step by step, and what it wrote before a fault would stay written. The methods of the
language write only when nothing can fail any more: all that a method does comes to an outcome **at
once**, which is a fault or an answer and a new object (`Steps.atOnce`). Here the outcome of every
method is given as a function of the object, and the steps are proved to come to it: one equation
for each kind of object and each thing that is done with it (`Zone.set_eq`, `Team.call_eq`, …).

The store keeps zones, teams and Pokémon in arrays of their own. Seen as **one** heap of objects of
three kinds (`Store.contents`, `Store.put`), it is read and written in the same way for all of them
(`getProperty_eq`, `setProperty_eq`, `callMethod_eq`). Whatever is proved about the operations of
the store goes through these equations, and not through the steps.
-/

namespace SafariScript

/-! ### All or nothing -/

namespace Steps

variable {σ τ α : Type}

/-- Where steps end that come to this outcome at once: behind an answer the state is the new one,
behind a fault it is as it was. -/
def atOnce (s : σ) : Except Fault (α × σ) → EStateM.Result Fault σ α
  | .ok (a, s') => .ok a s'
  | .error fault => .error fault s

/-- Steps on a part of the state come to an outcome at once, if they do so on the part. -/
theorem onPart_atOnce {part : σ → τ} {replace : τ → σ → σ} {x : Steps τ α} {s : σ}
    {outcome : Except Fault (α × τ)} (hx : x (part s) = atOnce (part s) outcome)
    (hback : replace (part s) s = s) :
    onPart part replace x s =
      atOnce s (outcome.map fun answer ↦ (answer.1, replace answer.2 s)) := by
  unfold onPart
  rw [hx]
  cases outcome with
  | ok answer => rfl
  | error fault => exact congrArg (EStateM.Result.error fault) hback

theorem getThe_bind (f : σ → Steps σ α) (s : σ) : (getThe σ >>= f) s = f s s := rfl

/-- A check in front, of the steps and of their outcome. -/
theorem check_bind_atOnce {β γ : Type} {s : σ} {x : Except Fault β} {f : β → Steps σ α}
    {g : β → Except Fault γ} {h : γ → α × σ} (hf : ∀ b, f b s = atOnce s ((g b).map h)) :
    (check x >>= f) s = atOnce s ((x >>= g).map h) := by
  cases x with
  | ok b => exact hf b
  | error fault => rfl

/-- Checks one after the other. -/
theorem check_bind_check {β γ : Type} (x : Except Fault α) (f : α → Except Fault β)
    (g : β → Steps σ γ) : check (x >>= f) >>= g = (check x >>= fun a ↦ check (f a) >>= g) := by
  cases x <;> rfl

/-- Where steps on something new end that come to an outcome at once: what is lost does not show. -/
theorem onNew_atOnce {x : Steps τ Unit} {t : τ} {s : σ} {outcome : Except Fault τ}
    (hx : x t = atOnce t (outcome.map ((), ·))) : onNew t x s = check outcome s := by
  unfold onNew
  rw [hx]
  cases outcome <;> rfl

/-- Steps on something new come to their outcome one after the other. -/
theorem onNew_bind {x y : Steps τ Unit} {t : τ} {s : σ} {outcome : Except Fault τ}
    (hx : x t = atOnce t (outcome.map ((), ·))) :
    onNew t (x >>= fun _ ↦ y) s = (check outcome >>= fun t' ↦ onNew t' y) s := by
  show onNew t (EStateM.bind x fun _ ↦ y) s = _
  unfold onNew EStateM.bind
  rw [hx]
  cases outcome <;> rfl

end Steps

open Steps (atOnce)

/-! ### Pokémon -/

namespace Pokemon

/-- The Pokémon after a value was written to an attribute. -/
def withProperty (p : Pokemon) (name : String) (v : Value) : Except Fault Pokemon :=
  let place : Place := .property .pokemon name
  match name with
  | "name" => .error (.readOnlyProperty .pokemon name)
  | "level" => do return { p with level := ← Arguments.toInt place v }
  | "friendliness" => do return { p with friendliness := ← Arguments.toInt place v }
  | "nature" => do return { p with nature := ← Arguments.toString place v }
  | "behavior" => do return { p with behavior := ← Arguments.toString place v }
  | "captured" => do return { p with captured := ← Arguments.bool place v }
  | _ => .error (.unknownProperty .pokemon name)

/-- What the Pokémon answers to a call. -/
def answer (p : Pokemon) (name : String) (args : List Value) (named : List (String × Value)) :
    Except Fault Value :=
  match name with
  | "describe" => do
    Arguments.count name args 0
    Arguments.noneNamed name named
    return .str p.describe
  | _ => .error (.unknownMethod .pokemon name)

/-- The Pokémon with an argument of the constructor, if it is given. -/
def withArgument {α : Type} (p : Pokemon) (arg : Option Value) (convert : Value → Except Fault α)
    (write : α → Pokemon → Pokemon) : Except Fault Pokemon :=
  arg.elim (.ok p) fun v ↦ do return write (← convert v) p

/-- The Pokémon with the further arguments of the constructor. -/
def furnished (p : Pokemon) (args : List Value) : Except Fault Pokemon := do
  let place (param : String) : Place := .argument Native.pokemon.name param
  let p ← p.withArgument args[0]? (Arguments.string (place "nature")) fun text p ↦
    { p with nature := text }
  let p ← p.withArgument args[1]? (Arguments.string (place "behavior")) fun text p ↦
    { p with behavior := text }
  p.withArgument args[2]? (Arguments.toInt (place "friendliness")) fun n p ↦
    { p with friendliness := n }

/-- A write checks the value, and then replaces one attribute. -/
theorem set_eq (name : String) (v : Value) (p : Pokemon) :
    Pokemon.set name v p = atOnce p ((p.withProperty name v).map ((), ·)) := by
  unfold Pokemon.set withProperty
  dsimp only
  split
  case h_1 => rfl
  case h_7 =>
    simp only [*, Except.map, Steps.atOnce]
    rfl
  all_goals exact Steps.check_bind_atOnce fun _ ↦ rfl

/-- No method changes the Pokémon. -/
theorem call_eq (name : String) (args : List Value) (named : List (String × Value)) (p : Pokemon) :
    Pokemon.call name args named p = atOnce p ((p.answer name args named).map (·, p)) := by
  unfold Pokemon.call answer
  split
  · exact Steps.check_bind_atOnce fun _ ↦ Steps.check_bind_atOnce fun _ ↦ rfl
  · simp only [*, Except.map, Steps.atOnce]
    rfl

/-- An argument is converted before it is written. -/
theorem writeArgument_eq {α : Type} (arg : Option Value) (convert : Value → Except Fault α)
    (write : α → Pokemon → Pokemon) (p : Pokemon) :
    writeArgument arg convert write p =
      atOnce p ((p.withArgument arg convert write).map ((), ·)) := by
  cases arg with
  | none => rfl
  | some v =>
    show (Steps.check (convert v) >>= fun a ↦ modify (write a)) p =
      atOnce p ((convert v >>= fun a ↦ .ok (write a p)).map ((), ·))
    cases convert v <;> rfl

/-- The further arguments are checked and written **one after the other**. A fault leaves a Pokémon
behind that has some of them; but it is a new one, and is lost then. -/
theorem onNew_furnish {σ : Type} (args : List Value) (p : Pokemon) (s : σ) :
    Steps.onNew p (Pokemon.furnish args) s = Steps.check (p.furnished args) s := by
  unfold furnish furnished
  dsimp only
  rw [Steps.onNew_bind (writeArgument_eq ..)]
  cases p.withArgument args[0]? _ _ with
  | error fault => rfl
  | ok p =>
    show Steps.onNew p _ s = Steps.check (p.withArgument _ _ _ >>= _) s
    rw [Steps.onNew_bind (writeArgument_eq ..)]
    cases p.withArgument args[1]? _ _ with
    | error fault => rfl
    | ok p => exact Steps.onNew_atOnce (writeArgument_eq ..)

end Pokemon

/-! ### Zones -/

namespace Zone

/-- The zone after a value was written to a property. -/
def withProperty (z : Zone) (name : String) (v : Value) : Except Fault Zone :=
  let place : Place := .property .zone name
  match name with
  | "balls" => do return { z with balls := ← Arguments.toCounter place v }
  | "turns" => do return { z with turns := ← Arguments.toCounter place v }
  | "pokemon" => .error (.readOnlyProperty .zone name)
  | _ => .error (.unknownProperty .zone name)

/-- A counter raised by the argument of a method. -/
def raised (counter : Int64) (method : String) (args : List Value) : Except Fault Int64 := do
  let amount ← Arguments.int (.method .zone method) (← Arguments.one method args)
  if amount < 0 then .error (.negativeAmount method amount)
  else
    match Integer.add? counter amount with
    | some n => .ok n
    | none => .error (.counterOverflow method)

/-- What the zone answers to a call, and what has become of it then. -/
def answer (z : Zone) (name : String) (args : List Value) (named : List (String × Value)) :
    Except Fault (Reply × Zone) := do
  Arguments.noneNamed name named
  match name with
  | "addBalls" =>
    let n ← raised z.balls name args
    return (.value (.int n), { z with balls := n })
  | "addTurns" =>
    let n ← raised z.turns name args
    return (.value (.int n), { z with turns := n })
  | "addPokemon" =>
    let id ← Arguments.pokemon (.method .zone name) (← Arguments.one name args)
    let wild := z.wild ++ [id]
    return (.value (.int (countOf wild)), { z with wild := wild })
  | _ => .error (.unknownMethod .zone name)

/-- A zone checks the value before it writes. -/
theorem set_eq (name : String) (v : Value) (k : Keeper Zone) :
    Zone.set name v k =
      atOnce k ((k.self.withProperty name v).map fun z ↦ ((), { k with self := z })) := by
  unfold Zone.set withProperty
  dsimp only
  split
  case h_1 | h_2 => exact Steps.check_bind_atOnce fun _ ↦ rfl
  case h_3 => rfl
  case h_4 =>
    simp only [*, Except.map, Steps.atOnce]
    rfl

/-- A counter is raised when its new value is known, and then read again. -/
theorem addToCounter_eq {counter : Zone → Int64} {write : Int64 → Zone → Zone}
    (hread : ∀ n z, counter (write n z) = n) (method : String) (args : List Value)
    (k : Keeper Zone) : addToCounter counter write method args k =
      atOnce k ((raised (counter k.self) method args).map fun n ↦
        (.value (.int n), { k with self := write n k.self })) := by
  refine Steps.check_bind_atOnce fun v ↦ Steps.check_bind_atOnce fun amount ↦ ?_
  by_cases hneg : amount < 0
  · rw [if_pos hneg, if_pos hneg]
    rfl
  · rw [if_neg hneg, if_neg hneg, Steps.getThe_bind]
    cases Integer.add? (counter k.self) amount with
    | none => rfl
    | some n =>
      show EStateM.Result.ok (Reply.value (.int (counter (write n k.self)))) _ =
        .ok (.value (.int n)) _
      rw [hread]

/-- A method of a zone checks its arguments before it writes. -/
theorem call_eq (name : String) (args : List Value) (named : List (String × Value))
    (k : Keeper Zone) : Zone.call name args named k =
      atOnce k ((k.self.answer name args named).map fun answer ↦
        (answer.1, { k with self := answer.2 })) := by
  refine Steps.check_bind_atOnce fun _ ↦ ?_
  split
  · rw [addToCounter_eq fun _ _ ↦ rfl]
    cases raised k.self.balls _ args <;> rfl
  · rw [addToCounter_eq fun _ _ ↦ rfl]
    cases raised k.self.turns _ args <;> rfl
  · exact Steps.check_bind_atOnce fun v ↦ Steps.check_bind_atOnce fun id ↦ rfl
  · simp only [*, Except.map, Steps.atOnce]
    rfl

end Zone

/-! ### Teams -/

namespace Team

/-- No value can be written to a property of a team. -/
def withProperty (_ : Team) (name : String) (_ : Value) : Except Fault Team :=
  match name with
  | "pokemon" => .error (.readOnlyProperty .team name)
  | "size" => .error (.readOnlyProperty .team name)
  | _ => .error (.unknownProperty .team name)

/-- What the team answers to a call, and what has become of it then. -/
def answer (look : PokemonId → Pokemon) (t : Team) (name : String) (args : List Value)
    (named : List (String × Value)) : Except Fault (Reply × Team) :=
  let place : Place := .method .team name
  match name with
  | "add" => do
    let v ← Arguments.one name args
    Arguments.noneNamed name named
    let roster := t.roster ++ [← Arguments.pokemon place v]
    return (.value (.int (countOf roster)), ⟨roster⟩)
  | "remove" => do
    let v ← Arguments.one name args
    Arguments.noneNamed name named
    let t' := t.remove look (← Arguments.string place v)
    return (.value (.bool (t'.roster.length ≠ t.roster.length)), t')
  | "find" => do
    let v ← Arguments.one name args
    Arguments.noneNamed name named
    let wanted ← Arguments.string place v
    match t.find? look wanted with
    | some id => return (.value (.object (.pokemon id)), t)
    | none => .error (.noSuchMember wanted)
  | "filter" => do
    Arguments.count name args 0
    return (.roster (← t.select look named), t)
  | _ => .error (.unknownMethod .team name)

/-- No property of a team can be written. -/
theorem set_eq (name : String) (v : Value) (k : Keeper Team) :
    Team.set name v k =
      atOnce k ((k.self.withProperty name v).map fun t ↦ ((), { k with self := t })) := by
  unfold Team.set withProperty
  split
  case h_3 =>
    simp only [*, Except.map, Steps.atOnce]
    rfl
  all_goals rfl

/-- A method of a team checks its arguments before it writes. -/
theorem call_eq (name : String) (args : List Value) (named : List (String × Value))
    (k : Keeper Team) : Team.call name args named k =
      atOnce k ((k.self.answer k.look name args named).map fun answer ↦
        (answer.1, { k with self := answer.2 })) := by
  unfold Team.call answer
  dsimp only
  split
  · exact Steps.check_bind_atOnce fun v ↦ Steps.check_bind_atOnce fun _ ↦
      Steps.check_bind_atOnce fun id ↦ rfl
  · exact Steps.check_bind_atOnce fun v ↦ Steps.check_bind_atOnce fun _ ↦
      Steps.check_bind_atOnce fun wanted ↦ rfl
  · refine Steps.check_bind_atOnce fun v ↦ Steps.check_bind_atOnce fun _ ↦
      Steps.check_bind_atOnce fun wanted ↦ ?_
    rw [Steps.getThe_bind]
    cases k.self.find? k.look wanted <;> rfl
  · refine Steps.check_bind_atOnce fun _ ↦ ?_
    rw [Steps.getThe_bind]
    exact Steps.check_bind_atOnce fun ids ↦ rfl
  · simp only [*, Except.map, Steps.atOnce]
    rfl

end Team

/-! ### The heap of objects -/

/-- What the store keeps for an object. -/
abbrev Object.Contents : Object → Type
  | .zone _ => Zone
  | .team _ => Team
  | .pokemon _ => Pokemon

namespace Object.Contents

variable {o : Object}

/-- Reads a property. -/
def get : {o : Object} → o.Contents → String → Except Fault Reply
  | .zone _, z, name => Zone.get z name
  | .team _, t, name => Team.get t name
  | .pokemon _, p, name => (Pokemon.get p name).map .value

/-- Writes a property. -/
def set : {o : Object} → o.Contents → String → Value → Except Fault o.Contents
  | .zone _, z, name, v => Zone.withProperty z name v
  | .team _, t, name, v => Team.withProperty t name v
  | .pokemon _, p, name, v => Pokemon.withProperty p name v

/-- Calls a method. -/
def call (look : PokemonId → Pokemon) : {o : Object} → o.Contents → String → List Value →
    List (String × Value) → Except Fault (Reply × o.Contents)
  | .zone _, z, name, args, named => Zone.answer z name args named
  | .team _, t, name, args, named => Team.answer look t name args named
  | .pokemon _, p, name, args, named => (Pokemon.answer p name args named).map (.value ·, p)

end Object.Contents

/-- An element that is replaced by itself is not changed. -/
theorem Array.setIfInBounds_getD {α : Type} (xs : Array α) (i : Nat) (d : α) :
    xs.setIfInBounds i (xs.getD i d) = xs := by
  by_cases hi : i < xs.size
  · have hself : xs.getD i d = xs[i] := by
      rw [Array.getD_eq_getD_getElem?, Array.getElem?_eq_getElem hi, Option.getD_some]
    rw [hself, Array.setIfInBounds_def, dif_pos hi, Array.set_getElem_self]
  · exact Array.setIfInBounds_eq_of_size_le (Nat.not_lt.1 hi)

namespace Store

open Steps (check)

/-- What is kept for an object. -/
def contents (s : Store) : (o : Object) → o.Contents
  | .zone id => s.zone id
  | .team id => s.team id
  | .pokemon id => s.pokemonAt id

/-- Replaces what is kept for an object. -/
def put (s : Store) : (o : Object) → o.Contents → Store
  | .zone id, z => { s with zones := s.zones.setIfInBounds id z }
  | .team id, t => { s with teams := s.teams.setIfInBounds id t }
  | .pokemon id, p => { s with pokemon := s.pokemon.setIfInBounds id p }

/-- To put an object back changes nothing. -/
theorem put_contents (s : Store) (o : Object) : s.put o (s.contents o) = s := by
  cases o <;> simp only [put, contents, zone, team, pokemonAt, Array.setIfInBounds_getD]

/-! ### The operations -/

/-- To read a property asks the object. -/
theorem getProperty_eq (s : Store) (o : Object) (name : String) :
    getProperty o name s = (check ((s.contents o).get name) >>= ofReply) s := by
  cases o with
  | zone id | team id => rfl
  | pokemon id =>
    show check ((s.pokemonAt id).get name) s =
      (check (((s.pokemonAt id).get name).map .value) >>= ofReply) s
    cases (s.pokemonAt id).get name <;> rfl

theorem onZone_eq {α : Type} {x : Steps (Keeper Zone) α} {s : Store} {id : Nat}
    {outcome : Except Fault (α × Keeper Zone)}
    (hx : x ⟨s.zone id, s.pokemon⟩ = atOnce ⟨s.zone id, s.pokemon⟩ outcome) :
    onZone id x s = atOnce s (outcome.map fun answer ↦ (answer.1,
      { s.put (.zone id) answer.2.self with pokemon := answer.2.pokemon })) :=
  Steps.onPart_atOnce hx (s.put_contents (.zone id))

theorem onTeam_eq {α : Type} {x : Steps (Keeper Team) α} {s : Store} {id : Nat}
    {outcome : Except Fault (α × Keeper Team)}
    (hx : x ⟨s.team id, s.pokemon⟩ = atOnce ⟨s.team id, s.pokemon⟩ outcome) :
    onTeam id x s = atOnce s (outcome.map fun answer ↦ (answer.1,
      { s.put (.team id) answer.2.self with pokemon := answer.2.pokemon })) :=
  Steps.onPart_atOnce hx (s.put_contents (.team id))

theorem onPokemon_eq {α : Type} {x : Steps Pokemon α} {s : Store} {id : PokemonId}
    {outcome : Except Fault (α × Pokemon)}
    (hx : x (s.pokemonAt id) = atOnce (s.pokemonAt id) outcome) :
    onPokemon id x s = atOnce s (outcome.map fun answer ↦
      (answer.1, s.put (.pokemon id) answer.2)) :=
  Steps.onPart_atOnce hx (s.put_contents (.pokemon id))

/-- To write a property replaces the object, if the value can be written. -/
theorem setProperty_eq (s : Store) (o : Object) (name : String) (v : Value) :
    setProperty o name v s =
      (check ((s.contents o).set name v) >>= fun x ↦ set (s.put o x)) s := by
  cases o with
  | zone id =>
    refine (onZone_eq (Zone.set_eq ..)).trans ?_
    show _ = (check ((s.zone id).withProperty name v) >>= _) s
    cases (s.zone id).withProperty name v <;> rfl
  | team id =>
    refine (onTeam_eq (Team.set_eq ..)).trans ?_
    show _ = (check ((s.team id).withProperty name v) >>= _) s
    cases (s.team id).withProperty name v <;> rfl
  | pokemon id =>
    refine (onPokemon_eq (Pokemon.set_eq ..)).trans ?_
    show _ = (check ((s.pokemonAt id).withProperty name v) >>= _) s
    cases (s.pokemonAt id).withProperty name v <;> rfl

/-- To call a method replaces the object by what the call makes of it, and answers. -/
theorem callMethod_eq (s : Store) (o : Object) (name : String) (args : List Value)
    (named : List (String × Value)) : callMethod o name args named s =
      (check ((s.contents o).call s.pokemonAt name args named) >>= fun answer ↦ do
        set (s.put o answer.2)
        ofReply answer.1) s := by
  cases o with
  | zone id =>
    show EStateM.bind (onZone id (Zone.call name args named)) ofReply s =
      (check ((s.zone id).answer name args named) >>= _) s
    unfold EStateM.bind
    rw [onZone_eq (Zone.call_eq ..)]
    cases (s.zone id).answer name args named <;> rfl
  | team id =>
    show EStateM.bind (onTeam id (Team.call name args named)) ofReply s =
      (check ((s.team id).answer s.pokemonAt name args named) >>= _) s
    unfold EStateM.bind
    have hcall : Team.call name args named ⟨s.team id, s.pokemon⟩ =
        atOnce _ (((s.team id).answer s.pokemonAt name args named).map fun answer ↦
          (answer.1, ⟨answer.2, s.pokemon⟩)) :=
      Team.call_eq name args named ⟨s.team id, s.pokemon⟩
    rw [onTeam_eq hcall]
    cases (s.team id).answer s.pokemonAt name args named <;> rfl
  | pokemon id =>
    refine (onPokemon_eq (Pokemon.call_eq ..)).trans ?_
    show _ = (check (((s.pokemonAt id).answer name args named).map _) >>= _) s
    cases (s.pokemonAt id).answer name args named <;> rfl

/-! ### Native functions -/

/-- The zone described by the arguments of the constructor: balls and turns. -/
def describedZone (args : List Value) : Except Fault Zone :=
  match args with
  | [v, w] => do
    let balls ← Arguments.toCounter (.argument Native.safariZone.name "balls") v
    return .new balls (← Arguments.toCounter (.argument Native.safariZone.name "turns") w)
  | _ => .error (.wrongArity Native.safariZone.name 2 args.length)

/-- The Pokémon described by the arguments of the constructor: name and level, then what is given
besides. -/
def describedPokemon (args : List Value) : Except Fault Pokemon :=
  let place (param : String) : Place := .argument Native.pokemon.name param
  match args with
  | v :: w :: more => do
    if 3 < more.length then .error (.wrongArityRange Native.pokemon.name 2 5 args.length)
    else
      let name ← Arguments.string (place "name") v
      let level ← Arguments.toInt (place "level") w
      (Pokemon.new name level).furnished more
  | _ => .error (.wrongArityRange Native.pokemon.name 2 5 args.length)

/-- A zone is made when both of its counters are in order. -/
theorem callNative_safariZone (args : List Value) :
    callNative .safariZone args = (do modifyGet (newZone (← check (describedZone args)))) := by
  match args with
  | [v, w] =>
    simp only [callNative, describedZone, Steps.check_bind_check]
    rfl
  | [] | [_] | _ :: _ :: _ :: _ => rfl

/-- A Pokémon is made when all that it was given is in order. -/
theorem callNative_pokemon (args : List Value) :
    callNative .pokemon args = (do modifyGet (newPokemon (← check (describedPokemon args)))) := by
  match args with
  | v :: w :: more =>
    simp only [callNative, describedPokemon]
    split
    · rfl
    · simp only [Steps.check_bind_check]
      refine congrArg _ (funext fun name ↦ congrArg _ (funext fun level ↦ funext fun s ↦ ?_))
      show EStateM.bind (Steps.onNew _ _) _ s = EStateM.bind (check _) _ s
      unfold EStateM.bind
      rw [Pokemon.onNew_furnish]
  | [] | [_] => rfl

end Store

end SafariScript
