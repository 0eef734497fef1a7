import SafariScript.Proofs.Grammar.Joined
import SafariScript.Proofs.Store.Frames
import SafariScript.Proofs.Store.Mirrors
import SafariScript.Proofs.Store.References

/-!
# Stores without places

The functions in a store carry the places of their bodies with them. A value is **bare** when these
are taken out of it (`Value.bare`), and a store when all that is bound in it is bare (`Store.bare`).
Nothing in the store looks at the bodies of functions: whatever an operation makes of a store with
some arguments, it makes of the bare store with the bare arguments, up to places
(`Store.bares_getProperty` and the like). Most results hold no function, so they are bare already
(`Value.bare_eq_self`).
-/

namespace SafariScript

/-! ### Values -/

/-- The function without the places in its body. -/
def Function.bare (f : Function) : Function := { f with body := f.body.map Stmt.bare }

mutual

/-- The value without the places in its functions. -/
def Value.bare : Value → Value
  | .list id items => .list id (Value.bareAll items)
  | .function f => .function f.bare
  | v => v

/-- The values without the places in their functions. -/
def Value.bareAll : List Value → List Value
  | [] => []
  | v :: vs => v.bare :: Value.bareAll vs

end

namespace Value

theorem bareAll_eq_map (vs : List Value) : Value.bareAll vs = vs.map Value.bare := by
  induction vs with
  | nil => rfl
  | cons v vs ih => rw [bareAll, ih, List.map_cons]

mutual

/-- A value that refers to no frame holds no function. -/
theorem bare_eq_self {v : Value} (h : ∀ i, Ref.frame i ∉ v.refs) : v.bare = v := by
  match v with
  | .list id items => exact congrArg (Value.list id) (bareAll_eq_self h)
  | .function f => exact absurd List.mem_cons_self (h f.closure)
  | .null | .bool _ | .int _ | .decimal _ | .str _ | .object _ | .native _ => rfl

/-- Values that refer to no frame hold no functions, so they are bare. -/
theorem bareAll_eq_self {vs : List Value} (h : ∀ i, Ref.frame i ∉ Value.refsAll vs) :
    Value.bareAll vs = vs := by
  match vs with
  | [] => rfl
  | v :: vs =>
    have hv := bare_eq_self fun i hi ↦ h i (List.mem_append_left _ hi)
    have hvs := bareAll_eq_self fun i hi ↦ h i (List.mem_append_right _ hi)
    rw [bareAll, hv, hvs]

end

/-- A value without references is bare. -/
theorem bare_of_refs_eq_nil {v : Value} (h : v.refs = []) : v.bare = v :=
  bare_eq_self fun i hi ↦ by rw [h] at hi; cases hi

theorem bare_ofLiteral (value : Literal) : (ofLiteral value).bare = ofLiteral value :=
  bare_of_refs_eq_nil (refs_ofLiteral value)

@[simp] theorem ty_bare (v : Value) : v.bare.ty = v.ty := by cases v <;> rfl

@[simp] theorem isTruthy_bare (v : Value) : v.bare.isTruthy = v.isTruthy := by cases v <;> rfl

@[simp] theorem toInt?_bare (v : Value) : v.bare.toInt? = v.toInt? := by cases v <;> rfl

@[simp] theorem toString?_bare (v : Value) : v.bare.toString? = v.toString? := by cases v <;> rfl

mutual

/-- Functions are compared by their numbers, so places make no difference. -/
@[simp] theorem equals_bare (v w : Value) : v.bare.equals w.bare = v.equals w := by
  match v with
  | .list i items =>
    cases w with
    | list j items' => simp only [bare, equals, equalsAll_bare items items']
    | _ => rfl
  | .null | .bool _ | .int _ | .decimal _ | .str _ | .object _ | .function _ | .native _ =>
    cases w <;> rfl

/-- Lists are compared element by element. -/
theorem equalsAll_bare (vs ws : List Value) :
    equalsAll (Value.bareAll vs) (Value.bareAll ws) = equalsAll vs ws := by
  match vs with
  | [] => cases ws <;> rfl
  | v :: vs =>
    cases ws with
    | nil => rfl
    | cons w ws => simp only [bareAll, equalsAll, equals_bare v w, equalsAll_bare vs ws]

end

mutual

/-- The text of a function is its name. -/
@[simp] theorem text_bare (objectText : Object → String) (v : Value) :
    v.bare.text objectText = v.text objectText := by
  match v with
  | .list _ items => simp only [bare, text, itemTexts_bare objectText items]
  | .null | .bool _ | .int _ | .decimal _ | .str _ | .object _ | .function _ | .native _ => rfl

/-- The text of a list is made of those of its elements. -/
theorem itemTexts_bare (objectText : Object → String) (vs : List Value) :
    itemTexts objectText (Value.bareAll vs) = itemTexts objectText vs := by
  match vs with
  | [] => rfl
  | v :: vs =>
    have hv := text_bare objectText v
    have hvs := itemTexts_bare objectText vs
    cases v <;> simp only [bareAll, bare, itemTexts, hvs] at hv ⊢ <;> rw [hv]

end

end Value

/-! ### Operators -/

/-- Operators do not look into functions. -/
@[simp] theorem UnaryOp.apply_bare (op : UnaryOp) (v : Value) : op.apply v.bare = op.apply v := by
  cases op <;> cases v <;> rfl

/-- Operators on numbers see only numbers. -/
theorem BinaryOp.onNumbers_bare (op : BinaryOp) (l r : Value) :
    op.onNumbers l.bare r.bare = op.onNumbers l r := by
  cases l <;> cases r <;> rfl

/-- Whether the value is a string. -/
def Value.isString : Value → Bool
  | .str _ => true
  | _ => false

theorem Value.isString_bare (v : Value) : v.bare.isString = v.isString := by cases v <;> rfl

/-- A sum joins texts as soon as one side is a string. -/
theorem BinaryOp.add_apply (text : Value → String) (l r : Value) :
    BinaryOp.add.apply text l r = if l.isString || r.isString
      then .ok (.str (text l ++ text r)) else BinaryOp.add.onNumbers l r := by
  cases l <;> cases r <;> rfl

/-- Operators look at values as numbers and texts, or compare them. -/
theorem BinaryOp.apply_bare {text : Value → String} (htext : ∀ v, text v.bare = text v)
    (op : BinaryOp) (l r : Value) : op.apply text l.bare r.bare = op.apply text l r := by
  cases op with
  | eq | notEq => simp only [apply, Value.equals_bare]
  | add =>
    rw [add_apply, add_apply, l.isString_bare, r.isString_bare, htext, htext, onNumbers_bare]
  | sub | mul | div | mod | lt | ltEq | gt | gtEq => exact onNumbers_bare _ l r

/-! ### Arguments -/

/-- The bindings, or named arguments, with bare values. -/
def Bindings.bare (vars : Bindings) : Bindings := vars.map (Prod.map id Value.bare)

namespace Arguments

variable {place : Place} {name : String}

@[simp] theorem int_bare (v : Value) : int place v.bare = int place v := by cases v <;> rfl

/-- A function is no string, with or without places. -/
@[simp] theorem string_bare (v : Value) : string place v.bare = string place v := by
  cases v <;> rfl

/-- A function is no Pokémon, with or without places. -/
@[simp] theorem pokemon_bare (v : Value) : pokemon place v.bare = pokemon place v := by
  cases v <;> rfl

@[simp] theorem bool_bare (v : Value) : bool place v.bare = bool place v := by cases v <;> rfl

/-- A function is no number, with or without places. -/
@[simp] theorem toInt_bare (v : Value) : toInt place v.bare = toInt place v := by
  rw [toInt, v.toInt?_bare, v.ty_bare]
  rfl

/-- A function can be made into no string, with or without places. -/
@[simp] theorem toString_bare (v : Value) : toString place v.bare = toString place v := by
  rw [toString, v.toString?_bare, v.ty_bare]
  rfl

/-- A function is no count, with or without places. -/
@[simp] theorem toCounter_bare (v : Value) : toCounter place v.bare = toCounter place v := by
  rw [toCounter, toInt_bare]
  rfl

/-- There are as many arguments. -/
@[simp] theorem count_bare (vs : List Value) (n : Nat) :
    count name (vs.map Value.bare) n = count name vs n := by
  rw [count, List.length_map]
  rfl

/-- There are as many named arguments. -/
@[simp] theorem noneNamed_bare (ks : Bindings) :
    noneNamed name (Bindings.bare ks) = noneNamed name ks := by
  cases ks <;> rfl

/-- What is done with the only argument may not look at places. -/
theorem one_bind_bare {α : Type} {f f' : Value → Except Fault α} (hf : ∀ v, f' v.bare = f v)
    (vs : List Value) : (one name (vs.map Value.bare) >>= f') = (one name vs >>= f) := by
  match vs with
  | [] => rfl
  | [v] => exact hf v
  | v :: w :: vs =>
    show Except.error _ = Except.error _
    simp only [List.map_cons, List.length_cons, List.length_map]

end Arguments

/-! ### Objects -/

section Objects

variable (name : String) (v : Value) (vs : List Value) (ks : Bindings)

/-- A Pokémon looks at the new value as a number, a string or a truth value. -/
theorem Pokemon.withProperty_bare (p : Pokemon) :
    p.withProperty name v.bare = p.withProperty name v := by
  unfold Pokemon.withProperty
  simp only [Arguments.toInt_bare, Arguments.toString_bare, Arguments.bool_bare]

/-- A zone looks at the new value as a counter. -/
theorem Zone.withProperty_bare (z : Zone) : z.withProperty name v.bare = z.withProperty name v := by
  unfold Zone.withProperty
  simp only [Arguments.toCounter_bare]

/-- A Pokémon takes no arguments. -/
theorem Pokemon.answer_bare (p : Pokemon) :
    p.answer name (vs.map Value.bare) (Bindings.bare ks) = p.answer name vs ks := by
  unfold Pokemon.answer
  simp only [Arguments.count_bare, Arguments.noneNamed_bare]

/-- A counter looks at its argument as a number. -/
theorem Zone.raised_bare (counter : Int64) :
    Zone.raised counter name (vs.map Value.bare) = Zone.raised counter name vs :=
  Arguments.one_bind_bare (fun v ↦ by rw [Arguments.int_bare]) vs

/-- A zone looks at its arguments as numbers and Pokémon. -/
theorem Zone.answer_bare (z : Zone) :
    z.answer name (vs.map Value.bare) (Bindings.bare ks) = z.answer name vs ks := by
  unfold Zone.answer
  simp only [Arguments.noneNamed_bare, Zone.raised_bare]
  rw [Arguments.one_bind_bare fun v ↦ by rw [Arguments.pokemon_bare]]

/-- Criteria ask for attributes, which are no functions. -/
theorem Team.satisfies_bare (p : Pokemon) :
    Team.satisfies p (Bindings.bare ks) = Team.satisfies p ks := by
  induction ks with
  | nil => rfl
  | cons entry ks ih =>
    obtain ⟨key, wanted⟩ := entry
    show (p.get key >>= fun v ↦ if v.equals wanted.bare then Team.satisfies p (Bindings.bare ks)
      else .ok false) = (p.get key >>= fun v ↦ if v.equals wanted then Team.satisfies p ks
      else .ok false)
    cases hget : p.get key with
    | error fault => rfl
    | ok v =>
      have hv : v.bare = v := Value.bare_of_refs_eq_nil (refs_pokemon_get hget)
      have hequals : v.equals wanted.bare = v.equals wanted :=
        calc v.equals wanted.bare = v.bare.equals wanted.bare := by rw [hv]
          _ = v.equals wanted := Value.equals_bare v wanted
      show (if v.equals wanted.bare then _ else _) = if v.equals wanted then _ else _
      rw [hequals, ih]

/-- The criteria are compared with attributes, which are no functions. -/
theorem Team.matching_bare (look : PokemonId → Pokemon) (ids : List PokemonId) :
    Team.matching look (Bindings.bare ks) ids = Team.matching look ks ids := by
  induction ids with
  | nil => rfl
  | cons id ids ih => rw [Team.matching, Team.matching, Team.satisfies_bare, ih]

/-- Which criteria there are does not depend on places. -/
theorem Team.select_bare (look : PokemonId → Pokemon) (t : Team) :
    t.select look (Bindings.bare ks) = t.select look ks := by
  unfold Team.select
  have hfind : (Bindings.bare ks).find? (fun k ↦ !Pokemon.properties.contains k.1) =
      (ks.find? fun k ↦ !Pokemon.properties.contains k.1).map (Prod.map id Value.bare) :=
    List.find?_map ..
  simp only [Team.matching_bare]
  rw [hfind, Bindings.bare, List.isEmpty_map]
  cases ks.find? fun k ↦ !Pokemon.properties.contains k.1 <;> rfl

/-- A team looks at its arguments as strings, Pokémon and criteria. -/
theorem Team.answer_bare (look : PokemonId → Pokemon) (t : Team) :
    t.answer look name (vs.map Value.bare) (Bindings.bare ks) = t.answer look name vs ks := by
  unfold Team.answer
  simp only [Arguments.noneNamed_bare, Arguments.count_bare, Team.select_bare]
  split
  · exact Arguments.one_bind_bare (fun v ↦ by rw [Arguments.pokemon_bare]) vs
  · exact Arguments.one_bind_bare (fun v ↦ by rw [Arguments.string_bare]) vs
  · exact Arguments.one_bind_bare (fun v ↦ by rw [Arguments.string_bare]) vs
  · rfl
  · rfl

/-- To write a property asks nothing about places. -/
theorem Object.Contents.set_bare {o : Object} (x : o.Contents) :
    x.set name v.bare = x.set name v := by
  cases o with
  | zone id => exact Zone.withProperty_bare name v x
  | team id => rfl
  | pokemon id => exact Pokemon.withProperty_bare name v x

/-- Nor does a method. -/
theorem Object.Contents.call_bare (look : PokemonId → Pokemon) {o : Object} (x : o.Contents) :
    x.call look name (vs.map Value.bare) (Bindings.bare ks) = x.call look name vs ks := by
  cases o with
  | zone id => exact Zone.answer_bare name vs ks x
  | team id => exact Team.answer_bare name vs ks look x
  | pokemon id => exact congrArg (Except.map _) (Pokemon.answer_bare name vs ks x)

end Objects

/-! ### Frames -/

/-- What is bound is bound without its places. -/
@[simp] theorem Bindings.get?_bare (name : String) (vars : Bindings) :
    vars.bare.get? name = (vars.get? name).map Value.bare := by
  induction vars with
  | nil => rfl
  | cons entry vars ih =>
    show (if name = entry.1 then some entry.2.bare else get? name (bare vars)) = _
    rw [ih, Bindings.get?]
    split <;> rfl

/-- A new binding becomes a bare one. -/
@[simp] theorem Bindings.bare_insert (name : String) (v : Value) (vars : Bindings) :
    (vars.insert name v).bare = vars.bare.insert name v.bare := by
  induction vars with
  | nil => rfl
  | cons entry vars ih =>
    show _ = if name = entry.1 then (name, v.bare) :: bare vars
      else if name < entry.1 then (name, v.bare) :: (entry.1, entry.2.bare) :: bare vars
      else (entry.1, entry.2.bare) :: insert name v.bare (bare vars)
    rw [← ih, Bindings.insert]
    split
    · rfl
    · split <;> rfl

/-- The frame with bare values. -/
def Frame.bare (f : Frame) : Frame := { f with vars := f.vars.bare }

namespace Frames

/-- The frames with bare values. -/
def bare (fs : Frames) : Frames where
  toArray := fs.toArray.map Frame.bare
  older i f p hf hp := by
    rw [Array.getElem?_map] at hf
    obtain ⟨g, hg, rfl⟩ := Option.map_eq_some_iff.1 hf
    exact fs.older i g p hg hp

/-- Frames are the same if they are the same at every number. -/
theorem ext {fs fs' : Frames} (h : ∀ i, fs.frame? i = fs'.frame? i) : fs = fs' := by
  obtain ⟨a, ha⟩ := fs
  obtain ⟨a', ha'⟩ := fs'
  have harray : a = a' := Array.ext_getElem? h
  subst harray
  rfl

section Bare

variable (fs : Frames) (i : FrameId) (name : String) (v : Value)

/-- The frames are at their numbers. -/
@[simp] theorem frame?_bare : fs.bare.frame? i = (fs.frame? i).map Frame.bare :=
  Array.getElem?_map ..

@[simp] theorem size_bare : fs.bare.size = fs.size := Array.size_map ..

/-- A frame stands inside the same frame. -/
@[simp] theorem parent?_bare : fs.bare.parent? i = fs.parent? i := by
  unfold parent?
  rw [frame?_bare]
  cases fs.frame? i <;> rfl

@[simp] theorem vars_bare : fs.bare.vars i = (fs.vars i).bare := by
  unfold vars
  rw [frame?_bare]
  cases fs.frame? i <;> rfl

/-- The way out of a frame is the same. -/
@[simp] theorem path_bare : fs.bare.path i = fs.path i := path_congr fun _ _ ↦ fs.parent?_bare _

@[simp] theorem root_bare : fs.bare.root i = fs.root i := by rw [root, path_bare, root]

/-- A name is bound in the same frame. -/
@[simp] theorem resolve?_bare : fs.bare.resolve? i name = fs.resolve? i name := by
  simp only [resolve?, path_bare, vars_bare, Bindings.get?_bare, Option.isSome_map]

/-- A name stands for the value without places. -/
@[simp] theorem get?_bare : fs.bare.get? i name = (fs.get? i name).map Value.bare := by
  simp only [get?, path_bare, vars_bare, Bindings.get?_bare, List.map_findSome?]
  rfl

/-- A definition of a bare value in the bare frames. -/
theorem bare_define : (fs.define i name v).bare = fs.bare.define i name v.bare := by
  refine Frames.ext fun j ↦ ?_
  rw [frame?_bare, frame?_define, frame?_define, frame?_bare]
  split
  · cases fs.frame? j with
    | none => rfl
    | some f => exact congrArg some (congrArg (Frame.mk f.parent) (f.vars.bare_insert name v))
  · rfl

/-- An assignment of a bare value in the bare frames. -/
theorem bare_set : fs.bare.set i name v.bare = ((fs.set i name v).1, (fs.set i name v).2.bare) := by
  unfold set
  rw [resolve?_bare, root_bare]
  split
  · rw [bare_define]
  · rw [bare_define]

/-- A new frame is bare. -/
theorem bare_pushChild : (fs.pushChild i).2.bare = (fs.bare.pushChild i).2 := by
  refine Frames.ext fun j ↦ ?_
  rw [frame?_bare, frame?_pushChild, frame?_pushChild, size_bare, frame?_bare]
  split <;> rfl

end Bare

end Frames

/-! ### Stores -/

/-- The store in which all that is bound is bare. -/
def Store.bare (s : Store) : Store := { s with frames := s.frames.bare }

namespace Store

variable (s : Store)

/-- A list gets the same number. -/
theorem newList_bare (vs : List Value) :
    s.bare.newList (vs.map Value.bare) = Prod.map Value.bare bare (s.newList vs) := by
  rw [← Value.bareAll_eq_map]
  rfl

/-- A frame gets the same number. -/
theorem newFrame_bare (around : FrameId) :
    s.bare.newFrame around = Prod.map id bare (s.newFrame around) := by
  refine Prod.ext ?_ ?_
  · show (s.frames.bare.pushChild around).1 = (s.frames.pushChild around).1
    rw [Frames.pushChild_fst, Frames.pushChild_fst, Frames.size_bare]
  · show { s.bare with frames := (s.frames.bare.pushChild around).2 } = _
    rw [← Frames.bare_pushChild]
    rfl

theorem define_bare (frame : FrameId) (name : String) (v : Value) :
    s.bare.define frame name v.bare = (s.define frame name v).bare := by
  show { s.bare with frames := s.frames.bare.define frame name v.bare } = _
  rw [← Frames.bare_define]
  rfl

/-- Bindings one after the other. -/
theorem defineAll_bare (frame : FrameId) (vars : Bindings) :
    s.bare.defineAll frame (Bindings.bare vars) = (s.defineAll frame vars).bare := by
  induction vars generalizing s with
  | nil => rfl
  | cons entry vars ih =>
    show (s.bare.define frame entry.1 entry.2.bare).defineAll frame (Bindings.bare vars) = _
    rw [define_bare, ih]
    rfl

/-- An assignment finds the name in both stores or in neither. -/
theorem assign_bare (frame : FrameId) (name : String) (v : Value) :
    s.bare.assign frame name v.bare = Prod.map id bare (s.assign frame name v) := by
  show ((s.frames.bare.set frame name v.bare).1,
    { s.bare with frames := (s.frames.bare.set frame name v.bare).2 }) = _
  rw [Frames.bare_set]
  rfl

/-! #### Objects -/

/-- A computation on the store and one on the bare store that does the same, but for places. -/
abbrev Bares {α β : Type} (g : α → β) (x : StoreM α) (x' : StoreM β) : Prop :=
  Mirrors id bare g x x'

section Objects

open Steps (check)

variable {α β γ : Type} {g : β → γ}

/-- A check that comes out the same, and what is made of its result. -/
theorem bares_check {x : Except Fault α} {y : α → StoreM β} {y' : α → StoreM γ}
    (hy : ∀ a, x = .ok a → Bares g (y a) (y' a)) : Bares g (check x >>= y) (check x >>= y') := by
  cases x with
  | ok a => exact hy a rfl
  | error fault => exact .throw rfl

/-- A reply that refers to no frame is bare. -/
theorem bares_ofReply {reply : Reply} (h : ∀ i, Ref.frame i ∉ reply.refs) :
    Bares Value.bare (ofReply reply) (ofReply reply) := by
  cases reply with
  | value v => exact .pure (Value.bare_eq_self h).symm
  | roster members =>
    have hmembers : (members.map fun id ↦ Value.object (.pokemon id)).map Value.bare =
        members.map fun id ↦ .object (.pokemon id) := by
      rw [List.map_map]
      rfl
    refine .modifyGet fun s ↦ ?_
    rw [← newList_bare, hmembers]

/-- Answers of objects refer to Pokémon at most. -/
theorem frame_not_mem_of_subset {refs : List Ref} {ids : List PokemonId}
    (h : refs ⊆ pokemonRefs ids) (i : FrameId) : Ref.frame i ∉ refs := by
  intro hi
  obtain ⟨id, -, hid⟩ := List.mem_map.1 (h hi)
  cases hid

/-- What an object answers refers to Pokémon at most. -/
theorem frame_not_mem_get {o : Object} {x : o.Contents} {name : String} {reply : Reply}
    (h : x.get name = .ok reply) (i : FrameId) : Ref.frame i ∉ reply.refs := by
  cases o with
  | zone id => exact frame_not_mem_of_subset (refs_zone_get h) i
  | team id => exact frame_not_mem_of_subset (refs_team_get h) i
  | pokemon id =>
    obtain ⟨v, hv, rfl⟩ := Except.of_map_eq_ok h
    show Ref.frame i ∉ v.refs
    rw [refs_pokemon_get hv]
    exact List.not_mem_nil

/-- Methods give out no functions. -/
theorem frame_not_mem_call {o : Object} {x x' : o.Contents} {look : PokemonId → Pokemon}
    {name : String} {args : List Value} {named : List (String × Value)} {reply : Reply}
    (h : x.call look name args named = .ok (reply, x')) (i : FrameId) :
    Ref.frame i ∉ reply.refs := by
  cases o with
  | zone id =>
    rw [(refs_zone_answer h).1]
    exact List.not_mem_nil
  | team id => exact frame_not_mem_of_subset (refs_team_answer h).1 i
  | pokemon id =>
    obtain ⟨v, hv, hreply⟩ := Except.of_map_eq_ok h
    cases hreply
    show Ref.frame i ∉ v.refs
    rw [refs_pokemon_answer hv]
    exact List.not_mem_nil

/-- Objects hold no functions. -/
theorem put_bare (s : Store) (o : Object) (x : o.Contents) :
    s.bare.put o x = (s.put o x).bare := by
  cases o <;> rfl

/-- Objects are the same without places. -/
theorem contents_bare (s : Store) (o : Object) : s.bare.contents o = s.contents o := by
  cases o <;> rfl

/-- To read a property, without places. -/
theorem bares_getProperty (o : Object) (name : String) :
    Bares Value.bare (getProperty o name) (getProperty o name) := by
  intro s
  rw [getProperty_eq, getProperty_eq, contents_bare]
  exact bares_check (fun _ h ↦ bares_ofReply (frame_not_mem_get h)) s

/-- To write a property, without places. -/
theorem bares_setProperty (o : Object) (name : String) (v : Value) :
    Bares id (setProperty o name v) (setProperty o name v.bare) := by
  intro s
  rw [setProperty_eq, setProperty_eq, contents_bare, Object.Contents.set_bare]
  exact bares_check (fun x _ ↦ .set (put_bare s o x)) s

/-- To call a method, without places. -/
theorem bares_callMethod (o : Object) (name : String) (vs : List Value) (ks : Bindings) :
    Bares Value.bare (callMethod o name vs ks)
      (callMethod o name (vs.map Value.bare) (Bindings.bare ks)) := by
  intro s
  rw [callMethod_eq, callMethod_eq, contents_bare, Object.Contents.call_bare]
  refine bares_check (fun answer h ↦ .bind (.set (put_bare s o answer.2)) fun _ ↦ ?_) s
  exact bares_ofReply (frame_not_mem_call h)

/-! #### Native functions -/

/-- A zone is described by two counters. -/
theorem describedZone_bare (vs : List Value) :
    describedZone (vs.map Value.bare) = describedZone vs := by
  match vs with
  | [v, w] => simp only [List.map_cons, List.map_nil, describedZone, Arguments.toCounter_bare]
  | [] | [_] => rfl
  | _ :: _ :: _ :: _ => simp [describedZone]

/-- An argument is looked at by its conversion only. -/
theorem withArgument_bare {α : Type} (p : Pokemon) (arg : Option Value)
    {convert : Value → Except Fault α} (hconvert : ∀ v, convert v.bare = convert v)
    (write : α → Pokemon → Pokemon) :
    p.withArgument (arg.map Value.bare) convert write = p.withArgument arg convert write := by
  cases arg with
  | none => rfl
  | some v => exact congrArg (· >>= fun a ↦ Except.ok (write a p)) (hconvert v)

/-- A Pokémon is described by numbers and strings. -/
theorem describedPokemon_bare (vs : List Value) :
    describedPokemon (vs.map Value.bare) = describedPokemon vs := by
  match vs with
  | [] | [_] => rfl
  | v :: w :: more =>
    simp only [List.map_cons, describedPokemon, Pokemon.furnished, List.length_cons,
      List.length_map, List.getElem?_map, Arguments.string_bare, Arguments.toInt_bare,
      withArgument_bare _ _ Arguments.string_bare, withArgument_bare _ _ Arguments.toInt_bare]

theorem lengthOf_bare (v : Value) : lengthOf v.bare = lengthOf v := by
  cases v with
  | list id items =>
    show Except.ok (countOf (Value.bareAll items)) = .ok (countOf items)
    rw [Value.bareAll_eq_map, countOf, List.length_map]
    rfl
  | _ => rfl

/-- To call a native function, without places. -/
theorem bares_callNative (n : Native) (vs : List Value) :
    Bares Value.bare (callNative n vs) (callNative n (vs.map Value.bare)) := by
  cases n with
  | safariZone =>
    rw [callNative_safariZone, callNative_safariZone, describedZone_bare]
    exact bares_check fun _ _ ↦ .modifyGet fun _ ↦ rfl
  | team =>
    simp only [callNative, Arguments.count_bare]
    exact bares_check fun _ _ ↦ .modifyGet fun _ ↦ rfl
  | pokemon =>
    rw [callNative_pokemon, callNative_pokemon, describedPokemon_bare]
    exact bares_check fun _ _ ↦ .modifyGet fun _ ↦ rfl
  | len =>
    simp only [callNative, Arguments.one_bind_bare lengthOf_bare]
    exact bares_check fun _ _ ↦ .pure rfl

end Objects

end Store

end SafariScript
