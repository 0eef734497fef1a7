import SafariScript.Operator
import SafariScript.Proofs.Store.Methods

/-!
# Faults of operators and objects

Only `run` outside of a repetition ends in the fault `exitOutsideLoop`. No operator and no operation
on an object does (`NoExit`), whatever it is given.
-/

namespace SafariScript

/-- The check does not fail because something was left that cannot be left. -/
def NoExit {α : Type} (x : Except Fault α) : Prop := x ≠ .error .exitOutsideLoop

namespace NoExit

variable {α β : Type}

/-- Checks one after the other. -/
theorem bind {x : Except Fault α} {f : α → Except Fault β} (hx : NoExit x)
    (hf : ∀ a, NoExit (f a)) : NoExit (x >>= f) := by
  cases x with
  | ok a => exact hf a
  | error fault =>
    intro h
    exact hx (congrArg Except.error (Except.error.inj h))

/-! ### Operators -/

/-- What does not fit into 64 bits is an overflow. -/
theorem checked (op : BinaryOp) (n : Option Int64) : NoExit (checked op n) := by
  cases n <;> exact nofun

/-- A sign or a negation fails for the kind of its operand, or overflows. -/
theorem unary (op : UnaryOp) (v : Value) : NoExit (op.apply v) := by
  unfold UnaryOp.apply
  split
  · exact .checked _ _
  all_goals exact nofun

/-- Arithmetic on integers fails on a divisor of zero, or overflows. -/
theorem onInts (op : BinaryOp) (a b : Int64) : NoExit (op.onInts a b) := by
  unfold BinaryOp.onInts
  split
  case h_4 | h_5 =>
    split
    · exact nofun
    · exact .checked _ _
  all_goals first
    | exact .checked _ _
    | exact nofun

/-- Arithmetic on decimals fails on a divisor of zero, and has no remainders. -/
theorem onDecimals (op : BinaryOp) (left right : Ty) (a b : Float) :
    NoExit (op.onDecimals left right a b) := by
  unfold BinaryOp.onDecimals
  split
  case h_4 => split <;> exact nofun
  all_goals exact nofun

/-- Any other failure of an operator is about the kinds of its operands. -/
theorem binary (text : Value → String) (op : BinaryOp) (l r : Value) :
    NoExit (op.apply text l r) := by
  unfold BinaryOp.apply
  split
  case h_5 =>
    unfold BinaryOp.onNumbers
    split
    · exact .onInts _ _ _
    · split
      · exact .onDecimals _ _ _ _ _
      · exact nofun
  all_goals exact nofun

/-! ### Arguments -/

section Arguments

variable (name : String) (place : Place) (args : List Value) (named : List (String × Value))
  (v : Value)

/-- A wrong number of arguments is a fault of its own. -/
theorem count (n : Nat) : NoExit (Arguments.count name args n) := by
  unfold Arguments.count
  split <;> exact nofun

/-- So is anything but one argument. -/
theorem one : NoExit (Arguments.one name args) := by
  unfold Arguments.one
  split <;> exact nofun

/-- And so is a named argument where none is taken. -/
theorem noneNamed : NoExit (Arguments.noneNamed name named) := by
  cases named <;> exact nofun

/-- Each of the checks of a kind fails for the kind only. -/
theorem int : NoExit (Arguments.int place v) := by
  cases v <;> exact nofun

theorem string : NoExit (Arguments.string place v) := by
  cases v <;> exact nofun

theorem pokemon : NoExit (Arguments.pokemon place v) := by
  unfold Arguments.pokemon
  split <;> exact nofun

theorem bool : NoExit (Arguments.bool place v) := by
  cases v <;> exact nofun

theorem toInt : NoExit (Arguments.toInt place v) := by
  unfold Arguments.toInt
  split <;> exact nofun

theorem toString : NoExit (Arguments.toString place v) := by
  unfold Arguments.toString
  split <;> exact nofun

/-- A counter may fail for its sign besides. -/
theorem toCounter : NoExit (Arguments.toCounter place v) := by
  refine .bind (.toInt place v) fun n ↦ ?_
  split <;> exact nofun

end Arguments

/-! ### Objects -/

section Objects

variable (name : String) (args : List Value) (named : List (String × Value)) (v : Value)

/-- An attribute that cannot be read is unknown. -/
theorem pokemonGet (p : Pokemon) : NoExit (p.get name) := by
  unfold Pokemon.get
  split <;> exact nofun

/-- An attribute that cannot be written is unknown or the name, or the value is of a wrong kind. -/
theorem pokemonSet (p : Pokemon) : NoExit (p.withProperty name v) := by
  unfold Pokemon.withProperty
  dsimp only
  split
  case h_2 | h_3 => exact .bind (.toInt _ v) fun _ ↦ nofun
  case h_4 | h_5 => exact .bind (.toString _ v) fun _ ↦ nofun
  case h_6 => exact .bind (.bool _ v) fun _ ↦ nofun
  all_goals exact nofun

theorem pokemonCall (p : Pokemon) : NoExit (p.answer name args named) := by
  unfold Pokemon.answer
  split
  · exact .bind (.count _ args 0) fun _ ↦ .bind (.noneNamed _ named) fun _ ↦ nofun
  · exact nofun

theorem teamGet (t : Team) : NoExit (t.get name) := by
  unfold Team.get
  split <;> exact nofun

theorem teamSet (t : Team) : NoExit (t.withProperty name v) := by
  unfold Team.withProperty
  split <;> exact nofun

/-- To ask a Pokémon for the criteria fails where an attribute cannot be read. -/
theorem satisfies (p : Pokemon) (criteria : List (String × Value)) :
    NoExit (Team.satisfies p criteria) := by
  induction criteria with
  | nil => exact nofun
  | cons c criteria ih =>
    refine .bind (.pokemonGet c.1 p) fun v ↦ ?_
    split
    · exact ih
    · exact nofun

theorem matching (look : PokemonId → Pokemon) (criteria : List (String × Value))
    (ids : List PokemonId) : NoExit (Team.matching look criteria ids) := by
  induction ids with
  | nil => exact nofun
  | cons id ids ih => exact .bind (.satisfies _ _) fun keep ↦ .bind ih fun rest ↦ nofun

/-- A selection fails without a criterion, with an unknown one, or where a member fails. -/
theorem teamSelect (look : PokemonId → Pokemon) (t : Team) (criteria : List (String × Value)) :
    NoExit (t.select look criteria) := by
  unfold Team.select
  split
  · exact nofun
  · split
    · exact nofun
    · exact .matching look criteria t.roster

/-- The methods of a team, in the order in which their checks are made. -/
theorem teamCall (look : PokemonId → Pokemon) (t : Team) :
    NoExit (t.answer look name args named) := by
  unfold Team.answer
  dsimp only
  split
  · exact .bind (.one _ args) fun v ↦ .bind (.noneNamed _ named) fun _ ↦
      .bind (.pokemon _ v) fun _ ↦ nofun
  · exact .bind (.one _ args) fun v ↦ .bind (.noneNamed _ named) fun _ ↦
      .bind (.string _ v) fun _ ↦ nofun
  · refine .bind (.one _ args) fun v ↦ .bind (.noneNamed _ named) fun _ ↦
      .bind (.string _ v) fun wanted ↦ ?_
    split <;> exact nofun
  · exact .bind (.count _ args 0) fun _ ↦ .bind (.teamSelect look t named) fun _ ↦ nofun
  · exact nofun

theorem zoneGet (z : Zone) : NoExit (z.get name) := by
  unfold Zone.get
  split <;> exact nofun

/-- A counter that cannot be written is given a wrong kind or sign, or is none. -/
theorem zoneSet (z : Zone) : NoExit (z.withProperty name v) := by
  unfold Zone.withProperty
  dsimp only
  split
  case h_1 | h_2 => exact .bind (.toCounter _ v) fun _ ↦ nofun
  all_goals exact nofun

/-- A counter cannot be raised by a negative amount, nor past 64 bits. -/
theorem zoneRaised (counter : Int64) : NoExit (Zone.raised counter name args) := by
  refine .bind (.one name args) fun v ↦ .bind (.int _ v) fun amount ↦ ?_
  split
  · exact nofun
  · split <;> exact nofun

/-- The methods of a zone, in the order in which their checks are made. -/
theorem zoneCall (z : Zone) : NoExit (z.answer name args named) := by
  refine .bind (.noneNamed name named) fun _ ↦ ?_
  split
  · exact .bind (.zoneRaised _ args _) fun _ ↦ nofun
  · exact .bind (.zoneRaised _ args _) fun _ ↦ nofun
  · exact .bind (.one _ args) fun v ↦ .bind (.pokemon _ v) fun _ ↦ nofun
  · exact nofun

/-- An argument that may be left out fails for its kind. -/
theorem withArgument {α : Type} (p : Pokemon) (arg : Option Value)
    {convert : Value → Except Fault α} (hconvert : ∀ v, NoExit (convert v))
    (write : α → Pokemon → Pokemon) : NoExit (p.withArgument arg convert write) := by
  cases arg with
  | none => exact nofun
  | some v => exact .bind (hconvert v) fun _ ↦ nofun

/-- A Pokémon is not made of too few or too many arguments, nor of ones of a wrong kind. -/
theorem describedPokemon : NoExit (Store.describedPokemon args) := by
  unfold Store.describedPokemon
  dsimp only
  split
  · split
    · exact nofun
    · refine .bind (.string _ _) fun name ↦ .bind (.toInt _ _) fun level ↦ ?_
      exact .bind (.withArgument _ _ (.string _) _) fun _ ↦
        .bind (.withArgument _ _ (.string _) _) fun _ ↦ .withArgument _ _ (.toInt _) _
  · exact nofun

/-- A zone is made of two counters. -/
theorem describedZone : NoExit (Store.describedZone args) := by
  unfold Store.describedZone
  split
  · exact .bind (.toCounter _ _) fun _ ↦ .bind (.toCounter _ _) fun _ ↦ nofun
  · exact nofun

theorem lengthOf : NoExit (Store.lengthOf v) := by
  unfold Store.lengthOf
  split <;> exact nofun

end Objects

end NoExit

/-! ### The store -/

/-- The computation on the store does not fail because something was left that cannot be left. -/
def Store.NoExit {α : Type} (x : StoreM α) : Prop := ∀ s s', x s ≠ .error .exitOutsideLoop s'

namespace Store.NoExit

variable {α β : Type}

/-- A computation that does not fail. -/
theorem of_ok {x : StoreM α} (h : ∀ s, ∃ a s', x s = .ok a s') : Store.NoExit x := by
  intro s s' hx
  obtain ⟨a, s₁, hok⟩ := h s
  cases hok.symm.trans hx

/-- A computation that in every store is one of those that do not fail so. -/
theorem of_eq {x : StoreM α} (h : ∀ s, ∃ y : StoreM α, Store.NoExit y ∧ x s = y s) :
    Store.NoExit x := by
  intro s s' hx
  obtain ⟨y, hy, heq⟩ := h s
  exact hy s s' (heq ▸ hx)

/-- Computations one after the other. -/
theorem bind {x : StoreM α} {f : α → StoreM β} (hx : Store.NoExit x)
    (hf : ∀ a, Store.NoExit (f a)) : Store.NoExit (x >>= f) := by
  intro s s' h
  have hbind : EStateM.bind x f s = .error .exitOutsideLoop s' := h
  unfold EStateM.bind at hbind
  cases hr : x s with
  | ok a s₁ =>
    rw [hr] at hbind
    exact hf a s₁ s' hbind
  | error fault s₁ =>
    rw [hr] at hbind
    cases hbind
    exact hx s s' hr

/-- A failed check fails with its own fault. -/
theorem check {x : Except Fault α} (hx : SafariScript.NoExit x) :
    Store.NoExit (Steps.check x) := by
  cases x with
  | ok a => exact .of_ok fun s ↦ ⟨a, s, rfl⟩
  | error fault =>
    intro s s' h
    cases h
    exact hx rfl

/-- To answer never fails. -/
theorem ofReply (reply : Reply) : Store.NoExit (ofReply reply) := by
  cases reply <;> exact .of_ok fun s ↦ ⟨_, _, rfl⟩

theorem set (s : Store) : Store.NoExit (set s : StoreM Unit) := .of_ok fun _ ↦ ⟨(), s, rfl⟩

/-- Reading a property, whatever the object and the name. -/
theorem getProperty (o : Object) (name : String) : Store.NoExit (getProperty o name) := by
  refine .of_eq fun s ↦ ⟨_, .bind (.check ?_) .ofReply, getProperty_eq s o name⟩
  cases o with
  | zone id => exact .zoneGet name _
  | team id => exact .teamGet name _
  | pokemon id => exact .bind (.pokemonGet name (s.pokemonAt id)) fun _ ↦ nofun

/-- Writing a property, whatever the object, the name and the value. -/
theorem setProperty (o : Object) (name : String) (v : Value) :
    Store.NoExit (setProperty o name v) := by
  refine .of_eq fun s ↦ ⟨_, .bind (.check ?_) fun _ ↦ .set _, setProperty_eq s o name v⟩
  cases o with
  | zone id => exact .zoneSet name v _
  | team id => exact .teamSet name v (s.team id)
  | pokemon id => exact .pokemonSet name v _

/-- Calling a method, whatever the object, the name and the arguments. -/
theorem callMethod (o : Object) (name : String) (args : List Value)
    (named : List (String × Value)) : Store.NoExit (callMethod o name args named) := by
  refine .of_eq fun s ↦ ⟨_, .bind (.check ?_) fun _ ↦ .bind (.set _) fun _ ↦ .ofReply _,
    callMethod_eq s o name args named⟩
  cases o with
  | zone id => exact .zoneCall name args named _
  | team id => exact .teamCall name args named _ _
  | pokemon id => exact .bind (.pokemonCall name args named (s.pokemonAt id)) fun _ ↦ nofun

/-- Calling a native function, whatever the arguments. -/
theorem callNative (n : Native) (args : List Value) : Store.NoExit (callNative n args) := by
  cases n with
  | safariZone =>
    rw [callNative_safariZone]
    exact .bind (.check (.describedZone args)) fun _ ↦ .of_ok fun _ ↦ ⟨_, _, rfl⟩
  | team => exact .bind (.check (.count _ args 0)) fun _ ↦ .of_ok fun _ ↦ ⟨_, _, rfl⟩
  | pokemon =>
    rw [callNative_pokemon]
    exact .bind (.check (.describedPokemon args)) fun _ ↦ .of_ok fun _ ↦ ⟨_, _, rfl⟩
  | len =>
    exact .bind (.check (.bind (.one _ args) .lengthOf)) fun _ ↦ .of_ok fun _ ↦ ⟨_, _, rfl⟩

end Store.NoExit

end SafariScript
