import SafariScript.Proofs.Decimal.Whole
import SafariScript.Proofs.Store.Counters
import SafariScript.Proofs.Store.Objects

/-!
# Properties

A property is read, written, and named as a criterion of a selection. Each kind of object has one
table for reading and one for writing, and Pokémon have the list `Pokemon.properties` besides. Here
they are compared: the tables know the same names (`Object.properties`), and what can be written
(`Object.writable`) behaves like the field of a record.

`Zone.Written` and `Pokemon.Written` say what a write does, one case for each property that can be
written: it converts the value to the kind of the property and replaces this one attribute. The laws
follow from the cases: what was written is read back (`get_self`), the other properties are as they
were (`get_of_ne`), the last write counts (`set_eq`), and writing what is there changes nothing
(`Written.of_get`).

What a conversion is, `Store.KeptAs` says in its own words: the integer part of a number, toward
zero, and the text that is printed for a value. That the checks of arguments compute this is
`keptAs_int` and `keptAs_string`.
-/

namespace SafariScript

/-- What a value becomes where a value of some kind is kept. Where integers are kept, a decimal
becomes the integer part of the number it stands for, toward zero. Where texts are kept, a number or
a truth value becomes what a script prints for it. -/
inductive Store.KeptAs (s : Store) : Value → Ty → Value → Prop
  | int {n : Int64} : KeptAs s (.int n) .int (.int n)
  | cutOff {x : Float} {q : ℚ} {n : Int64} : Decimal.value? x = some q →
    n.toInt = Decimal.towardZero q → KeptAs s (.decimal x) .int (.int n)
  | string {t : String} : KeptAs s (.str t) .string (.str t)
  | printed {v : Value} : v.ty ∈ [.int, .decimal, .bool] → KeptAs s v .string (.str (s.text v))
  | bool {b : Bool} : KeptAs s (.bool b) .bool (.bool b)

namespace Store

variable {s : Store} {v w : Value}

/-- Where integers are kept, what becomes of a value is what the checks of arguments make of it. -/
theorem keptAs_int : s.KeptAs v .int w ↔ ∃ n, v.toInt? = some n ∧ w = .int n := by
  constructor
  · intro h
    cases h with
    | int => exact ⟨_, rfl, rfl⟩
    | cutOff hq hn => exact ⟨_, Integer.ofDecimal?_eq_some.2 ⟨_, hq, hn⟩, rfl⟩
  · rintro ⟨n, hn, rfl⟩
    cases v with
    | int => cases hn; exact .int
    | decimal x =>
      obtain ⟨q, hq, hcut⟩ := Integer.ofDecimal?_eq_some.1 hn
      exact .cutOff hq hcut
    | null | bool | str | list | object | function | native => cases hn

/-- Where texts are kept, likewise. -/
theorem keptAs_string : s.KeptAs v .string w ↔ ∃ t, v.toString? = some t ∧ w = .str t := by
  constructor
  · intro h
    cases h with
    | string => exact ⟨_, rfl, rfl⟩
    | printed hty =>
      cases v with
      | int | decimal | bool => exact ⟨_, rfl, rfl⟩
      | object o => cases o <;> simp [Value.ty, Object.ty] at hty
      | null | str | list | function | native => simp [Value.ty] at hty
  · rintro ⟨t, ht, rfl⟩
    cases v with
    | str => cases ht; exact .string
    | int | decimal | bool => cases ht; exact .printed (by simp [Value.ty])
    | null | list | object | function | native => cases ht

/-- A truth value is kept as it is, and nothing else is kept as one. -/
theorem keptAs_bool : s.KeptAs v .bool w ↔ ∃ b, v = .bool b ∧ w = .bool b := by
  constructor
  · intro h
    cases h with
    | bool => exact ⟨_, rfl, rfl⟩
  · rintro ⟨b, rfl, rfl⟩
    exact .bool

end Store

/-- The names of the properties of an object. -/
def Object.properties : Object → List String
  | .zone _ => ["balls", "turns", "pokemon"]
  | .team _ => ["pokemon", "size"]
  | .pokemon _ => Pokemon.properties

/-- The names of the properties that can be written. -/
def Object.writable : Object → List String
  | .zone _ => ["balls", "turns"]
  | .team _ => []
  | .pokemon _ => ["level", "nature", "behavior", "friendliness", "captured"]

/-! ### What a write does -/

/-- What writing a value to a property makes of a zone. -/
inductive Zone.Written (z : Zone) : String → Value → Zone → Prop
  | balls {v : Value} {n : Int64} : v.toInt? = some n → ¬ n < 0 →
    Written z "balls" v { z with balls := n }
  | turns {v : Value} {n : Int64} : v.toInt? = some n → ¬ n < 0 →
    Written z "turns" v { z with turns := n }

/-- What writing a value to a property makes of a Pokémon. -/
inductive Pokemon.Written (p : Pokemon) : String → Value → Pokemon → Prop
  | level {v : Value} {n : Int64} : v.toInt? = some n → Written p "level" v { p with level := n }
  | nature {v : Value} {t : String} : v.toString? = some t →
    Written p "nature" v { p with nature := t }
  | behavior {v : Value} {t : String} : v.toString? = some t →
    Written p "behavior" v { p with behavior := t }
  | friendliness {v : Value} {n : Int64} : v.toInt? = some n →
    Written p "friendliness" v { p with friendliness := n }
  | captured {b : Bool} : Written p "captured" (.bool b) { p with captured := b }

/-- What writing a value to a property makes of an object. -/
def Object.Contents.Written : {o : Object} → o.Contents → String → Value → o.Contents → Prop
  | .zone _, z, name, v, z' => Zone.Written z name v z'
  | .team _, _, _, _, _ => False
  | .pokemon _, p, name, v, p' => Pokemon.Written p name v p'

theorem Arguments.toInt_eq_ok {place : Place} {v : Value} {n : Int64} :
    Arguments.toInt place v = .ok n ↔ v.toInt? = some n := by
  unfold Arguments.toInt
  cases v.toInt? <;> simp

theorem Arguments.toString_eq_ok {place : Place} {v : Value} {t : String} :
    Arguments.toString place v = .ok t ↔ v.toString? = some t := by
  unfold Arguments.toString
  cases v.toString? <;> simp

theorem Arguments.bool_eq_ok {place : Place} {v : Value} {b : Bool} :
    Arguments.bool place v = .ok b ↔ v = .bool b := by
  cases v <;> simp [Arguments.bool]

/-- A counter is an integer part that is not negative. -/
theorem Arguments.toCounter_eq_ok {place : Place} {v : Value} {n : Int64} :
    Arguments.toCounter place v = .ok n ↔ v.toInt? = some n ∧ ¬ n < 0 := by
  have hint : Arguments.toInt place v = .ok n ↔ v.toInt? = some n := Arguments.toInt_eq_ok
  rw [← hint]
  constructor
  · intro h
    obtain ⟨k, hk, h⟩ := Except.of_bind_eq_ok h
    split at h
    · cases h
    · next hneg =>
      cases h
      exact ⟨hk, hneg⟩
  · rintro ⟨hn, hneg⟩
    show (Arguments.toInt place v >>= fun n ↦ if n < 0 then _ else .ok n) = .ok n
    rw [hn]
    exact if_neg hneg

/-- The outcome of a write to a zone, by cases. -/
theorem Zone.withProperty_eq_ok {z z' : Zone} {name : String} {v : Value} :
    z.withProperty name v = .ok z' ↔ z.Written name v z' := by
  constructor
  · intro h
    unfold Zone.withProperty at h
    dsimp only at h
    split at h
    case h_1 =>
      obtain ⟨n, hn, h⟩ := Except.of_bind_eq_ok h
      cases h
      exact .balls (Arguments.toCounter_eq_ok.1 hn).1 (Arguments.toCounter_eq_ok.1 hn).2
    case h_2 =>
      obtain ⟨n, hn, h⟩ := Except.of_bind_eq_ok h
      cases h
      exact .turns (Arguments.toCounter_eq_ok.1 hn).1 (Arguments.toCounter_eq_ok.1 hn).2
    all_goals cases h
  · intro h
    cases h with
    | balls hn hneg =>
      exact congrArg (· >>= fun n ↦ .ok { z with balls := n })
        (Arguments.toCounter_eq_ok.2 ⟨hn, hneg⟩)
    | turns hn hneg =>
      exact congrArg (· >>= fun n ↦ .ok { z with turns := n })
        (Arguments.toCounter_eq_ok.2 ⟨hn, hneg⟩)

/-- The outcome of a write to a Pokémon, by cases. -/
theorem Pokemon.withProperty_eq_ok {p p' : Pokemon} {name : String} {v : Value} :
    p.withProperty name v = .ok p' ↔ p.Written name v p' := by
  constructor
  · intro h
    unfold Pokemon.withProperty at h
    dsimp only at h
    split at h
    case h_1 | h_7 => cases h
    all_goals
      obtain ⟨n, hn, h⟩ := Except.of_bind_eq_ok h
      cases h
    · exact .level (Arguments.toInt_eq_ok.1 hn)
    · exact .friendliness (Arguments.toInt_eq_ok.1 hn)
    · exact .nature (Arguments.toString_eq_ok.1 hn)
    · exact .behavior (Arguments.toString_eq_ok.1 hn)
    · cases Arguments.bool_eq_ok.1 hn
      exact .captured
  · intro h
    cases h with
    | level hn =>
      exact congrArg (· >>= fun n ↦ .ok { p with level := n }) (Arguments.toInt_eq_ok.2 hn)
    | nature ht =>
      exact congrArg (· >>= fun t ↦ .ok { p with nature := t }) (Arguments.toString_eq_ok.2 ht)
    | behavior ht =>
      exact congrArg (· >>= fun t ↦ .ok { p with behavior := t }) (Arguments.toString_eq_ok.2 ht)
    | friendliness hn =>
      exact congrArg (· >>= fun n ↦ .ok { p with friendliness := n }) (Arguments.toInt_eq_ok.2 hn)
    | captured => rfl

/-! ### The tables -/

theorem Except.of_bind_eq_error {ε α β : Type} {x : Except ε α} {f : α → Except ε β} {e : ε}
    (h : x >>= f = .error e) : x = .error e ∨ ∃ a, x = .ok a ∧ f a = .error e := by
  cases x with
  | ok a => exact .inr ⟨a, rfl, h⟩
  | error e' =>
    cases h
    exact .inl rfl

namespace Arguments

variable {place : Place} {v : Value} {fault : Fault}

/-- A value that is no number is not an unknown property. -/
theorem category_ne_of_toInt (h : Arguments.toInt place v = .error fault) :
    fault.category ≠ .unknownProperty := by
  unfold Arguments.toInt at h
  split at h <;> cases h
  exact Fault.Category.noConfusion

/-- A value that is no string is not an unknown property. -/
theorem category_ne_of_toString (h : Arguments.toString place v = .error fault) :
    fault.category ≠ .unknownProperty := by
  unfold Arguments.toString at h
  split at h <;> cases h
  exact Fault.Category.noConfusion

/-- A value that is no truth value is not an unknown property. -/
theorem category_ne_of_bool (h : Arguments.bool place v = .error fault) :
    fault.category ≠ .unknownProperty := by
  cases v <;> cases h <;> exact Fault.Category.noConfusion

/-- A value that is no counter is not an unknown property. -/
theorem category_ne_of_toCounter (h : Arguments.toCounter place v = .error fault) :
    fault.category ≠ .unknownProperty := by
  rcases Except.of_bind_eq_error h with h | ⟨n, -, h⟩
  · exact category_ne_of_toInt h
  · split at h <;> cases h
    exact Fault.Category.noConfusion

end Arguments

namespace Object.Contents

variable {o : Object} {x x' : o.Contents} {name name' : String} {v : Value}

/-- A write succeeds with exactly what it makes of the object. -/
theorem set_eq_ok : x.set name v = .ok x' ↔ x.Written name v x' := by
  cases o with
  | zone id => exact Zone.withProperty_eq_ok
  | team id => exact ⟨not_team_withProperty (t := x) (v := v), False.elim⟩
  | pokemon id => exact Pokemon.withProperty_eq_ok

/-- The properties that can be read are those of the list. -/
theorem get_of_mem (x : o.Contents) (hname : name ∈ o.properties) :
    ∃ reply, x.get name = .ok reply := by
  cases o with
  | zone id =>
    simp only [properties, List.mem_cons, List.not_mem_nil, or_false] at hname
    rcases hname with rfl | rfl | rfl <;> exact ⟨_, rfl⟩
  | team id =>
    simp only [properties, List.mem_cons, List.not_mem_nil, or_false] at hname
    rcases hname with rfl | rfl <;> exact ⟨_, rfl⟩
  | pokemon id =>
    obtain ⟨v, hv⟩ := Pokemon.get_of_mem x hname
    exact ⟨.value v, congrArg (Except.map Reply.value) hv⟩

/-- A name outside of the table cannot be read. -/
theorem get_of_not_mem (x : o.Contents) (hname : name ∉ o.properties) :
    x.get name = .error (.unknownProperty o.ty name) := by
  cases o with
  | zone id =>
    show Zone.get x name = _
    unfold Zone.get
    split
    case h_4 => rfl
    all_goals exact absurd (by simp [properties]) hname
  | team id =>
    show Team.get x name = _
    unfold Team.get
    split
    case h_3 => rfl
    all_goals exact absurd (by simp [properties]) hname
  | pokemon id =>
    show (Pokemon.get x name).map Reply.value = _
    unfold Pokemon.get
    split
    case h_7 => rfl
    all_goals exact absurd (by simp [properties, Pokemon.properties]) hname

/-- A name outside of the table cannot be written. -/
theorem set_of_not_mem (x : o.Contents) (v : Value) (hname : name ∉ o.properties) :
    x.set name v = .error (.unknownProperty o.ty name) := by
  cases o with
  | zone id =>
    show Zone.withProperty x name v = _
    unfold Zone.withProperty
    dsimp only
    split
    case h_4 => rfl
    all_goals exact absurd (by simp [properties]) hname
  | team id =>
    show Team.withProperty x name v = _
    unfold Team.withProperty
    split
    case h_3 => rfl
    all_goals exact absurd (by simp [properties]) hname
  | pokemon id =>
    show Pokemon.withProperty x name v = _
    unfold Pokemon.withProperty
    dsimp only
    split
    case h_7 => rfl
    all_goals exact absurd (by simp [properties, Pokemon.properties]) hname

/-- A property of the list is not unknown to writing, whatever else may be wrong. -/
theorem category_ne_of_set {fault : Fault} (hname : name ∈ o.properties)
    (h : x.set name v = .error fault) : fault.category ≠ .unknownProperty := by
  have hbind : ∀ {α β : Type} {e : Except Fault α} {f : α → β},
      (e >>= fun a ↦ .ok (f a)) = .error fault → e = .error fault := by
    intro α β e f h
    rcases Except.of_bind_eq_error h with h | ⟨_, -, h⟩
    · exact h
    · cases h
  cases o with
  | zone id =>
    simp only [properties, List.mem_cons, List.not_mem_nil, or_false] at hname
    rcases hname with rfl | rfl | rfl
    · exact Arguments.category_ne_of_toCounter (hbind h)
    · exact Arguments.category_ne_of_toCounter (hbind h)
    · cases h
      decide
  | team id =>
    simp only [properties, List.mem_cons, List.not_mem_nil, or_false] at hname
    rcases hname with rfl | rfl
    · cases h
      decide
    · cases h
      decide
  | pokemon id =>
    simp only [properties, Pokemon.properties, List.mem_cons, List.not_mem_nil, or_false] at hname
    rcases hname with rfl | rfl | rfl | rfl | rfl | rfl
    · cases h
      decide
    · exact Arguments.category_ne_of_toInt (hbind h)
    · exact Arguments.category_ne_of_toString (hbind h)
    · exact Arguments.category_ne_of_toString (hbind h)
    · exact Arguments.category_ne_of_toInt (hbind h)
    · exact Arguments.category_ne_of_bool (hbind h)

/-! ### The laws of a field -/

/-- What was written is read back, as a value of the kind that the property has. -/
theorem Written.get_self (s : Store) (h : x.Written name v x') :
    ∃ old new, x.get name = .ok (.value old) ∧ s.KeptAs v old.ty new ∧
      x'.get name = .ok (.value new) := by
  cases o with
  | zone id =>
    cases h with
    | balls hn _ => exact ⟨.int x.balls, _, rfl, Store.keptAs_int.2 ⟨_, hn, rfl⟩, rfl⟩
    | turns hn _ => exact ⟨.int x.turns, _, rfl, Store.keptAs_int.2 ⟨_, hn, rfl⟩, rfl⟩
  | team id => exact h.elim
  | pokemon id =>
    cases h with
    | level hn => exact ⟨.int x.level, _, rfl, Store.keptAs_int.2 ⟨_, hn, rfl⟩, rfl⟩
    | nature ht => exact ⟨.str x.nature, _, rfl, Store.keptAs_string.2 ⟨_, ht, rfl⟩, rfl⟩
    | behavior ht => exact ⟨.str x.behavior, _, rfl, Store.keptAs_string.2 ⟨_, ht, rfl⟩, rfl⟩
    | friendliness hn => exact ⟨.int x.friendliness, _, rfl, Store.keptAs_int.2 ⟨_, hn, rfl⟩, rfl⟩
    | captured => exact ⟨.bool x.captured, _, rfl, .bool, rfl⟩

/-- A write leaves the other properties as they were. -/
theorem Written.get_of_ne (h : x.Written name v x') (hne : name' ≠ name) :
    x'.get name' = x.get name' := by
  by_cases hknown : name' ∈ o.properties
  · cases o with
    | zone id =>
      simp only [properties, List.mem_cons, List.not_mem_nil, or_false] at hknown
      cases h <;> rcases hknown with rfl | rfl | rfl <;> first | rfl | contradiction
    | team id => exact h.elim
    | pokemon id =>
      simp only [properties, Pokemon.properties, List.mem_cons, List.not_mem_nil, or_false]
        at hknown
      cases h <;> rcases hknown with rfl | rfl | rfl | rfl | rfl | rfl <;>
        first | rfl | contradiction
  · rw [get_of_not_mem x' hknown, get_of_not_mem x hknown]

/-- The last write counts. -/
theorem Written.set_eq (h : x.Written name v x') (w : Value) : x'.set name w = x.set name w := by
  cases o with
  | zone id => cases h <;> rfl
  | team id => exact h.elim
  | pokemon id => cases h <;> rfl

/-- What can be kept can be written, and is read back then. -/
theorem Written.of_keptAs {s : Store} {old new : Value} (hname : name ∈ o.writable)
    (hget : x.get name = .ok (.value old)) (h : s.KeptAs v old.ty new)
    (hsign : ∀ id n, o = .zone id → new = .int n → 0 ≤ n) :
    ∃ x', x.Written name v x' ∧ x'.get name = .ok (.value new) := by
  cases o with
  | zone id =>
    simp only [writable, List.mem_cons, List.not_mem_nil, or_false] at hname
    rcases hname with rfl | rfl <;> cases hget <;> obtain ⟨n, hn, rfl⟩ := Store.keptAs_int.1 h
    · exact ⟨_, Zone.Written.balls hn (Int64.not_lt.2 (hsign id n rfl rfl)), rfl⟩
    · exact ⟨_, Zone.Written.turns hn (Int64.not_lt.2 (hsign id n rfl rfl)), rfl⟩
  | team id => exact absurd hname List.not_mem_nil
  | pokemon id =>
    simp only [writable, List.mem_cons, List.not_mem_nil, or_false] at hname
    rcases hname with rfl | rfl | rfl | rfl | rfl <;> cases hget
    · obtain ⟨n, hn, rfl⟩ := Store.keptAs_int.1 h
      exact ⟨_, Pokemon.Written.level hn, rfl⟩
    · obtain ⟨t, ht, rfl⟩ := Store.keptAs_string.1 h
      exact ⟨_, Pokemon.Written.nature ht, rfl⟩
    · obtain ⟨t, ht, rfl⟩ := Store.keptAs_string.1 h
      exact ⟨_, Pokemon.Written.behavior ht, rfl⟩
    · obtain ⟨n, hn, rfl⟩ := Store.keptAs_int.1 h
      exact ⟨_, Pokemon.Written.friendliness hn, rfl⟩
    · obtain ⟨b, rfl, rfl⟩ := Store.keptAs_bool.1 h
      exact ⟨_, Pokemon.Written.captured, rfl⟩

/-- To write what is there changes nothing. -/
theorem Written.of_get {w : Value} (hname : name ∈ o.writable) (hget : x.get name = .ok (.value w))
    (hsign : ∀ id n, o = .zone id → w = .int n → 0 ≤ n) : x.Written name w x := by
  cases o with
  | zone id =>
    simp only [writable, List.mem_cons, List.not_mem_nil, or_false] at hname
    rcases hname with rfl | rfl
    · cases hget
      exact Zone.Written.balls rfl (Int64.not_lt.2 (hsign id _ rfl rfl))
    · cases hget
      exact Zone.Written.turns rfl (Int64.not_lt.2 (hsign id _ rfl rfl))
  | team id => exact absurd hname List.not_mem_nil
  | pokemon id =>
    simp only [writable, List.mem_cons, List.not_mem_nil, or_false] at hname
    rcases hname with rfl | rfl | rfl | rfl | rfl <;> cases hget
    · exact Pokemon.Written.level rfl
    · exact Pokemon.Written.nature rfl
    · exact Pokemon.Written.behavior rfl
    · exact Pokemon.Written.friendliness rfl
    · exact Pokemon.Written.captured

/-- Some value can be written to exactly the properties that can be written. -/
theorem exists_written_iff : (∃ v x', x.Written name v x') ↔ name ∈ o.writable := by
  cases o with
  | zone id =>
    constructor
    · rintro ⟨v, x', h⟩
      cases h <;> simp [writable]
    · intro hname
      simp only [writable, List.mem_cons, List.not_mem_nil, or_false] at hname
      rcases hname with rfl | rfl
      · exact ⟨.int 0, _, Zone.Written.balls rfl (by decide)⟩
      · exact ⟨.int 0, _, Zone.Written.turns rfl (by decide)⟩
  | team id => exact ⟨fun ⟨_, _, h⟩ ↦ h.elim, fun hname ↦ absurd hname List.not_mem_nil⟩
  | pokemon id =>
    constructor
    · rintro ⟨v, x', h⟩
      cases h <;> simp [writable]
    · intro hname
      simp only [writable, List.mem_cons, List.not_mem_nil, or_false] at hname
      rcases hname with rfl | rfl | rfl | rfl | rfl
      · exact ⟨.int 0, _, Pokemon.Written.level rfl⟩
      · exact ⟨.str "", _, Pokemon.Written.nature rfl⟩
      · exact ⟨.str "", _, Pokemon.Written.behavior rfl⟩
      · exact ⟨.int 0, _, Pokemon.Written.friendliness rfl⟩
      · exact ⟨.bool false, _, Pokemon.Written.captured⟩

end Object.Contents

/-! ### Properties in the store -/

namespace Store

variable {s s₁ : Store} {o : Object} {name : String} {v w : Value}

/-- The outcome of a computation, without the store behind it. -/
def answer {α : Type} : EStateM.Result Fault Store α → Except Fault α
  | .ok a _ => .ok a
  | .error fault _ => .error fault

/-- The object has no such property. -/
def Unknown {α : Type} (r : EStateM.Result Fault Store α) : Prop :=
  ∃ fault s', r = .error fault s' ∧ fault.category = .unknownProperty

theorem getProperty_of_value (h : (s.contents o).get name = .ok (.value w)) :
    getProperty o name s = .ok w s := by
  rw [getProperty_eq, h]
  rfl

/-- What is read depends on the object, and on the number that a list would get. -/
theorem answer_getProperty_congr {s' : Store} (hfresh : s.fresh = s'.fresh)
    (h : (s.contents o).get name = (s'.contents o).get name) :
    answer (getProperty o name s) = answer (getProperty o name s') := by
  rw [getProperty_eq, getProperty_eq, h]
  cases (s'.contents o).get name with
  | error fault => rfl
  | ok reply =>
    cases reply with
    | value v => rfl
    | roster members =>
      show Except.ok (Value.list s.fresh _) = .ok (.list s'.fresh _)
      rw [hfresh]

/-- A write in the store is a write to the object. -/
theorem setProperty_eq_ok : setProperty o name v s = .ok () s₁ ↔
    ∃ x, (s.contents o).Written name v x ∧ s₁ = s.put o x := by
  rw [setProperty_eq, check_bind_eq_ok]
  refine exists_congr fun x ↦ and_congr Object.Contents.set_eq_ok ⟨fun h ↦ ?_, fun h ↦ ?_⟩
  · cases h
    rfl
  · rw [h]
    rfl

/-- To read a property fails as unknown just for the names outside of the table. -/
theorem unknown_getProperty : Unknown (getProperty o name s) ↔ name ∉ o.properties := by
  rw [getProperty_eq]
  constructor
  · rintro ⟨fault, s', h, -⟩ hname
    obtain ⟨reply, hreply⟩ := (s.contents o).get_of_mem hname
    rw [hreply] at h
    cases reply <;> cases h
  · intro hname
    rw [(s.contents o).get_of_not_mem hname]
    exact ⟨_, s, rfl, rfl⟩

/-- To write a property fails as unknown just for the names outside of the table. -/
theorem unknown_setProperty : Unknown (setProperty o name v s) ↔ name ∉ o.properties := by
  rw [setProperty_eq]
  constructor
  · rintro ⟨fault, s', h, hunknown⟩ hname
    cases hset : (s.contents o).set name v with
    | ok x =>
      rw [hset] at h
      cases h
    | error fault' =>
      rw [hset] at h
      cases h
      exact Object.Contents.category_ne_of_set hname hset hunknown
  · intro hname
    rw [(s.contents o).set_of_not_mem v hname]
    exact ⟨_, s, rfl, rfl⟩

/-- The properties of an object obey the **laws of fields**. -/
structure FieldLaws (s : Store) (o : Object) : Prop where
  /-- Writing knows the same names as reading. -/
  unknown_iff : ∀ name v, Unknown (setProperty o name v s) ↔ Unknown (getProperty o name s)
  /-- Some value can be written to each property that can be written, and to no other. -/
  writable_iff : ∀ name, name ∈ o.writable ↔ ∃ v s₁, setProperty o name v s = .ok () s₁
  /-- What was written is read back, as it is kept where the property keeps its values. -/
  written : ∀ name v s₁, setProperty o name v s = .ok () s₁ →
    ∃ old new, getProperty o name s = .ok old s ∧ s.KeptAs v old.ty new ∧
      getProperty o name s₁ = .ok new s₁
  /-- And what can be kept there can be written; a zone keeps no negative counters. -/
  accepted : ∀ name v old new, getProperty o name s = .ok old s → name ∈ o.writable →
    s.KeptAs v old.ty new → (∀ id n, o = .zone id → new = .int n → 0 ≤ n) →
    ∃ s₁, setProperty o name v s = .ok () s₁ ∧ getProperty o name s₁ = .ok new s₁
  /-- Every other property of the object is read as before. -/
  others : ∀ name v s₁, setProperty o name v s = .ok () s₁ → ∀ name', name' ≠ name →
    answer (getProperty o name' s₁) = answer (getProperty o name' s)
  /-- A second write leaves behind what it would have left without the first. -/
  overwritten : ∀ name v s₁, setProperty o name v s = .ok () s₁ → ∀ w s₂,
    setProperty o name w s₁ = .ok () s₂ ↔ setProperty o name w s = .ok () s₂
  /-- To write back what was read succeeds and changes nothing; the counters of a zone have to be
  such as can be written. -/
  writeBack : ∀ name w s₁, getProperty o name s = .ok w s₁ → name ∈ o.writable →
    (∀ id n, o = .zone id → w = .int n → 0 ≤ n) →
    s₁ = s ∧ setProperty o name w s₁ = .ok () s₁

/-- The properties of an object that is there behave like fields. -/
theorem fieldLaws (ho : s.Has (.object o)) : s.FieldLaws o where
  unknown_iff name v := by rw [unknown_setProperty, unknown_getProperty]
  writable_iff name := by
    rw [← Object.Contents.exists_written_iff (x := s.contents o)]
    constructor
    · rintro ⟨v, x, hx⟩
      exact ⟨v, s.put o x, setProperty_eq_ok.2 ⟨x, hx, rfl⟩⟩
    · rintro ⟨v, s₁, h⟩
      obtain ⟨x, hx, -⟩ := setProperty_eq_ok.1 h
      exact ⟨v, x, hx⟩
  written name v s₁ h := by
    obtain ⟨x, hx, rfl⟩ := setProperty_eq_ok.1 h
    obtain ⟨old, new, hold, hnew, hread⟩ := hx.get_self s
    refine ⟨old, new, getProperty_of_value hold, hnew, getProperty_of_value ?_⟩
    rw [contents_put ho]
    exact hread
  accepted name v old new hget hname hnew hsign := by
    obtain ⟨_, _, hx⟩ := (Object.Contents.exists_written_iff (x := s.contents o)).2 hname
    obtain ⟨old', _, hold, -⟩ := hx.get_self s
    cases hget.symm.trans (getProperty_of_value hold)
    obtain ⟨x', hx', hread⟩ := Object.Contents.Written.of_keptAs hname hold hnew hsign
    refine ⟨s.put o x', setProperty_eq_ok.2 ⟨x', hx', rfl⟩, getProperty_of_value ?_⟩
    rw [contents_put ho]
    exact hread
  others name v s₁ h name' hne := by
    obtain ⟨x, hx, rfl⟩ := setProperty_eq_ok.1 h
    refine answer_getProperty_congr (fresh_put s o x) ?_
    rw [contents_put ho]
    exact hx.get_of_ne hne
  overwritten name v s₁ h w s₂ := by
    obtain ⟨x, hx, rfl⟩ := setProperty_eq_ok.1 h
    rw [setProperty_eq_ok, setProperty_eq_ok, contents_put ho]
    simp only [← Object.Contents.set_eq_ok, hx.set_eq, put_put]
  writeBack name w s₁ hget hname hsign := by
    obtain ⟨_, _, hx⟩ := (Object.Contents.exists_written_iff (x := s.contents o)).2 hname
    obtain ⟨old, _, hold, -⟩ := hx.get_self s
    cases hget.symm.trans (getProperty_of_value hold)
    refine ⟨rfl, setProperty_eq_ok.2 ⟨s.contents o, .of_get hname hold hsign, ?_⟩⟩
    exact (put_contents s o).symm

/-- A property that a selection accepts as a criterion can be read of every Pokémon. -/
theorem getProperty_of_filter {team : Nat} {args : List Value} {named : List (String × Value)}
    (h : callMethod (.team team) "filter" args named s = .ok v s₁) (id : PokemonId) :
    ∀ c ∈ named, ∃ w, getProperty (.pokemon id) c.1 s = .ok w s := by
  rw [callMethod_eq, check_bind_eq_ok] at h
  obtain ⟨answer, hcall, -⟩ := h
  obtain ⟨_, -, hselect⟩ := Except.of_bind_eq_ok hcall
  obtain ⟨members, hmembers, -⟩ := Except.of_bind_eq_ok hselect
  intro c hc
  have hknown := (Team.select_eq_ok.1 hmembers).2.1 c hc
  obtain ⟨reply, hreply⟩ := (s.contents (.pokemon id)).get_of_mem hknown
  cases hget : (s.pokemonAt id).get c.1 with
  | ok w => exact ⟨w, getProperty_of_value (congrArg (Except.map Reply.value) hget)⟩
  | error fault => cases hreply.symm.trans (congrArg (Except.map Reply.value) hget)

/-- **Properties are fields.** The properties of every object obey the laws of fields. For a Pokémon
the names that reading and writing know are those of the list of properties, so a criterion that
passes the check of names in a selection can be read of every Pokémon. -/
theorem properties_are_fields (ho : s.Has (.object o)) : s.FieldLaws o ∧
    (∀ id, o = .pokemon id → ∀ name v,
      (Unknown (getProperty o name s) ↔ name ∉ Pokemon.properties) ∧
      (Unknown (setProperty o name v s) ↔ name ∉ Pokemon.properties)) ∧
    ∀ team args named v s₁, callMethod (.team team) "filter" args named s = .ok v s₁ →
      ∀ id, ∀ c ∈ named, ∃ w, getProperty (.pokemon id) c.1 s = .ok w s := by
  refine ⟨fieldLaws ho, ?_, fun team args named v s₁ h id ↦ getProperty_of_filter h id⟩
  rintro id rfl name v
  exact ⟨unknown_getProperty, unknown_setProperty⟩

/-- A zone, a team and a Pokémon. -/
def trio : Store :=
  { Store.empty with
    zones := #[.new 30 500]
    teams := #[.new]
    pokemon := #[.new "Mew" 5] }

/-- The decimal -9.5 is kept as the level -9, and the number 7 as the nature "7". -/
theorem properties_are_fields_trio :
    trio.Has (.object (.pokemon 0)) ∧
      (∃ s₁, setProperty (.pokemon 0) "level" (.decimal (-9.5)) trio = .ok () s₁ ∧
        getProperty (.pokemon 0) "level" s₁ = .ok (.int (-9)) s₁) ∧
      ∃ s₁, setProperty (.pokemon 0) "nature" (.int 7) trio = .ok () s₁ ∧
        getProperty (.pokemon 0) "nature" s₁ = .ok (.str "7") s₁ := by
  have hhas : trio.Has (.object (.pokemon 0)) := by
    show 0 < trio.pokemon.size
    decide
  have hcut : trio.KeptAs (.decimal (-9.5)) .int (.int (-9)) :=
    .cutOff (q := -19 / 2) (by decide +kernel) (by decide +kernel)
  have hprinted : trio.KeptAs (.int 7) .string (.str "7") := .printed (by decide)
  have hfields := (properties_are_fields hhas).1
  exact ⟨hhas,
    hfields.accepted "level" _ (.int 5) _ rfl (by decide) hcut nofun,
    hfields.accepted "nature" _ (.str "Hardy") _ rfl (by decide) hprinted nofun⟩

end Store

end SafariScript
