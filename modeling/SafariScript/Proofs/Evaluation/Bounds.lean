import SafariScript.Program.Basic

/-!
# What programs may hold

Arguments about evaluation often concern programs that hold some things and not others: whose
errors are at certain places, which write certain properties, which are left at certain places only.
`Bounds` says what is allowed. An expression keeps to it at every node (`Expr.Everywhere`). A
statement also does something to the body it stands in: it binds names in the frame of the body, or
leaves the body. What it may do there is its `Allowance`, which is not the same everywhere inside of
a program (`Stmt.Keeps`):

* a block has a frame of its own, so it binds nothing in the frame around it;
* a repetition is not left from inside its body, since `run` only ends the repetition;
* the body of a function has an allowance of its own, the same for all functions.

Every program keeps to bounds that allow **what it holds** (`Stmt.keeps`), which can be listed: the
places, names and literals at its nodes (`Stmt.parts`), what it does to objects (`Stmt.acts`), and
where it is left or leaves the body of a function (`Stmt.openRuns`).
-/

namespace SafariScript

/-! ### What expressions and statements hold -/

/-- What stands at a node of a tree, besides its kind and the nodes below. -/
inductive Part where
  /-- The place of the node. -/
  | place (span : Span)
  /-- A name: of a variable, a parameter, a property, a method or a named argument. -/
  | name (name : String)
  | literal (value : Literal)

mutual

/-- What stands at the nodes of the expression. -/
def Expr.parts : Expr → List Part
  | .literal value span => [.place span, .literal value]
  | .list items span => .place span :: Expr.partsAll items
  | .ident name span => [.place span, .name name]
  | .unary _ operand span => .place span :: operand.parts
  | .binary _ left right span => .place span :: (left.parts ++ right.parts)
  | .logical _ left right span => .place span :: (left.parts ++ right.parts)
  | .assign target value span => .place span :: (target.parts ++ value.parts)
  | .call callee args span => .place span :: (callee.parts ++ Expr.partsAll args)
  | .property object name span => .place span :: .name name :: object.parts
  | .method object name args named span =>
    .place span :: .name name :: (object.parts ++ (Expr.partsAll args ++ Expr.partsNamed named))

/-- What stands at the nodes of the expressions. -/
def Expr.partsAll : List Expr → List Part
  | [] => []
  | e :: es => e.parts ++ Expr.partsAll es

/-- What stands at the nodes of the named expressions, and their names. -/
def Expr.partsNamed : List (String × Expr) → List Part
  | [] => []
  | (name, e) :: es => .name name :: (e.parts ++ Expr.partsNamed es)

end

mutual

/-- What stands at the nodes of the statement. A statement that is an expression has the place of
the expression. -/
def Stmt.parts : Stmt → List Part
  | .expr value => value.parts
  | .var name none span => [.place span, .name name]
  | .var name (some init) span => .place span :: .name name :: init.parts
  | .print value span => .place span :: value.parts
  | .cond condition body none span => .place span :: (condition.parts ++ Stmt.partsAll body)
  | .cond condition body (some other) span =>
    .place span :: (condition.parts ++ (Stmt.partsAll body ++ Stmt.partsAll other))
  | .block body span => .place span :: Stmt.partsAll body
  | .loop count body span => .place span :: (count.parts ++ Stmt.partsAll body)
  | .define name params body span =>
    .place span :: .name name :: (params.map .name ++ Stmt.partsAll body)
  | .throwBall zone target span => .place span :: (zone.parts ++ target.parts)
  | .run span => [.place span]

/-- What stands at the nodes of the statements. -/
def Stmt.partsAll : List Stmt → List Part
  | [] => []
  | s :: ss => s.parts ++ Stmt.partsAll ss

end

/-- What a program does to an object. -/
inductive Act where
  /-- Write the property of that name. -/
  | write (property : String)
  /-- Call the method of that name. -/
  | call (method : String)
  /-- Throw a ball. -/
  | throwBall
deriving DecidableEq

/-- The property that is written when the expression stands left of `=`. -/
def Expr.written? : Expr → Option String
  | .property _ name _ => some name
  | _ => none

mutual

/-- What the expression does to objects. -/
def Expr.acts : Expr → List Act
  | .literal _ _ => []
  | .list items _ => Expr.actsAll items
  | .ident _ _ => []
  | .unary _ operand _ => operand.acts
  | .binary _ left right _ => left.acts ++ right.acts
  | .logical _ left right _ => left.acts ++ right.acts
  | .assign target value _ => target.written?.toList.map .write ++ (target.acts ++ value.acts)
  | .call callee args _ => callee.acts ++ Expr.actsAll args
  | .property object _ _ => object.acts
  | .method object name args named _ =>
    .call name :: (object.acts ++ (Expr.actsAll args ++ Expr.actsNamed named))

/-- What the expressions do to objects. -/
def Expr.actsAll : List Expr → List Act
  | [] => []
  | e :: es => e.acts ++ Expr.actsAll es

/-- What the named expressions do to objects. -/
def Expr.actsNamed : List (String × Expr) → List Act
  | [] => []
  | (_, e) :: es => e.acts ++ Expr.actsNamed es

end

mutual

/-- What the statement does to objects, also in the functions that it defines. -/
def Stmt.acts : Stmt → List Act
  | .expr value => value.acts
  | .var _ none _ => []
  | .var _ (some init) _ => init.acts
  | .print value _ => value.acts
  | .cond condition body none _ => condition.acts ++ Stmt.actsAll body
  | .cond condition body (some other) _ =>
    condition.acts ++ (Stmt.actsAll body ++ Stmt.actsAll other)
  | .block body _ => Stmt.actsAll body
  | .loop count body _ => count.acts ++ Stmt.actsAll body
  | .define _ _ body _ => Stmt.actsAll body
  | .throwBall zone target _ => .throwBall :: (zone.acts ++ target.acts)
  | .run _ => []

/-- What the statements do to objects. -/
def Stmt.actsAll : List Stmt → List Act
  | [] => []
  | s :: ss => s.acts ++ Stmt.actsAll ss

end

mutual

/-- The places of every `run` in the statement that no repetition surrounds in the body of its own
function; outside of functions, that no repetition surrounds at all. The flag says whether the
statement stands in a repetition itself. -/
def Stmt.openRuns (inLoop : Bool) : Stmt → List Span
  | .expr _ => []
  | .var _ _ _ => []
  | .print _ _ => []
  | .cond _ body none _ => Stmt.openRunsAll inLoop body
  | .cond _ body (some other) _ => Stmt.openRunsAll inLoop body ++ Stmt.openRunsAll inLoop other
  | .block body _ => Stmt.openRunsAll inLoop body
  | .loop _ body _ => Stmt.openRunsAll true body
  | .define _ _ body _ => Stmt.openRunsAll false body
  | .throwBall _ _ _ => []
  | .run span => if inLoop then [] else [span]

/-- The places of every such `run` in the statements. -/
def Stmt.openRunsAll (inLoop : Bool) : List Stmt → List Span
  | [] => []
  | s :: ss => s.openRuns inLoop ++ Stmt.openRunsAll inLoop ss

end

/-- The name that a statement binds in the frame of the body it stands in. -/
def Stmt.declared? : Stmt → Option String
  | .var name _ _ => some name
  | .define name _ _ _ => some name
  | _ => none

/-! ### Bounds and allowances -/

/-- What programs may hold. -/
structure Bounds where
  /-- Where an error may be raised. -/
  place : Span → Prop
  /-- What may be done to objects. -/
  act : Act → Prop
  /-- Where the body of a function may be left. -/
  leave : Span → Prop

/-- What may stand at a node: it has a place where an error may be raised. -/
def Bounds.Allows (B : Bounds) : Part → Prop
  | .place span => B.place span
  | .name _ => True
  | .literal _ => True

/-- If errors may be raised everywhere, then every part is allowed. -/
theorem Bounds.allows_of_place {B : Bounds} (hplace : ∀ span, B.place span) (part : Part) :
    B.Allows part := by
  cases part with
  | place span => exact hplace span
  | name | literal => trivial

/-- Bounds that allow everything. -/
structure Bounds.Free (B : Bounds) : Prop where
  place : ∀ span, B.place span
  act : ∀ a, B.act a
  leave : ∀ span, B.leave span

/-- What statements may do to the body they stand in. -/
structure Allowance where
  /-- The names that may be bound in the frame of the body. -/
  binds : String → Prop
  /-- The places at which the body may be left. -/
  leaves : Span → Prop

/-- What the body of a function may do: bind every name in its own frame. -/
def Bounds.body (B : Bounds) : Allowance := ⟨fun _ ↦ True, B.leave⟩

namespace Allowance

/-- Inside a block every name may be bound, in the frame of the block. -/
def inBlock (allowed : Allowance) : Allowance := { allowed with binds := fun _ ↦ True }

/-- Inside a repetition one may leave everywhere, namely the repetition. -/
def inLoop (allowed : Allowance) : Allowance := { allowed with leaves := fun _ ↦ True }

end Allowance

mutual

/-- Every node of the expression keeps to the bounds. -/
def Expr.Everywhere (B : Bounds) : Expr → Prop
  | .literal _ span => B.place span
  | .list items span => Expr.AllEverywhere B items ∧ B.place span
  | .ident _ span => B.place span
  | .unary _ operand span => operand.Everywhere B ∧ B.place span
  | .binary _ left right span => left.Everywhere B ∧ right.Everywhere B ∧ B.place span
  | .logical _ left right span => left.Everywhere B ∧ right.Everywhere B ∧ B.place span
  | .assign target value span => target.Everywhere B ∧ value.Everywhere B ∧
      (∀ name ∈ target.written?, B.act (.write name)) ∧ B.place span
  | .call callee args span => callee.Everywhere B ∧ Expr.AllEverywhere B args ∧ B.place span
  | .property object _ span => object.Everywhere B ∧ B.place span
  | .method object name args named span => object.Everywhere B ∧ Expr.AllEverywhere B args ∧
      Expr.NamedEverywhere B named ∧ B.act (.call name) ∧ B.place span

/-- Every node of the expressions keeps to the bounds. -/
def Expr.AllEverywhere (B : Bounds) : List Expr → Prop
  | [] => True
  | e :: es => e.Everywhere B ∧ Expr.AllEverywhere B es

/-- Every node of the named expressions keeps to the bounds. -/
def Expr.NamedEverywhere (B : Bounds) : List (String × Expr) → Prop
  | [] => True
  | (_, e) :: es => e.Everywhere B ∧ Expr.NamedEverywhere B es

end

mutual

/-- The statement keeps to the bounds and to an allowance for the body it stands in. -/
def Stmt.Keeps (B : Bounds) (allowed : Allowance) : Stmt → Prop
  | .expr value => value.Everywhere B
  | .var name none span => allowed.binds name ∧ B.place span
  | .var name (some init) span => allowed.binds name ∧ init.Everywhere B ∧ B.place span
  | .print value span => value.Everywhere B ∧ B.place span
  | .cond condition body none span => condition.Everywhere B ∧
      Stmt.AllKeep B allowed.inBlock body ∧ B.place span
  | .cond condition body (some other) span => condition.Everywhere B ∧
      Stmt.AllKeep B allowed.inBlock body ∧ Stmt.AllKeep B allowed.inBlock other ∧ B.place span
  | .block body span => Stmt.AllKeep B allowed.inBlock body ∧ B.place span
  | .loop count body span => count.Everywhere B ∧
      Stmt.AllKeep B allowed.inLoop.inBlock body ∧ B.place span
  | .define name _ body span => allowed.binds name ∧ Stmt.AllKeep B B.body body ∧ B.place span
  | .throwBall zone target span =>
    zone.Everywhere B ∧ target.Everywhere B ∧ B.act .throwBall ∧ B.place span
  | .run span => allowed.leaves span ∧ B.place span

/-- The statements keep to the bounds and to an allowance. -/
def Stmt.AllKeep (B : Bounds) (allowed : Allowance) : List Stmt → Prop
  | [] => True
  | s :: ss => s.Keeps B allowed ∧ Stmt.AllKeep B allowed ss

end

/-! ### Programs keep to what they hold -/

section Everywhere

variable {B : Bounds}

/-- The place of an expression is one of those in it. -/
theorem Expr.Everywhere.span {e : Expr} (h : e.Everywhere B) : B.place e.span := by
  cases e with
  | literal | ident => exact h
  | list | unary | property => exact h.2
  | binary | logical | call => exact h.2.2
  | assign => exact h.2.2.2
  | method => exact h.2.2.2.2

mutual

/-- An expression keeps to bounds that allow all that it holds, along its structure. -/
theorem Expr.everywhere (e : Expr) (hparts : ∀ part ∈ e.parts, B.Allows part)
    (hacts : ∀ a ∈ e.acts, B.act a) : e.Everywhere B := by
  match e with
  | .literal _ span | .ident _ span => exact hparts _ List.mem_cons_self
  | .list items span =>
    obtain ⟨hspan, hitems⟩ := List.forall_mem_cons.1 hparts
    exact ⟨Expr.allEverywhere items hitems hacts, hspan⟩
  | .unary _ operand span =>
    obtain ⟨hspan, hoperand⟩ := List.forall_mem_cons.1 hparts
    exact ⟨Expr.everywhere operand hoperand hacts, hspan⟩
  | .binary _ left right span | .logical _ left right span =>
    obtain ⟨hspan, hparts⟩ := List.forall_mem_cons.1 hparts
    obtain ⟨hleft, hright⟩ := List.forall_mem_append.1 hparts
    obtain ⟨hleft', hright'⟩ := List.forall_mem_append.1 hacts
    exact ⟨Expr.everywhere left hleft hleft', Expr.everywhere right hright hright', hspan⟩
  | .assign target value span =>
    obtain ⟨hspan, hparts⟩ := List.forall_mem_cons.1 hparts
    obtain ⟨htarget, hvalue⟩ := List.forall_mem_append.1 hparts
    obtain ⟨hwrite, hrest⟩ := List.forall_mem_append.1 hacts
    obtain ⟨htarget', hvalue'⟩ := List.forall_mem_append.1 hrest
    refine ⟨Expr.everywhere target htarget htarget', Expr.everywhere value hvalue hvalue',
      fun name hname ↦ ?_, hspan⟩
    exact hwrite _ (List.mem_map_of_mem (Option.mem_toList.2 hname))
  | .call callee args span =>
    obtain ⟨hspan, hparts⟩ := List.forall_mem_cons.1 hparts
    obtain ⟨hcallee, hargs⟩ := List.forall_mem_append.1 hparts
    obtain ⟨hcallee', hargs'⟩ := List.forall_mem_append.1 hacts
    exact ⟨Expr.everywhere callee hcallee hcallee', Expr.allEverywhere args hargs hargs', hspan⟩
  | .property object _ span =>
    obtain ⟨hspan, hparts⟩ := List.forall_mem_cons.1 hparts
    exact ⟨Expr.everywhere object (List.forall_mem_cons.1 hparts).2 hacts, hspan⟩
  | .method object name args named span =>
    obtain ⟨hspan, hparts⟩ := List.forall_mem_cons.1 hparts
    obtain ⟨hobject, hrest⟩ := List.forall_mem_append.1 (List.forall_mem_cons.1 hparts).2
    obtain ⟨hargs, hnamed⟩ := List.forall_mem_append.1 hrest
    obtain ⟨hcall, hrest'⟩ := List.forall_mem_cons.1 hacts
    obtain ⟨hobject', hrest'⟩ := List.forall_mem_append.1 hrest'
    obtain ⟨hargs', hnamed'⟩ := List.forall_mem_append.1 hrest'
    exact ⟨Expr.everywhere object hobject hobject', Expr.allEverywhere args hargs hargs',
      Expr.namedEverywhere named hnamed hnamed', hcall, hspan⟩

/-- Expressions that all keep to the bounds. -/
theorem Expr.allEverywhere (es : List Expr) (hparts : ∀ part ∈ Expr.partsAll es, B.Allows part)
    (hacts : ∀ a ∈ Expr.actsAll es, B.act a) : Expr.AllEverywhere B es := by
  match es with
  | [] => trivial
  | e :: es =>
    obtain ⟨he, hes⟩ := List.forall_mem_append.1 hparts
    obtain ⟨he', hes'⟩ := List.forall_mem_append.1 hacts
    exact ⟨Expr.everywhere e he he', Expr.allEverywhere es hes hes'⟩

theorem Expr.namedEverywhere (es : List (String × Expr))
    (hparts : ∀ part ∈ Expr.partsNamed es, B.Allows part)
    (hacts : ∀ a ∈ Expr.actsNamed es, B.act a) : Expr.NamedEverywhere B es := by
  match es with
  | [] => trivial
  | (_, e) :: es =>
    obtain ⟨he, hes⟩ := List.forall_mem_append.1 (List.forall_mem_cons.1 hparts).2
    obtain ⟨he', hes'⟩ := List.forall_mem_append.1 hacts
    exact ⟨Expr.everywhere e he he', Expr.namedEverywhere es hes hes'⟩

end

end Everywhere

section Keeps

variable {B : Bounds}

/-- The place of a statement is one of those in it. -/
theorem Stmt.Keeps.span {allowed : Allowance} {s : Stmt} (h : s.Keeps B allowed) :
    B.place s.span := by
  match s with
  | .expr value => exact Expr.Everywhere.span h
  | .var _ none _ | .print _ _ | .block _ _ | .run _ => exact h.2
  | .var _ (some _) _ | .cond _ _ none _ | .loop _ _ _ | .define _ _ _ _ => exact h.2.2
  | .cond _ _ (some _) _ | .throwBall _ _ _ => exact h.2.2.2

mutual

/-- A statement keeps to bounds that allow what it holds. Inside of a repetition it may be left
everywhere, elsewhere where the body of a function may be left; and it may bind the name that it
declares. -/
theorem Stmt.keeps (allowed : Allowance) (inLoop : Bool)
    (hexit : ∀ span, inLoop = true ∨ B.leave span → allowed.leaves span) (s : Stmt)
    (hparts : ∀ part ∈ s.parts, B.Allows part) (hacts : ∀ a ∈ s.acts, B.act a)
    (hruns : ∀ span ∈ s.openRuns inLoop, B.leave span)
    (hname : ∀ name, s.declared? = some name → allowed.binds name) : s.Keeps B allowed := by
  match s with
  | .expr value => exact Expr.everywhere value hparts hacts
  | .var name none span => exact ⟨hname name rfl, hparts _ List.mem_cons_self⟩
  | .var name (some init) span =>
    obtain ⟨hspan, hparts⟩ := List.forall_mem_cons.1 hparts
    have hinit := Expr.everywhere init (List.forall_mem_cons.1 hparts).2 hacts
    exact ⟨hname name rfl, hinit, hspan⟩
  | .print value span =>
    obtain ⟨hspan, hvalue⟩ := List.forall_mem_cons.1 hparts
    exact ⟨Expr.everywhere value hvalue hacts, hspan⟩
  | .cond condition body none span =>
    obtain ⟨hspan, hparts⟩ := List.forall_mem_cons.1 hparts
    obtain ⟨hcondition, hbody⟩ := List.forall_mem_append.1 hparts
    obtain ⟨hcondition', hbody'⟩ := List.forall_mem_append.1 hacts
    have hkeep := Stmt.allKeep allowed.inBlock inLoop hexit body hbody hbody' hruns
      fun _ ↦ trivial
    exact ⟨Expr.everywhere condition hcondition hcondition', hkeep, hspan⟩
  | .cond condition body (some other) span =>
    obtain ⟨hspan, hparts⟩ := List.forall_mem_cons.1 hparts
    obtain ⟨hcondition, hbodies⟩ := List.forall_mem_append.1 hparts
    obtain ⟨hbody, hother⟩ := List.forall_mem_append.1 hbodies
    obtain ⟨hcondition', hbodies'⟩ := List.forall_mem_append.1 hacts
    obtain ⟨hbody', hother'⟩ := List.forall_mem_append.1 hbodies'
    obtain ⟨hruns, hruns'⟩ := List.forall_mem_append.1 hruns
    have hkeep := Stmt.allKeep allowed.inBlock inLoop hexit body hbody hbody' hruns
      fun _ ↦ trivial
    have hkeep' := Stmt.allKeep allowed.inBlock inLoop hexit other hother hother' hruns'
      fun _ ↦ trivial
    exact ⟨Expr.everywhere condition hcondition hcondition', hkeep, hkeep', hspan⟩
  | .block body span =>
    obtain ⟨hspan, hbody⟩ := List.forall_mem_cons.1 hparts
    exact ⟨Stmt.allKeep allowed.inBlock inLoop hexit body hbody hacts hruns fun _ ↦ trivial, hspan⟩
  | .loop count body span =>
    obtain ⟨hspan, hparts⟩ := List.forall_mem_cons.1 hparts
    obtain ⟨hcount, hbody⟩ := List.forall_mem_append.1 hparts
    obtain ⟨hcount', hbody'⟩ := List.forall_mem_append.1 hacts
    have hkeep := Stmt.allKeep allowed.inLoop.inBlock true (fun _ _ ↦ trivial) body hbody hbody'
      hruns fun _ ↦ trivial
    exact ⟨Expr.everywhere count hcount hcount', hkeep, hspan⟩
  | .define name _ body span =>
    obtain ⟨hspan, hparts⟩ := List.forall_mem_cons.1 hparts
    obtain ⟨-, hbody⟩ := List.forall_mem_append.1 (List.forall_mem_cons.1 hparts).2
    -- the body of a function is in no repetition, wherever it is defined
    have hkeep := Stmt.allKeep B.body false (fun _ h ↦ h.resolve_left Bool.false_ne_true)
      body hbody hacts hruns fun _ ↦ trivial
    exact ⟨hname name rfl, hkeep, hspan⟩
  | .throwBall zone target span =>
    obtain ⟨hspan, hparts⟩ := List.forall_mem_cons.1 hparts
    obtain ⟨hzone, htarget⟩ := List.forall_mem_append.1 hparts
    obtain ⟨hthrow, hrest⟩ := List.forall_mem_cons.1 hacts
    obtain ⟨hzone', htarget'⟩ := List.forall_mem_append.1 hrest
    exact ⟨Expr.everywhere zone hzone hzone', Expr.everywhere target htarget htarget', hthrow,
      hspan⟩
  | .run span =>
    refine ⟨hexit span ?_, hparts _ List.mem_cons_self⟩
    cases inLoop with
    | true => exact .inl rfl
    | false => exact .inr (hruns span List.mem_cons_self)

/-- Statements keep to bounds that allow all that they hold and every place where they leave. -/
theorem Stmt.allKeep (allowed : Allowance) (inLoop : Bool)
    (hexit : ∀ span, inLoop = true ∨ B.leave span → allowed.leaves span) (ss : List Stmt)
    (hparts : ∀ part ∈ Stmt.partsAll ss, B.Allows part) (hacts : ∀ a ∈ Stmt.actsAll ss, B.act a)
    (hruns : ∀ span ∈ Stmt.openRunsAll inLoop ss, B.leave span)
    (hbinds : ∀ name, allowed.binds name) : Stmt.AllKeep B allowed ss := by
  match ss with
  | [] => trivial
  | s :: ss =>
    obtain ⟨hparts, hparts'⟩ := List.forall_mem_append.1 hparts
    obtain ⟨hacts, hacts'⟩ := List.forall_mem_append.1 hacts
    obtain ⟨hruns, hruns'⟩ := List.forall_mem_append.1 hruns
    exact ⟨Stmt.keeps allowed inLoop hexit s hparts hacts hruns fun name _ ↦ hbinds name,
      Stmt.allKeep allowed inLoop hexit ss hparts' hacts' hruns' hbinds⟩

end

end Keeps

/-- Bounds on nothing but the places of errors. -/
def placeBounds (place : Span → Prop) : Bounds where
  place := place
  act _ := True
  leave _ := True

/-- Statements keep to the places that are found in them. -/
theorem allKeep_placeBounds {place : Span → Prop} {ss : List Stmt}
    (h : ∀ span, .place span ∈ Stmt.partsAll ss → place span) :
    Stmt.AllKeep (placeBounds place) (placeBounds place).body ss := by
  have hallowed : ∀ part ∈ Stmt.partsAll ss, (placeBounds place).Allows part := by
    intro part hpart
    cases part with
    | place span => exact h span hpart
    | name | literal => trivial
  exact Stmt.allKeep _ false (fun _ _ ↦ trivial) ss hallowed (fun _ _ ↦ trivial)
    (fun _ _ ↦ trivial) fun _ ↦ trivial

namespace Bounds.Free

variable {B : Bounds} (hB : B.Free)

include hB

/-- Free bounds allow every expression. -/
theorem expr (e : Expr) : e.Everywhere B :=
  e.everywhere (fun part _ ↦ allows_of_place hB.place part) fun a _ ↦ hB.act a

theorem exprs (es : List Expr) : Expr.AllEverywhere B es :=
  Expr.allEverywhere es (fun part _ ↦ allows_of_place hB.place part) fun a _ ↦ hB.act a

/-- Free bounds allow every statement that binds only names that it may bind. -/
theorem stmt (allowed : Allowance) (hexit : ∀ span, allowed.leaves span) (s : Stmt)
    (hname : ∀ name, s.declared? = some name → allowed.binds name) : s.Keeps B allowed :=
  s.keeps allowed false (fun span _ ↦ hexit span) (fun part _ ↦ allows_of_place hB.place part)
    (fun a _ ↦ hB.act a) (fun span _ ↦ hB.leave span) hname

/-- Free bounds allow every body. -/
theorem body (ss : List Stmt) : Stmt.AllKeep B B.body ss :=
  Stmt.allKeep B.body false (fun span _ ↦ hB.leave span) ss
    (fun part _ ↦ allows_of_place hB.place part) (fun a _ ↦ hB.act a)
    (fun span _ ↦ hB.leave span) fun _ ↦ trivial

end Bounds.Free

end SafariScript
