import SafariScript.Proofs.Grammar.Joined
import SafariScript.Proofs.Outline.Forms

/-!
# Forms tell trees apart

Trees with the same form are the same up to places (`Expr.bare_eq_of_form`,
`Stmt.bare_eq_of_form`), if their names and decimals are legible:

* a leaf shows by its spelling whether it is a name or what kind of literal it is (`Leaf.kind`);
* a form in parentheses shows the kind of the tree by its head. One spelling is shared: a minus sign
  is in front of one item or of two (`Head.ofText`);
* the arguments of a call are over where the first key stands (`Expr.forms_append_inj`).

So two trees with the same form are of the same kind (`Expr.node?_eq_of_form`), and their items have
the same forms.
-/

namespace SafariScript

open Outline

namespace Outline

/-! ### Leaves -/

/-- What a leaf shows itself to be. -/
inductive LeafKind where
  | int
  | decimal
  | str
  | bool
  | null
  | name
  | key

def Leaf.kind : Leaf → LeafKind
  | .quoted _ => .str
  | .key _ => .key
  | .plain text =>
    if isName text then
      if text = "null".toList then .null
      else if text = "true".toList ∨ text = "false".toList then .bool
      else .name
    else if text.any fun c ↦ c == '.' || c == 'e' then .decimal
    else .int

/-- A number is no name. -/
theorem IsNumber.isName_eq_false {cs : List Char} (h : IsNumber cs) : isName cs = false := by
  obtain ⟨-, c, hhead, hc⟩ := h
  cases cs with
  | nil => rfl
  | cons d cs =>
    obtain rfl := Option.some.inj hhead
    have hstart : Token.isWordStart d = false := by
      rcases hc with hc | rfl
      · exact isWordStart_of_isDigit hc
      · decide
    rw [isName, hstart, Bool.false_and]

/-- An integer shows itself to be one. -/
theorem kind_int (a : Int) : (Leaf.plain (toString a).toList).kind = .int := by
  have hdigits (n : Nat) : ∀ c ∈ Nat.toDigits 10 n, ¬ (c == '.' || c == 'e') = true := by
    intro c hc
    have hdigit := Text.isDigit_of_mem_toDigits_ten hc
    simp only [Bool.or_eq_true, beq_iff_eq, not_or]
    exact ⟨ne_of_class hdigit (by decide), ne_of_class hdigit (by decide)⟩
  have hany : (toString a).toList.any (fun c ↦ c == '.' || c == 'e') = false := by
    rw [List.any_eq_false, Text.toList_toString_int]
    split
    · exact hdigits _
    · exact List.forall_mem_cons.2 ⟨by decide, hdigits _⟩
  rw [Leaf.kind, (isNumber_int a).isName_eq_false, hany]
  rfl

/-- A decimal shows itself to be one, since it has a point or an exponent. -/
theorem kind_decimal {x : Float} (hx : x.isFinite = true) :
    (Leaf.plain (Decimal.literalText x).toList).kind = .decimal := by
  have hany : (Decimal.literalText x).toList.any (fun c ↦ c == '.' || c == 'e') = true := by
    rw [List.any_eq_true, Decimal.toList_literalText hx]
    rcases (Decimal.digitsOf x).exists_mem_marked with h | h
    · exact ⟨_, List.mem_append_right _ h, rfl⟩
    · exact ⟨_, List.mem_append_right _ h, rfl⟩
  rw [Leaf.kind, (isNumber_decimal hx).isName_eq_false, hany]
  rfl

/-- A name shows itself to be one, since it is none of the three words that are literals. -/
theorem kind_name {name : String} (h : (Part.name name).Legible) :
    (Leaf.plain name.toList).kind = .name := by
  obtain ⟨hname, htrue, hfalse, hnull⟩ := h
  rw [Leaf.kind, if_pos hname, if_neg (mt String.toList_inj.1 hnull), if_neg]
  rintro (h | h)
  · exact htrue (String.toList_inj.1 h)
  · exact hfalse (String.toList_inj.1 h)

/-- The kind of a literal. -/
def literalKind : Literal → LeafKind
  | .int _ => .int
  | .decimal _ => .decimal
  | .str _ => .str
  | .bool _ => .bool
  | .null => .null

/-- A literal shows its kind. -/
theorem kind_literalLeaf {value : Literal} (h : (Part.literal value).Legible) :
    (literalLeaf value).kind = literalKind value := by
  cases value with
  | int n => exact kind_int n.toInt
  | decimal x => exact kind_decimal h
  | str s => rfl
  | bool b => cases b <;> rfl
  | null => rfl

/-- Literals with the same leaf are the same. -/
theorem literalLeaf_injective {v v' : Literal} (hv : (Part.literal v).Legible)
    (hv' : (Part.literal v').Legible) (h : literalLeaf v = literalLeaf v') : v = v' := by
  have hkind : literalKind v = literalKind v' := by
    rw [← kind_literalLeaf hv, ← kind_literalLeaf hv', h]
  have htext : ∀ {s t : String}, Leaf.plain s.toList = .plain t.toList → s = t :=
    fun h ↦ String.toList_inj.1 (Leaf.plain.inj h)
  -- The kinds agree, so only literals of one kind are left to compare.
  cases v with
  | int n =>
    cases v' with
    | int n' => rw [Int64.toInt_inj.1 (Text.toString_int_injective (htext h))]
    | _ => cases hkind
  | decimal x =>
    cases v' with
    | decimal x' => rw [Decimal.literalText_injective hv hv' (htext h)]
    | _ => cases hkind
  | str s =>
    cases v' with
    | str s' => rw [String.toList_inj.1 (Text.flatMap_escape_injective (Leaf.quoted.inj h))]
    | _ => cases hkind
  | bool b =>
    cases v' with
    | bool b' =>
      have hall : ∀ b b', boolText b = boolText b' → b = b' := by decide
      rw [hall b b' (htext h)]
    | _ => cases hkind
  | null =>
    cases v' with
    | null => rfl
    | _ => cases hkind

/-- No literal is written like a name. -/
theorem literalLeaf_ne_name {v : Literal} {name : String} (hv : (Part.literal v).Legible)
    (hname : (Part.name name).Legible) : literalLeaf v ≠ .plain name.toList := by
  intro h
  have hkind := congrArg Leaf.kind h
  rw [kind_literalLeaf hv, kind_name hname] at hkind
  cases v <;> cases hkind

theorem nameLeaf_injective {name name' : String} (h : nameLeaf name = nameLeaf name') :
    name = name' :=
  String.toList_inj.1 (Leaf.plain.inj (Form.leaf.inj h))

/-! ### Heads -/

/-- The head with this spelling in front of so many items. -/
def Head.ofText (count : Nat) : String → Head
  | "list" => .list
  | "-" => if count = 1 then .unary .neg else .binary .sub
  | "not" => .unary .not
  | "+" => .binary .add
  | "*" => .binary .mul
  | "/" => .binary .div
  | "%" => .binary .mod
  | "==" => .binary .eq
  | "!=" => .binary .notEq
  | "<" => .binary .lt
  | "<=" => .binary .ltEq
  | ">" => .binary .gt
  | ">=" => .binary .gtEq
  | "and" => .logical .and
  | "or" => .logical .or
  | "=" => .assign
  | "call" => .call
  | "." => .property
  | "->" => .method
  | "var" => .var
  | "print" => .print
  | "if" => .cond
  | "block" => .block
  | "repeat" => .loop
  | "define" => .define
  | "throwBall" => .throwBall
  | _ => .run

/-- Operators stand in front of as many items as they have operands. -/
def Head.Fits : Head → Nat → Prop
  | .unary _, count => count = 1
  | .binary _, count => count = 2
  | _, _ => True

/-- The head is known by its spelling and the number of items. -/
theorem Head.ofText_text {h : Head} {count : Nat} (hcount : h.Fits count) :
    ofText count h.text = h := by
  cases h with
  | unary op =>
    obtain rfl : count = 1 := hcount
    cases op <;> rfl
  | binary op =>
    obtain rfl : count = 2 := hcount
    cases op <;> rfl
  | logical op => cases op <;> rfl
  | _ => rfl

/-- Forms with the same head and items come from the same. -/
theorem Head.form_inj {h h' : Head} {items items' : List Form} (hfit : h.Fits items.length)
    (hfit' : h'.Fits items'.length) (heq : h.form items = h'.form items') :
    h = h' ∧ items = items' := by
  obtain ⟨htext, rfl⟩ := List.cons.inj (Form.node.inj heq)
  refine ⟨?_, rfl⟩
  rw [← ofText_text hfit, ← ofText_text hfit', nameLeaf_injective htext]

/-- The form of a tree: a head with items that fit it, or a leaf that is no key. -/
inductive Shown : Option (Head × List Form) → Form → Prop
  | node {h : Head} {items : List Form} : h.Fits items.length →
    Shown (some (h, items)) (h.form items)
  | leaf {leaf : Leaf} : (∀ name, leaf ≠ .key name) → Shown none (.leaf leaf)

/-- What is shown is known from the form. -/
theorem Shown.node_eq {node node' : Option (Head × List Form)} {f f' : Form} (hf : Shown node f)
    (hf' : Shown node' f') (h : f = f') : node = node' := by
  cases hf with
  | node hfit =>
    cases hf' with
    | node hfit' =>
      obtain ⟨rfl, rfl⟩ := Head.form_inj hfit hfit' h
      rfl
    | leaf => cases h
  | leaf =>
    cases hf' with
    | node => cases h
    | leaf => rfl

/-- No tree is shown as a key. -/
theorem Shown.ne_key {node : Option (Head × List Form)} {f : Form} (hf : Shown node f)
    (name : List Char) : f ≠ .leaf (.key name) := by
  cases hf with
  | node => exact nofun
  | leaf hleaf => exact fun h ↦ hleaf name (Form.leaf.inj h)

end Outline

/-! ### Expressions -/

/-- The head of the form of an expression and the items behind it, if there is a head. -/
def Expr.node? : Expr → Option (Head × List Form)
  | .literal _ _ => none
  | .list items _ => some (.list, Expr.forms items)
  | .ident _ _ => none
  | .unary op operand _ => some (.unary op, [operand.form])
  | .binary op left right _ => some (.binary op, [left.form, right.form])
  | .logical op left right _ => some (.logical op, [left.form, right.form])
  | .assign target value _ => some (.assign, [target.form, value.form])
  | .call callee args _ => some (.call, callee.form :: Expr.forms args)
  | .property object name _ => some (.property, [object.form, nameLeaf name])
  | .method object name args named _ =>
    some (.method, object.form :: nameLeaf name :: (Expr.forms args ++ Expr.namedForms named))

/-- Every expression is shown by its form. -/
theorem Expr.shown (e : Expr) : Shown e.node? e.form := by
  cases e with
  | literal value _ => cases value <;> exact .leaf nofun
  | ident => exact .leaf nofun
  | unary | binary => exact .node rfl
  | list | logical | assign | call | property | method => exact .node trivial

/-- Expressions with the same form are of the same kind. -/
theorem Expr.node?_eq_of_form {e e' : Expr} (h : e.form = e'.form) : e.node? = e'.node? :=
  e.shown.node_eq e'.shown h

/-- The arguments of a call are over where the first key stands. -/
theorem Expr.forms_append_inj {args args' : List Expr} {named named' : List (String × Expr)}
    (h : forms args ++ namedForms named = forms args' ++ namedForms named') :
    forms args = forms args' ∧ namedForms named = namedForms named' := by
  have hkey : ∀ (e : Expr) fs (named : List (String × Expr)), e.form :: fs ≠ namedForms named := by
    intro e fs named heq
    cases named with
    | nil => cases heq
    | cons => exact e.shown.ne_key _ (List.cons.inj heq).1
  induction args generalizing args' with
  | nil =>
    cases args' with
    | nil => exact ⟨rfl, h⟩
    | cons e' => exact absurd h.symm (hkey e' _ _)
  | cons e args ih =>
    cases args' with
    | nil => exact absurd h (hkey e _ _)
    | cons e' args' =>
      obtain ⟨hhead, htail⟩ := List.cons.inj h
      obtain ⟨hargs, hnamed⟩ := ih htail
      exact ⟨List.cons_eq_cons.2 ⟨hhead, hargs⟩, hnamed⟩

mutual

/-- **Expressions with the same form are the same up to places.** -/
theorem Expr.bare_eq_of_form (e : Expr) {e' : Expr} (he : e.MadeOf Part.Legible)
    (he' : e'.MadeOf Part.Legible) (h : e.form = e'.form) : e.bare = e'.bare := by
  -- Trees of different kinds have different heads; what is left is one tree of each kind.
  have hnode := Expr.node?_eq_of_form h
  match e with
  | .literal v _ =>
    have hv := he _ (List.mem_cons_of_mem _ List.mem_cons_self)
    cases e' with
    | literal v' _ =>
      have hv' := he' _ (List.mem_cons_of_mem _ List.mem_cons_self)
      exact congrArg (Expr.literal · default) (literalLeaf_injective hv hv' (Form.leaf.inj h))
    | ident name' _ =>
      have hname' := he' _ (List.mem_cons_of_mem _ List.mem_cons_self)
      exact absurd (Form.leaf.inj h) (literalLeaf_ne_name hv hname')
    | _ => cases hnode
  | .ident name _ =>
    have hname := he _ (List.mem_cons_of_mem _ List.mem_cons_self)
    cases e' with
    | literal v' _ =>
      have hv' := he' _ (List.mem_cons_of_mem _ List.mem_cons_self)
      exact absurd (Form.leaf.inj h).symm (literalLeaf_ne_name hv' hname)
    | ident name' _ => exact congrArg (Expr.ident · default) (nameLeaf_injective h)
    | _ => cases hnode
  | .list items _ =>
    cases e' with
    | list items' _ =>
      obtain ⟨-, hitems⟩ := Prod.mk.inj (Option.some.inj hnode)
      exact congrArg (Expr.list · default) (Expr.bareAll_eq_of_forms items
        (List.forall_mem_cons.1 he).2 (List.forall_mem_cons.1 he').2 hitems)
    | _ => cases hnode
  | .unary op x _ =>
    cases e' with
    | unary op' x' _ =>
      obtain ⟨hop, hitems⟩ := Prod.mk.inj (Option.some.inj hnode)
      obtain rfl := Head.unary.inj hop
      exact congrArg (Expr.unary op · default) (x.bare_eq_of_form (List.forall_mem_cons.1 he).2
        (List.forall_mem_cons.1 he').2 (List.singleton_inj.1 hitems))
    | _ => cases hnode
  | .binary op x y _ =>
    cases e' with
    | binary op' x' y' _ =>
      obtain ⟨hop, hitems⟩ := Prod.mk.inj (Option.some.inj hnode)
      obtain rfl := Head.binary.inj hop
      obtain ⟨hx, hy⟩ := List.cons.inj hitems
      obtain ⟨hpx, hpy⟩ := List.forall_mem_append.1 (List.forall_mem_cons.1 he).2
      obtain ⟨hpx', hpy'⟩ := List.forall_mem_append.1 (List.forall_mem_cons.1 he').2
      exact congrArg₂ (Expr.binary op · · default) (x.bare_eq_of_form hpx hpx' hx)
        (y.bare_eq_of_form hpy hpy' (List.singleton_inj.1 hy))
    | _ => cases hnode
  | .logical op x y _ =>
    cases e' with
    | logical op' x' y' _ =>
      obtain ⟨hop, hitems⟩ := Prod.mk.inj (Option.some.inj hnode)
      obtain rfl := Head.logical.inj hop
      obtain ⟨hx, hy⟩ := List.cons.inj hitems
      obtain ⟨hpx, hpy⟩ := List.forall_mem_append.1 (List.forall_mem_cons.1 he).2
      obtain ⟨hpx', hpy'⟩ := List.forall_mem_append.1 (List.forall_mem_cons.1 he').2
      exact congrArg₂ (Expr.logical op · · default) (x.bare_eq_of_form hpx hpx' hx)
        (y.bare_eq_of_form hpy hpy' (List.singleton_inj.1 hy))
    | _ => cases hnode
  | .assign x y _ =>
    cases e' with
    | assign x' y' _ =>
      obtain ⟨-, hitems⟩ := Prod.mk.inj (Option.some.inj hnode)
      obtain ⟨hx, hy⟩ := List.cons.inj hitems
      obtain ⟨hpx, hpy⟩ := List.forall_mem_append.1 (List.forall_mem_cons.1 he).2
      obtain ⟨hpx', hpy'⟩ := List.forall_mem_append.1 (List.forall_mem_cons.1 he').2
      exact congrArg₂ (Expr.assign · · default) (x.bare_eq_of_form hpx hpx' hx)
        (y.bare_eq_of_form hpy hpy' (List.singleton_inj.1 hy))
    | _ => cases hnode
  | .call x args _ =>
    cases e' with
    | call x' args' _ =>
      obtain ⟨-, hitems⟩ := Prod.mk.inj (Option.some.inj hnode)
      obtain ⟨hx, hargs⟩ := List.cons.inj hitems
      obtain ⟨hpx, hps⟩ := List.forall_mem_append.1 (List.forall_mem_cons.1 he).2
      obtain ⟨hpx', hps'⟩ := List.forall_mem_append.1 (List.forall_mem_cons.1 he').2
      exact congrArg₂ (Expr.call · · default) (x.bare_eq_of_form hpx hpx' hx)
        (Expr.bareAll_eq_of_forms args hps hps' hargs)
    | _ => cases hnode
  | .property x name _ =>
    cases e' with
    | property x' name' _ =>
      obtain ⟨-, hitems⟩ := Prod.mk.inj (Option.some.inj hnode)
      obtain ⟨hx, hname⟩ := List.cons.inj hitems
      have hpx := (List.forall_mem_cons.1 (List.forall_mem_cons.1 he).2).2
      have hpx' := (List.forall_mem_cons.1 (List.forall_mem_cons.1 he').2).2
      exact congrArg₂ (Expr.property · · default) (x.bare_eq_of_form hpx hpx' hx)
        (nameLeaf_injective (List.singleton_inj.1 hname))
    | _ => cases hnode
  | .method x name args named _ =>
    cases e' with
    | method x' name' args' named' _ =>
      obtain ⟨-, hitems⟩ := Prod.mk.inj (Option.some.inj hnode)
      obtain ⟨hx, hrest⟩ := List.cons.inj hitems
      obtain ⟨hname, hrest⟩ := List.cons.inj hrest
      obtain ⟨hargs, hnamed⟩ := Expr.forms_append_inj hrest
      have hp := (List.forall_mem_cons.1 (List.forall_mem_cons.1 he).2).2
      have hp' := (List.forall_mem_cons.1 (List.forall_mem_cons.1 he').2).2
      obtain ⟨hpx, hp⟩ := List.forall_mem_append.1 hp
      obtain ⟨hpx', hp'⟩ := List.forall_mem_append.1 hp'
      obtain ⟨hpargs, hpnamed⟩ := List.forall_mem_append.1 hp
      obtain ⟨hpargs', hpnamed'⟩ := List.forall_mem_append.1 hp'
      obtain rfl := nameLeaf_injective hname
      have hbare : Expr.mapSpans _ x = Expr.mapSpans _ x' := x.bare_eq_of_form hpx hpx' hx
      show Expr.method _ name _ _ _ = Expr.method _ name _ _ _
      rw [hbare, Expr.bareAll_eq_of_forms args hpargs hpargs' hargs,
        Expr.bareNamed_eq_of_forms named hpnamed hpnamed' hnamed]
    | _ => cases hnode

theorem Expr.bareAll_eq_of_forms (es : List Expr) {es' : List Expr}
    (hes : ∀ part ∈ Expr.partsAll es, part.Legible)
    (hes' : ∀ part ∈ Expr.partsAll es', part.Legible) (h : Expr.forms es = Expr.forms es') :
    Expr.mapSpansAll (fun _ ↦ default) es = Expr.mapSpansAll (fun _ ↦ default) es' := by
  match es with
  | [] =>
    cases es' with
    | nil => rfl
    | cons => cases h
  | e :: es =>
    cases es' with
    | nil => cases h
    | cons e' es' =>
      obtain ⟨he, hes⟩ := List.forall_mem_append.1 hes
      obtain ⟨he', hes'⟩ := List.forall_mem_append.1 hes'
      obtain ⟨hhead, htail⟩ := List.cons.inj h
      exact List.cons_eq_cons.2
        ⟨e.bare_eq_of_form he he' hhead, Expr.bareAll_eq_of_forms es hes hes' htail⟩

theorem Expr.bareNamed_eq_of_forms (es : List (String × Expr)) {es' : List (String × Expr)}
    (hes : ∀ part ∈ Expr.partsNamed es, part.Legible)
    (hes' : ∀ part ∈ Expr.partsNamed es', part.Legible)
    (h : Expr.namedForms es = Expr.namedForms es') :
    Expr.mapSpansNamed (fun _ ↦ default) es = Expr.mapSpansNamed (fun _ ↦ default) es' := by
  match es with
  | [] =>
    cases es' with
    | nil => rfl
    | cons => cases h
  | (name, e) :: es =>
    cases es' with
    | nil => cases h
    | cons e' es' =>
      obtain ⟨he, hes⟩ := List.forall_mem_append.1 (List.forall_mem_cons.1 hes).2
      obtain ⟨he', hes'⟩ := List.forall_mem_append.1 (List.forall_mem_cons.1 hes').2
      obtain ⟨hkey, h⟩ := List.cons.inj h
      obtain ⟨hhead, htail⟩ := List.cons.inj h
      have hname : name = e'.1 := String.toList_inj.1 (Leaf.key.inj (Form.leaf.inj hkey))
      exact List.cons_eq_cons.2 ⟨Prod.ext hname (e.bare_eq_of_form he he' hhead),
        Expr.bareNamed_eq_of_forms es hes hes' htail⟩

end

/-! ### Statements -/

/-- The form of a body. -/
def Stmt.bodyForm (body : List Stmt) : Form := Head.block.form (Stmt.forms body)

/-- The head of the form of a statement and the items behind it, if there is a head. -/
def Stmt.node? : Stmt → Option (Head × List Form)
  | .expr value => value.node?
  | .var name init _ => some (.var, nameLeaf name :: (init.map Expr.form).toList)
  | .print value _ => some (.print, [value.form])
  | .cond condition body other _ =>
    some (.cond, condition.form :: bodyForm body :: (other.map bodyForm).toList)
  | .block body _ => some (.block, Stmt.forms body)
  | .loop count body _ => some (.loop, [count.form, bodyForm body])
  | .define name params body _ =>
    some (.define, [nameLeaf name, .node (params.map nameLeaf), bodyForm body])
  | .throwBall zone target _ => some (.throwBall, [zone.form, target.form])
  | .run _ => some (.run, [])

/-- Every statement is shown by its form. -/
theorem Stmt.shown (s : Stmt) : Shown s.node? s.form := by
  cases s with
  | expr value => exact value.shown
  | var _ init => cases init <;> exact .node trivial
  | cond _ _ other => cases other <;> exact .node trivial
  | print | block | loop | define | throwBall | run => exact .node trivial

/-- Statements with the same form are of the same kind. -/
theorem Stmt.node?_eq_of_form {s s' : Stmt} (h : s.form = s'.form) : s.node? = s'.node? :=
  s.shown.node_eq s'.shown h

/-- The heads that stand in front of expressions. -/
def Outline.Head.isExpr : Head → Bool
  | .list | .unary _ | .binary _ | .logical _ | .assign | .call | .property | .method => true
  | _ => false

/-- No expression begins with the head of a statement. -/
theorem Expr.node?_ne (e : Expr) {h : Head} (hh : h.isExpr = false) (items : List Form) :
    e.node? ≠ some (h, items) := by
  intro hnode
  cases e <;> cases hnode <;> cases hh

theorem Stmt.bodyForm_injective {body body' : List Stmt} (h : bodyForm body = bodyForm body') :
    Stmt.forms body = Stmt.forms body' :=
  (List.cons.inj (Form.node.inj h)).2

mutual

/-- **Statements with the same form are the same up to places.** -/
theorem Stmt.bare_eq_of_form (s : Stmt) {s' : Stmt} (hs : s.MadeOf Part.Legible)
    (hs' : s'.MadeOf Part.Legible) (h : s.form = s'.form) : s.bare = s'.bare := by
  have hnode := Stmt.node?_eq_of_form h
  -- Every other kind of statement has another head; only an expression has the form of its own.
  match s with
  | .expr e =>
    cases s' with
    | expr e' => exact congrArg Stmt.expr (e.bare_eq_of_form hs hs' h)
    | _ => exact absurd hnode (e.node?_ne rfl _)
  | .var name init _ =>
    cases s' with
    | expr e' => exact absurd hnode.symm (e'.node?_ne rfl _)
    | var name' init' _ =>
      obtain ⟨-, hitems⟩ := Prod.mk.inj (Option.some.inj hnode)
      obtain ⟨hname, hinit⟩ := List.cons.inj hitems
      obtain rfl := nameLeaf_injective hname
      cases init with
      | none =>
        cases init' with
        | none => rfl
        | some => cases hinit
      | some e =>
        cases init' with
        | none => cases hinit
        | some e' =>
          have hp := (List.forall_mem_cons.1 (List.forall_mem_cons.1 hs).2).2
          have hp' := (List.forall_mem_cons.1 (List.forall_mem_cons.1 hs').2).2
          exact congrArg (fun e ↦ Stmt.var name (some e) default)
            (e.bare_eq_of_form hp hp' (List.singleton_inj.1 hinit))
    | _ => cases hnode
  | .print e _ =>
    cases s' with
    | expr e' => exact absurd hnode.symm (e'.node?_ne rfl _)
    | print e' _ =>
      obtain ⟨-, hitems⟩ := Prod.mk.inj (Option.some.inj hnode)
      exact congrArg (Stmt.print · default) (e.bare_eq_of_form (List.forall_mem_cons.1 hs).2
        (List.forall_mem_cons.1 hs').2 (List.singleton_inj.1 hitems))
    | _ => cases hnode
  | .cond c body none _ =>
    cases s' with
    | expr e' => exact absurd hnode.symm (e'.node?_ne rfl _)
    | cond c' body' other' _ =>
      obtain ⟨-, hitems⟩ := Prod.mk.inj (Option.some.inj hnode)
      obtain ⟨hc, hbodies⟩ := List.cons.inj hitems
      obtain ⟨hbody, hother⟩ := List.cons.inj hbodies
      cases other' with
      | none =>
        obtain ⟨hpc, hpb⟩ := List.forall_mem_append.1 (List.forall_mem_cons.1 hs).2
        obtain ⟨hpc', hpb'⟩ := List.forall_mem_append.1 (List.forall_mem_cons.1 hs').2
        exact congrArg₂ (Stmt.cond · · none default) (c.bare_eq_of_form hpc hpc' hc)
          (Stmt.bareAll_eq_of_forms body hpb hpb' (Stmt.bodyForm_injective hbody))
      | some => cases hother
    | _ => cases hnode
  | .cond c body (some other) _ =>
    cases s' with
    | expr e' => exact absurd hnode.symm (e'.node?_ne rfl _)
    | cond c' body' other' _ =>
      obtain ⟨-, hitems⟩ := Prod.mk.inj (Option.some.inj hnode)
      obtain ⟨hc, hbodies⟩ := List.cons.inj hitems
      obtain ⟨hbody, hother⟩ := List.cons.inj hbodies
      cases other' with
      | none => cases hother
      | some other' =>
        obtain ⟨hpc, hp⟩ := List.forall_mem_append.1 (List.forall_mem_cons.1 hs).2
        obtain ⟨hpc', hp'⟩ := List.forall_mem_append.1 (List.forall_mem_cons.1 hs').2
        obtain ⟨hpb, hpo⟩ := List.forall_mem_append.1 hp
        obtain ⟨hpb', hpo'⟩ := List.forall_mem_append.1 hp'
        have hbare : Expr.mapSpans _ c = Expr.mapSpans _ c' := c.bare_eq_of_form hpc hpc' hc
        have hother := Stmt.bodyForm_injective (List.singleton_inj.1 hother)
        show Stmt.cond _ _ (some _) _ = Stmt.cond _ _ (some _) _
        rw [hbare, Stmt.bareAll_eq_of_forms body hpb hpb' (Stmt.bodyForm_injective hbody),
          Stmt.bareAll_eq_of_forms other hpo hpo' hother]
    | _ => cases hnode
  | .block body _ =>
    cases s' with
    | expr e' => exact absurd hnode.symm (e'.node?_ne rfl _)
    | block body' _ =>
      obtain ⟨-, hbody⟩ := Prod.mk.inj (Option.some.inj hnode)
      exact congrArg (Stmt.block · default) (Stmt.bareAll_eq_of_forms body
        (List.forall_mem_cons.1 hs).2 (List.forall_mem_cons.1 hs').2 hbody)
    | _ => cases hnode
  | .loop count body _ =>
    cases s' with
    | expr e' => exact absurd hnode.symm (e'.node?_ne rfl _)
    | loop count' body' _ =>
      obtain ⟨-, hitems⟩ := Prod.mk.inj (Option.some.inj hnode)
      obtain ⟨hcount, hbody⟩ := List.cons.inj hitems
      obtain ⟨hpc, hpb⟩ := List.forall_mem_append.1 (List.forall_mem_cons.1 hs).2
      obtain ⟨hpc', hpb'⟩ := List.forall_mem_append.1 (List.forall_mem_cons.1 hs').2
      have hbody := Stmt.bodyForm_injective (List.singleton_inj.1 hbody)
      exact congrArg₂ (Stmt.loop · · default) (count.bare_eq_of_form hpc hpc' hcount)
        (Stmt.bareAll_eq_of_forms body hpb hpb' hbody)
    | _ => cases hnode
  | .define name params body _ =>
    cases s' with
    | expr e' => exact absurd hnode.symm (e'.node?_ne rfl _)
    | define name' params' body' _ =>
      obtain ⟨-, hitems⟩ := Prod.mk.inj (Option.some.inj hnode)
      obtain ⟨hname, hrest⟩ := List.cons.inj hitems
      obtain ⟨hparams, hbody⟩ := List.cons.inj hrest
      obtain rfl := nameLeaf_injective hname
      obtain rfl : params = params' :=
        List.map_injective_iff.2 (fun _ _ ↦ nameLeaf_injective) (Form.node.inj hparams)
      have hp := (List.forall_mem_cons.1 (List.forall_mem_cons.1 hs).2).2
      have hp' := (List.forall_mem_cons.1 (List.forall_mem_cons.1 hs').2).2
      have hbody := Stmt.bodyForm_injective (List.singleton_inj.1 hbody)
      exact congrArg (Stmt.define name params · default) (Stmt.bareAll_eq_of_forms body
        (List.forall_mem_append.1 hp).2 (List.forall_mem_append.1 hp').2 hbody)
    | _ => cases hnode
  | .throwBall zone target _ =>
    cases s' with
    | expr e' => exact absurd hnode.symm (e'.node?_ne rfl _)
    | throwBall zone' target' _ =>
      obtain ⟨-, hitems⟩ := Prod.mk.inj (Option.some.inj hnode)
      obtain ⟨hzone, htarget⟩ := List.cons.inj hitems
      obtain ⟨hpz, hpt⟩ := List.forall_mem_append.1 (List.forall_mem_cons.1 hs).2
      obtain ⟨hpz', hpt'⟩ := List.forall_mem_append.1 (List.forall_mem_cons.1 hs').2
      exact congrArg₂ (Stmt.throwBall · · default) (zone.bare_eq_of_form hpz hpz' hzone)
        (target.bare_eq_of_form hpt hpt' (List.singleton_inj.1 htarget))
    | _ => cases hnode
  | .run _ =>
    cases s' with
    | expr e' => exact absurd hnode.symm (e'.node?_ne rfl _)
    | run _ => rfl
    | _ => cases hnode

theorem Stmt.bareAll_eq_of_forms (ss : List Stmt) {ss' : List Stmt}
    (hss : ∀ part ∈ Stmt.partsAll ss, part.Legible)
    (hss' : ∀ part ∈ Stmt.partsAll ss', part.Legible) (h : Stmt.forms ss = Stmt.forms ss') :
    Stmt.mapSpansAll (fun _ ↦ default) ss = Stmt.mapSpansAll (fun _ ↦ default) ss' := by
  match ss with
  | [] =>
    cases ss' with
    | nil => rfl
    | cons => cases h
  | s :: ss =>
    cases ss' with
    | nil => cases h
    | cons s' ss' =>
      obtain ⟨hs, hss⟩ := List.forall_mem_append.1 hss
      obtain ⟨hs', hss'⟩ := List.forall_mem_append.1 hss'
      obtain ⟨hhead, htail⟩ := List.cons.inj h
      exact List.cons_eq_cons.2
        ⟨s.bare_eq_of_form hs hs' hhead, Stmt.bareAll_eq_of_forms ss hss hss' htail⟩

end

end SafariScript
