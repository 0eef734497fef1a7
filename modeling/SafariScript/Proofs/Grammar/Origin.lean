import SafariScript.Proofs.Evaluation.Bounds
import SafariScript.Proofs.Grammar.Language

/-!
# Where the parts of a tree come from

The grammar makes trees out of tokens and adds nothing of its own: every place, name and literal in
the tree of a program is that of one of its tokens (`Program.Derives.madeOf`). So whatever is known
of what tokens give is known of the tree. The induction is on the levels of nesting, and on each
level it goes by the rules of the grammar.
-/

namespace SafariScript

/-- What a token gives to a tree: its place, and its name or its literal. -/
def Token.parts (t : Token) : List Part :=
  .place t.span ::
    match t.kind with
    | .ident name => [.name name]
    | .literal value => [.literal value]
    | _ => []

variable {P : Part → Prop}

/-- All that the token gives is such a part. -/
def Token.Gives (P : Part → Prop) (t : Token) : Prop := ∀ part ∈ t.parts, P part

namespace Token.Gives

variable {t : Token}

theorem place (h : t.Gives P) : P (.place t.span) := h _ List.mem_cons_self

/-- The name of a tree is that of the token. -/
theorem name (h : t.Gives P) {name : String} (ht : t.kind = .ident name) : P (.name name) := by
  refine h _ (List.mem_cons_of_mem _ ?_)
  rw [ht]
  exact List.mem_cons_self

/-- The literal of a tree is that of the token. -/
theorem literal (h : t.Gives P) {value : Literal} (ht : t.kind = .literal value) :
    P (.literal value) := by
  refine h _ (List.mem_cons_of_mem _ ?_)
  rw [ht]
  exact List.mem_cons_self

end Token.Gives

/-! ### Trees made of parts -/

/-- The expression is made of such parts. -/
def Expr.MadeOf (P : Part → Prop) (e : Expr) : Prop := ∀ part ∈ e.parts, P part

/-- The statement is made of such parts. -/
def Stmt.MadeOf (P : Part → Prop) (s : Stmt) : Prop := ∀ part ∈ s.parts, P part

/-- The parts of expressions are those of each of them. -/
theorem Expr.forall_partsAll {es : List Expr} :
    (∀ part ∈ Expr.partsAll es, P part) ↔ ∀ e ∈ es, e.MadeOf P := by
  induction es with
  | nil => simp [partsAll]
  | cons e es ih => simp only [partsAll, List.forall_mem_append, List.forall_mem_cons, ih, MadeOf]

/-- The parts of named expressions are the names and those of each of them. -/
theorem Expr.forall_partsNamed {es : List (String × Expr)} :
    (∀ part ∈ Expr.partsNamed es, P part) ↔ ∀ e ∈ es, P (.name e.1) ∧ e.2.MadeOf P := by
  induction es with
  | nil => simp [partsNamed]
  | cons e es ih =>
    simp only [partsNamed, List.forall_mem_append, List.forall_mem_cons, ih, MadeOf, and_assoc]

/-- The parts of statements are those of each of them. -/
theorem Stmt.forall_partsAll {ss : List Stmt} :
    (∀ part ∈ Stmt.partsAll ss, P part) ↔ ∀ s ∈ ss, s.MadeOf P := by
  induction ss with
  | nil => simp [partsAll]
  | cons s ss ih => simp only [partsAll, List.forall_mem_append, List.forall_mem_cons, ih, MadeOf]

/-- The argument is made of such parts. -/
def Grammar.Argument.MadeOf (P : Part → Prop) : Grammar.Argument → Prop
  | .positional value => value.MadeOf P
  | .named key value => P (.name key) ∧ value.MadeOf P

/-- The arguments without a name are among all arguments. -/
theorem Grammar.positionalArgs_madeOf {args : List Argument} (h : ∀ arg ∈ args, arg.MadeOf P) :
    ∀ e ∈ positionalArgs args, e.MadeOf P := by
  intro e he
  obtain ⟨arg, harg, heq⟩ := List.mem_filterMap.1 he
  have hmade := h arg harg
  cases arg with
  | positional value => exact Option.some.inj heq ▸ hmade
  | named key value => cases heq

/-- The arguments with a name are among all arguments. -/
theorem Grammar.namedArgs_madeOf {args : List Argument} (h : ∀ arg ∈ args, arg.MadeOf P) :
    ∀ e ∈ namedArgs args, P (.name e.1) ∧ e.2.MadeOf P := by
  intro e he
  obtain ⟨arg, harg, heq⟩ := List.mem_filterMap.1 he
  have hmade := h arg harg
  cases arg with
  | positional value => cases heq
  | named key value => exact Option.some.inj heq ▸ hmade

namespace Language

/-! ### Sequences -/

section Sequences

variable {α : Type} {R : List Token → α → Prop} {Q : α → Prop} {S : Token → Prop}
  {xs : List Token} {as : List α}

/-- Items one after the other, each made of its own tokens. -/
theorem Many.forall (hR : ∀ {xs a}, R xs a → (∀ t ∈ xs, S t) → Q a) (h : Many R xs as)
    (hxs : ∀ t ∈ xs, S t) : ∀ a ∈ as, Q a := by
  induction h with
  | nil => nofun
  | cons ha _ ih =>
    obtain ⟨hxs, hys⟩ := List.forall_mem_append.1 hxs
    exact List.forall_mem_cons.2 ⟨hR ha hxs, ih hys⟩

/-- Items with commas between them; the commas give nothing. -/
theorem Separated.forall (hR : ∀ {xs a}, R xs a → (∀ t ∈ xs, S t) → Q a) (h : Separated R xs as)
    (hxs : ∀ t ∈ xs, S t) : ∀ a ∈ as, Q a := by
  induction h with
  | one ha => exact List.forall_mem_singleton.2 (hR ha hxs)
  | more _ _ ha ih =>
    obtain ⟨hxs, hys⟩ := List.forall_mem_append.1 hxs
    have hlast := hR ha (List.forall_mem_cons.1 hys).2
    exact List.forall_mem_append.2 ⟨ih hxs, List.forall_mem_singleton.2 hlast⟩

theorem Items.forall (hR : ∀ {xs a}, R xs a → (∀ t ∈ xs, S t) → Q a) (h : Items R xs as)
    (hxs : ∀ t ∈ xs, S t) : ∀ a ∈ as, Q a := by
  cases h with
  | none => nofun
  | separated h => exact h.forall hR hxs
  | trailing h _ => exact h.forall hR (List.forall_mem_append.1 hxs).1

end Sequences

/-! ### Phrases -/

/-- What stands one level further in is made of what its tokens give. -/
structure Made (P : Part → Prop) (L : Language) : Prop where
  expr : ∀ {xs e}, L.expr xs e → (∀ t ∈ xs, t.Gives P) → e.MadeOf P
  operand : ∀ {xs e}, L.operand xs e → (∀ t ∈ xs, t.Gives P) → e.MadeOf P
  block : ∀ {control xs body}, L.block control xs body → (∀ t ∈ xs, t.Gives P) →
    ∀ s ∈ body, s.MadeOf P

variable {L : Language} (hL : L.Made P) {xs : List Token} {e : Expr}

theorem Name.madeOf {name : String} (h : Name xs name) (hxs : ∀ t ∈ xs, t.Gives P) :
    P (.name name) := by
  obtain ⟨ht⟩ := h
  exact (List.forall_mem_singleton.1 hxs).name ht

include hL

/-- A primary expression is a token, or brackets around what stands further in. -/
theorem Primary.madeOf (h : Primary L xs e) (hxs : ∀ t ∈ xs, t.Gives P) : e.MadeOf P := by
  cases h with
  | literal ht =>
    have hgives := List.forall_mem_singleton.1 hxs
    exact List.forall_mem_cons.2 ⟨hgives.place, List.forall_mem_singleton.2 (hgives.literal ht)⟩
  | ident ht =>
    have hgives := List.forall_mem_singleton.1 hxs
    exact List.forall_mem_cons.2 ⟨hgives.place, List.forall_mem_singleton.2 (hgives.name ht)⟩
  | group _ he _ =>
    obtain ⟨-, hxs⟩ := List.forall_mem_cons.1 hxs
    exact hL.expr he (List.forall_mem_append.1 hxs).1
  | list _ hes _ =>
    obtain ⟨hleft, hxs⟩ := List.forall_mem_cons.1 hxs
    have hitems := hes.forall (Q := Expr.MadeOf P) hL.expr (List.forall_mem_append.1 hxs).1
    exact List.forall_mem_cons.2 ⟨hleft.place, Expr.forall_partsAll.2 hitems⟩

/-- An argument has the name that stands before it. -/
theorem Argument.madeOf {arg : Grammar.Argument} (h : Argument L xs arg)
    (hxs : ∀ t ∈ xs, t.Gives P) : arg.MadeOf P := by
  cases h with
  | named ht _ he =>
    obtain ⟨hkey, hxs⟩ := List.forall_mem_cons.1 hxs
    exact ⟨hkey.name ht, hL.expr he (List.forall_mem_cons.1 hxs).2⟩
  | positional he _ => exact hL.expr he hxs

/-- A suffix adds a name, or arguments. -/
theorem Suffixed.madeOf (h : Suffixed L xs e) (hxs : ∀ t ∈ xs, t.Gives P) : e.MadeOf P := by
  induction h with
  | primary h => exact h.madeOf hL hxs
  | property _ _ ht ih =>
    simp only [List.forall_mem_append, List.forall_mem_cons] at hxs
    obtain ⟨hxs, -, hname, -⟩ := hxs
    exact List.forall_mem_cons.2 ⟨hname.place, List.forall_mem_cons.2 ⟨hname.name ht, ih hxs⟩⟩
  | method _ _ ht ih =>
    simp only [List.forall_mem_append, List.forall_mem_cons] at hxs
    obtain ⟨hxs, -, hname, -⟩ := hxs
    refine List.forall_mem_cons.2 ⟨hname.place, List.forall_mem_cons.2 ⟨hname.name ht, ?_⟩⟩
    exact List.forall_mem_append.2 ⟨ih hxs, nofun⟩
  | methodArgs _ _ ht _ hargs _ ih =>
    simp only [List.forall_mem_append, List.forall_mem_cons] at hxs
    obtain ⟨hxs, -, hname, -, hys, -⟩ := hxs
    have hmade := hargs.forall (fun h ↦ h.madeOf hL) hys
    refine List.forall_mem_cons.2 ⟨hname.place, List.forall_mem_cons.2 ⟨hname.name ht, ?_⟩⟩
    refine List.forall_mem_append.2 ⟨ih hxs, List.forall_mem_append.2 ⟨?_, ?_⟩⟩
    · exact Expr.forall_partsAll.2 (Grammar.positionalArgs_madeOf hmade)
    · exact Expr.forall_partsNamed.2 (Grammar.namedArgs_madeOf hmade)
  | @call xs ys e left right args _ _ _ hargs _ ih =>
    simp only [List.forall_mem_append, List.forall_mem_cons] at hxs
    obtain ⟨hxs, -, hys, -⟩ := hxs
    -- a call stands where its callee stands
    have hspan : P (.place e.span) := by cases e <;> exact ih hxs _ List.mem_cons_self
    have hitems := Expr.forall_partsAll.2 (hargs.forall hL.expr hys)
    exact List.forall_mem_cons.2 ⟨hspan, List.forall_mem_append.2 ⟨ih hxs, hitems⟩⟩

theorem Unary.madeOf (h : Unary L xs e) (hxs : ∀ t ∈ xs, t.Gives P) : e.MadeOf P := by
  cases h with
  | operator _ he =>
    obtain ⟨ht, hxs⟩ := List.forall_mem_cons.1 hxs
    exact List.forall_mem_cons.2 ⟨ht.place, hL.operand he hxs⟩
  | suffixed h => exact h.madeOf hL hxs

omit hL in
/-- An operator adds its place and nothing else. -/
theorem Operator.madeOf {level : Level} {kind : Token.Kind} {build : Expr → Expr → Span → Expr}
    (h : Operator level kind build) {left right : Expr} {span : Span} (hspan : P (.place span))
    (hleft : left.MadeOf P) (hright : right.MadeOf P) : (build left right span).MadeOf P := by
  cases h <;> exact List.forall_mem_cons.2 ⟨hspan, List.forall_mem_append.2 ⟨hleft, hright⟩⟩

omit hL in
/-- Operands with operators between them. -/
theorem LeftAssoc.madeOf {level : Level} {R : List Token → Expr → Prop}
    (hR : ∀ {xs e}, R xs e → (∀ t ∈ xs, t.Gives P) → e.MadeOf P) {xs : List Token} {e : Expr}
    (h : LeftAssoc level R xs e) (hxs : ∀ t ∈ xs, t.Gives P) : e.MadeOf P := by
  induction h with
  | operand he => exact hR he hxs
  | operator _ hop he ih =>
    obtain ⟨hxs, hys⟩ := List.forall_mem_append.1 hxs
    obtain ⟨ht, hys⟩ := List.forall_mem_cons.1 hys
    exact hop.madeOf ht.place (ih hxs) (hR he hys)

theorem Disjunction.madeOf (h : Disjunction L xs e) (hxs : ∀ t ∈ xs, t.Gives P) : e.MadeOf P :=
  LeftAssoc.madeOf (LeftAssoc.madeOf (LeftAssoc.madeOf (LeftAssoc.madeOf (LeftAssoc.madeOf
    (LeftAssoc.madeOf (Unary.madeOf hL)))))) h hxs

/-- An assignment has the parts of both sides. -/
theorem Assignment.madeOf (h : Assignment L xs e) (hxs : ∀ t ∈ xs, t.Gives P) : e.MadeOf P := by
  cases h with
  | plain h => exact h.madeOf hL hxs
  | assign htarget _ _ hvalue =>
    obtain ⟨hxs, hys⟩ := List.forall_mem_append.1 hxs
    obtain ⟨ht, hys⟩ := List.forall_mem_cons.1 hys
    exact List.forall_mem_cons.2 ⟨ht.place,
      List.forall_mem_append.2 ⟨htarget.madeOf hL hxs, hL.expr hvalue hys⟩⟩

variable {s : Stmt} {control : Bool}

/-- A condition has the parts of all its branches. -/
theorem Condition.madeOf (h : Condition L xs s) (hxs : ∀ t ∈ xs, t.Gives P) : s.MadeOf P := by
  induction h with
  | single _ he hbody =>
    simp only [List.forall_mem_append, List.forall_mem_cons] at hxs
    obtain ⟨hword, hxs, hys⟩ := hxs
    exact List.forall_mem_cons.2 ⟨hword.place, List.forall_mem_append.2
      ⟨hL.expr he hxs, Stmt.forall_partsAll.2 (hL.block hbody hys)⟩⟩
  | otherwise _ he hbody _ hlast =>
    simp only [List.forall_mem_append, List.forall_mem_cons] at hxs
    obtain ⟨hword, hxs, hys, -, hzs⟩ := hxs
    exact List.forall_mem_cons.2 ⟨hword.place, List.forall_mem_append.2 ⟨hL.expr he hxs,
      List.forall_mem_append.2 ⟨Stmt.forall_partsAll.2 (hL.block hbody hys),
        Stmt.forall_partsAll.2 (hL.block hlast hzs)⟩⟩⟩
  | further _ he hbody _ _ ih =>
    simp only [List.forall_mem_append, List.forall_mem_cons] at hxs
    obtain ⟨hword, hxs, hys, -, hzs⟩ := hxs
    exact List.forall_mem_cons.2 ⟨hword.place, List.forall_mem_append.2 ⟨hL.expr he hxs,
      List.forall_mem_append.2 ⟨Stmt.forall_partsAll.2 (hL.block hbody hys),
        Stmt.forall_partsAll.2 (List.forall_mem_singleton.2 (ih hzs))⟩⟩⟩

/-- A statement is made of what its tokens give, by its form. -/
theorem Statement.madeOf (h : Statement L control xs s) (hxs : ∀ t ∈ xs, t.Gives P) :
    s.MadeOf P := by
  cases h with
  | var _ ht _ =>
    simp only [List.forall_mem_cons] at hxs
    obtain ⟨hword, hname, -⟩ := hxs
    exact List.forall_mem_cons.2 ⟨hword.place, List.forall_mem_singleton.2 (hname.name ht)⟩
  | varInit _ ht _ he _ =>
    simp only [List.forall_mem_append, List.forall_mem_cons] at hxs
    obtain ⟨hword, hname, -, hxs, -⟩ := hxs
    exact List.forall_mem_cons.2 ⟨hword.place,
      List.forall_mem_cons.2 ⟨hname.name ht, hL.expr he hxs⟩⟩
  | print _ he _ =>
    obtain ⟨hword, hxs⟩ := List.forall_mem_cons.1 hxs
    exact List.forall_mem_cons.2 ⟨hword.place, hL.expr he (List.forall_mem_append.1 hxs).1⟩
  | cond h => exact h.madeOf hL hxs
  | loop _ hcount hbody =>
    simp only [List.forall_mem_append, List.forall_mem_cons] at hxs
    obtain ⟨hword, hxs, hys⟩ := hxs
    exact List.forall_mem_cons.2 ⟨hword.place, List.forall_mem_append.2
      ⟨hL.expr hcount hxs, Stmt.forall_partsAll.2 (hL.block hbody hys)⟩⟩
  | define _ ht _ hparams _ hbody =>
    simp only [List.forall_mem_append, List.forall_mem_cons] at hxs
    obtain ⟨hword, hname, -, hxs, -, hys⟩ := hxs
    have hnames := hparams.forall (Q := fun name ↦ P (.name name)) Name.madeOf hxs
    refine List.forall_mem_cons.2 ⟨hword.place, List.forall_mem_cons.2 ⟨hname.name ht, ?_⟩⟩
    exact List.forall_mem_append.2 ⟨List.forall_mem_map.2 hnames,
      Stmt.forall_partsAll.2 (hL.block hbody hys)⟩
  | throwBall _ _ hzone _ htarget _ _ =>
    simp only [List.forall_mem_append, List.forall_mem_cons] at hxs
    obtain ⟨hword, -, hxs, -, hys, -⟩ := hxs
    exact List.forall_mem_cons.2 ⟨hword.place,
      List.forall_mem_append.2 ⟨hL.expr hzone hxs, hL.expr htarget hys⟩⟩
  | run _ _ _ => exact List.forall_mem_singleton.2 (hxs _ List.mem_cons_self).place
  | block hbody =>
    exact List.forall_mem_cons.2 ⟨(hxs _ List.mem_cons_self).place,
      Stmt.forall_partsAll.2 (hL.block hbody hxs)⟩
  | expr he _ _ => exact hL.expr he (List.forall_mem_append.1 hxs).1

theorem Braces.madeOf {body : List Stmt} (h : Braces L control xs body)
    (hxs : ∀ t ∈ xs, t.Gives P) : ∀ s ∈ body, s.MadeOf P := by
  obtain ⟨-, hbody, -⟩ := h
  obtain ⟨-, hxs⟩ := List.forall_mem_cons.1 hxs
  exact hbody.forall (Statement.madeOf hL) (List.forall_mem_append.1 hxs).1

/-! ### Levels -/

/-- If what stands further in is made of its tokens, so is this level. -/
theorem Made.deeper : L.deeper.Made P :=
  ⟨Assignment.madeOf hL, Unary.madeOf hL, Braces.madeOf hL⟩

omit hL in
/-- Every level is made of its tokens, by induction on the levels. -/
theorem made_within (n : Nat) : (within n).Made P := by
  induction n with
  | zero => exact ⟨False.elim, False.elim, False.elim⟩
  | succ n ih => exact ih.deeper

end Language

/-- **A program is made of what its tokens give.** -/
theorem Program.Derives.madeOf {ts : List Token} {program : Program}
    (h : Program.Derives ts program) (hts : ∀ t ∈ ts, t.Gives P) :
    ∀ part ∈ Stmt.partsAll program, P part :=
  Stmt.forall_partsAll.2
    (h.forall (Language.Statement.madeOf (Language.made_within maxNesting)) hts)

end SafariScript
