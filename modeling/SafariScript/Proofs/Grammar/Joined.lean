import SafariScript.Proofs.Grammar.Statements
import SafariScript.Proofs.Scanning.Seam

/-!
# Joined sources

Sources that are joined by a line feed give the statements of the one and then those of the other
(`ofTokens_joined`). The tokens of the joined source are those of the two, with the second ones at
other places (`scan_append_newline`). So there are two things to see:

* statements may follow statements: this is what `Language.Many` says, since a program is any number
  of statements, each of them a statement whatever stands around it;
* **the grammar does not look at places**. When every token is taken to one of the same kind at
  another place, each phrase becomes a phrase, and its tree is the same up to places
  (`Expr.mapSpans`, `Stmt.mapSpans`). This goes by the levels of nesting, and on each level by the
  rules of the grammar (`Stable.deeper`).
-/

namespace SafariScript

/-! ### Trees with other places -/

mutual

/-- The expression with `f` applied to every place in it. -/
def Expr.mapSpans (f : Span → Span) : Expr → Expr
  | .literal value span => .literal value (f span)
  | .list items span => .list (Expr.mapSpansAll f items) (f span)
  | .ident name span => .ident name (f span)
  | .unary op operand span => .unary op (operand.mapSpans f) (f span)
  | .binary op left right span => .binary op (left.mapSpans f) (right.mapSpans f) (f span)
  | .logical op left right span => .logical op (left.mapSpans f) (right.mapSpans f) (f span)
  | .assign target value span => .assign (target.mapSpans f) (value.mapSpans f) (f span)
  | .call callee args span => .call (callee.mapSpans f) (Expr.mapSpansAll f args) (f span)
  | .property object name span => .property (object.mapSpans f) name (f span)
  | .method object name args named span =>
    .method (object.mapSpans f) name (Expr.mapSpansAll f args) (Expr.mapSpansNamed f named) (f span)

/-- The expressions with `f` applied to every place in them. -/
def Expr.mapSpansAll (f : Span → Span) : List Expr → List Expr
  | [] => []
  | e :: es => e.mapSpans f :: Expr.mapSpansAll f es

/-- The named expressions with `f` applied to every place in them. -/
def Expr.mapSpansNamed (f : Span → Span) : List (String × Expr) → List (String × Expr)
  | [] => []
  | (name, e) :: es => (name, e.mapSpans f) :: Expr.mapSpansNamed f es

end

mutual

/-- The statement with `f` applied to every place in it. -/
def Stmt.mapSpans (f : Span → Span) : Stmt → Stmt
  | .expr value => .expr (value.mapSpans f)
  | .var name none span => .var name none (f span)
  | .var name (some init) span => .var name (some (init.mapSpans f)) (f span)
  | .print value span => .print (value.mapSpans f) (f span)
  | .cond condition body none span =>
    .cond (condition.mapSpans f) (Stmt.mapSpansAll f body) none (f span)
  | .cond condition body (some other) span =>
    .cond (condition.mapSpans f) (Stmt.mapSpansAll f body) (some (Stmt.mapSpansAll f other))
      (f span)
  | .block body span => .block (Stmt.mapSpansAll f body) (f span)
  | .loop count body span => .loop (count.mapSpans f) (Stmt.mapSpansAll f body) (f span)
  | .define name params body span => .define name params (Stmt.mapSpansAll f body) (f span)
  | .throwBall zone target span => .throwBall (zone.mapSpans f) (target.mapSpans f) (f span)
  | .run span => .run (f span)

/-- The statements with `f` applied to every place in them. -/
def Stmt.mapSpansAll (f : Span → Span) : List Stmt → List Stmt
  | [] => []
  | s :: ss => s.mapSpans f :: Stmt.mapSpansAll f ss

end

section MapSpans

variable (f : Span → Span)

@[simp] theorem Expr.mapSpansAll_eq_map (es : List Expr) :
    Expr.mapSpansAll f es = es.map (Expr.mapSpans f) := by
  induction es with
  | nil => rfl
  | cons e es ih => rw [mapSpansAll, ih, List.map_cons]

@[simp] theorem Expr.mapSpansNamed_eq_map (es : List (String × Expr)) :
    Expr.mapSpansNamed f es = es.map (Prod.map id (Expr.mapSpans f)) := by
  induction es with
  | nil => rfl
  | cons e es ih =>
    rw [mapSpansNamed, ih, List.map_cons]
    rfl

@[simp] theorem Stmt.mapSpansAll_eq_map (ss : List Stmt) :
    Stmt.mapSpansAll f ss = ss.map (Stmt.mapSpans f) := by
  induction ss with
  | nil => rfl
  | cons s ss ih => rw [mapSpansAll, ih, List.map_cons]

/-- The place of the tree is changed, too. -/
theorem Expr.span_mapSpans (e : Expr) : (e.mapSpans f).span = f e.span := by
  cases e <;> rfl

section Twice

variable (g : Span → Span)

mutual

/-- To change places twice is to change them once by both. -/
theorem Expr.mapSpans_mapSpans (e : Expr) :
    (e.mapSpans f).mapSpans g = e.mapSpans fun span ↦ g (f span) := by
  match e with
  | .literal _ _ | .ident _ _ => rfl
  | .list items _ => simp only [Expr.mapSpans, Expr.mapSpansAll_mapSpansAll items]
  | .unary _ x _ | .property x _ _ => simp only [Expr.mapSpans, x.mapSpans_mapSpans]
  | .binary _ x y _ | .logical _ x y _ | .assign x y _ =>
    simp only [Expr.mapSpans, x.mapSpans_mapSpans, y.mapSpans_mapSpans]
  | .call x args _ =>
    simp only [Expr.mapSpans, x.mapSpans_mapSpans, Expr.mapSpansAll_mapSpansAll args]
  | .method x _ args named _ =>
    simp only [Expr.mapSpans, x.mapSpans_mapSpans, Expr.mapSpansAll_mapSpansAll args,
      Expr.mapSpansNamed_mapSpansNamed named]

theorem Expr.mapSpansAll_mapSpansAll (es : List Expr) :
    Expr.mapSpansAll g (Expr.mapSpansAll f es) = Expr.mapSpansAll (fun span ↦ g (f span)) es := by
  match es with
  | [] => rfl
  | e :: es =>
    simp only [Expr.mapSpansAll, e.mapSpans_mapSpans, Expr.mapSpansAll_mapSpansAll es]

theorem Expr.mapSpansNamed_mapSpansNamed (es : List (String × Expr)) :
    Expr.mapSpansNamed g (Expr.mapSpansNamed f es) =
      Expr.mapSpansNamed (fun span ↦ g (f span)) es := by
  match es with
  | [] => rfl
  | (name, e) :: es =>
    simp only [Expr.mapSpansNamed, e.mapSpans_mapSpans, Expr.mapSpansNamed_mapSpansNamed es]

end

mutual

/-- To change places twice is to change them once by both. -/
theorem Stmt.mapSpans_mapSpans (s : Stmt) :
    (s.mapSpans f).mapSpans g = s.mapSpans fun span ↦ g (f span) := by
  match s with
  | .var _ none _ | .run _ => rfl
  | .expr e | .var _ (some e) _ | .print e _ => simp only [Stmt.mapSpans, e.mapSpans_mapSpans]
  | .cond e body none _ | .loop e body _ =>
    simp only [Stmt.mapSpans, e.mapSpans_mapSpans, Stmt.mapSpansAll_mapSpansAll body]
  | .cond e body (some other) _ =>
    simp only [Stmt.mapSpans, e.mapSpans_mapSpans, Stmt.mapSpansAll_mapSpansAll body,
      Stmt.mapSpansAll_mapSpansAll other]
  | .block body _ | .define _ _ body _ =>
    simp only [Stmt.mapSpans, Stmt.mapSpansAll_mapSpansAll body]
  | .throwBall e e' _ =>
    simp only [Stmt.mapSpans, e.mapSpans_mapSpans, e'.mapSpans_mapSpans]

theorem Stmt.mapSpansAll_mapSpansAll (ss : List Stmt) :
    Stmt.mapSpansAll g (Stmt.mapSpansAll f ss) = Stmt.mapSpansAll (fun span ↦ g (f span)) ss := by
  match ss with
  | [] => rfl
  | s :: ss =>
    simp only [Stmt.mapSpansAll, s.mapSpans_mapSpans, Stmt.mapSpansAll_mapSpansAll ss]

end

end Twice

/-- The expression without its places. -/
def Expr.bare (e : Expr) : Expr := e.mapSpans fun _ ↦ default

/-- The statement without its places. -/
def Stmt.bare (s : Stmt) : Stmt := s.mapSpans fun _ ↦ default

/-- Without places there is no difference. -/
theorem Stmt.bare_mapSpans (s : Stmt) : (s.mapSpans f).bare = s.bare :=
  s.mapSpans_mapSpans f fun _ ↦ default

/-- The argument with `f` applied to every place in it. -/
def Grammar.Argument.mapSpans : Grammar.Argument → Grammar.Argument
  | .positional value => .positional (value.mapSpans f)
  | .named key value => .named key (value.mapSpans f)

/-- Which arguments are without a name does not depend on places. -/
theorem Grammar.positionalArgs_map (args : List Grammar.Argument) :
    positionalArgs (args.map (Argument.mapSpans f)) =
      (positionalArgs args).map (Expr.mapSpans f) := by
  unfold positionalArgs
  rw [List.filterMap_map, List.map_filterMap]
  congr 1
  funext arg
  cases arg <;> rfl

/-- Which arguments have a name does not depend on places. -/
theorem Grammar.namedArgs_map (args : List Grammar.Argument) :
    namedArgs (args.map (Argument.mapSpans f)) =
      (namedArgs args).map (Prod.map id (Expr.mapSpans f)) := by
  unfold namedArgs
  rw [List.filterMap_map, List.map_filterMap]
  congr 1
  funext arg
  cases arg <;> rfl

end MapSpans

/-! ### Phrases at other places -/

/-- Every token is taken to a token of the same kind, and its place to the place of that token. -/
structure Relocates (g : Token → Token) (f : Span → Span) : Prop where
  kind : ∀ t, (g t).kind = t.kind
  span : ∀ t, (g t).span = f t.span

namespace Language

section Sequences

variable {α β : Type} {R : List Token → α → Prop} {S : List Token → β → Prop}
  {xs ys : List Token} {as bs : List α}

/-- Items in a row followed by items in a row. -/
theorem Many.append (hxs : Many R xs as) (hys : Many R ys bs) : Many R (xs ++ ys) (as ++ bs) := by
  induction hxs with
  | nil => exact hys
  | cons ha _ ih =>
    rw [List.append_assoc]
    exact .cons ha ih

variable {g : Token → Token} {f : Span → Span} {φ : α → β}

/-- Items in a row stay so, if each of them stays one. -/
theorem Many.map (hR : ∀ {xs a}, R xs a → S (xs.map g) (φ a)) (h : Many R xs as) :
    Many S (xs.map g) (as.map φ) := by
  induction h with
  | nil => exact .nil
  | cons ha _ ih =>
    rw [List.map_append]
    exact .cons (hR ha) ih

variable (hg : Relocates g f)

include hg

/-- Items with commas between them stay so. -/
theorem Separated.map (hR : ∀ {xs a}, R xs a → S (xs.map g) (φ a)) (h : Separated R xs as) :
    Separated S (xs.map g) (as.map φ) := by
  induction h with
  | one ha => exact .one (hR ha)
  | more _ hcomma ha ih =>
    rw [List.map_append, List.map_append]
    exact .more ih ((hg.kind _).trans hcomma) (hR ha)

/-- Items with commas between them and perhaps one behind them stay so. -/
theorem Items.map (hR : ∀ {xs a}, R xs a → S (xs.map g) (φ a)) (h : Items R xs as) :
    Items S (xs.map g) (as.map φ) := by
  cases h with
  | none => exact .none
  | separated hxs => exact .separated (hxs.map hg hR)
  | trailing hxs hcomma =>
    rw [List.map_append]
    exact .trailing (hxs.map hg hR) ((hg.kind _).trans hcomma)

end Sequences

/-- What stands one level further in stands there at other places, too. -/
structure Stable (g : Token → Token) (f : Span → Span) (L : Language) : Prop where
  expr : ∀ {xs e}, L.expr xs e → L.expr (xs.map g) (e.mapSpans f)
  operand : ∀ {xs e}, L.operand xs e → L.operand (xs.map g) (e.mapSpans f)
  block : ∀ {control xs body}, L.block control xs body →
    L.block control (xs.map g) (body.map (Stmt.mapSpans f))

section Relocates

variable {g : Token → Token} {f : Span → Span} (hg : Relocates g f) {xs : List Token}

include hg

/-! #### Side conditions -/

/-- A name is one at any place. -/
theorem name_map_iff {name : String} : Name (xs.map g) name ↔ Name xs name := by
  constructor
  · intro h
    generalize hys : xs.map g = ys at h
    obtain ⟨hkind⟩ := h
    obtain ⟨t, rfl, rfl⟩ := List.map_eq_singleton_iff.1 hys
    exact .ident ((hg.kind t).symm.trans hkind)
  · rintro ⟨hkind⟩
    exact .ident ((hg.kind _).trans hkind)

/-- Whether there is a name and `=` does not depend on places. -/
theorem beginsNamed_of_map (h : BeginsNamed (xs.map g)) : BeginsNamed xs := by
  generalize hys : xs.map g = ys at h
  obtain ⟨ht, hu⟩ := h
  obtain ⟨t, us, rfl, rfl, hus⟩ := List.map_eq_cons_iff.1 hys
  obtain ⟨u, us, rfl, rfl, -⟩ := List.map_eq_cons_iff.1 hus
  exact .key ((hg.kind t).symm.trans ht) ((hg.kind u).symm.trans hu)

/-- Whether there is an arrow and a name does not depend on places. -/
theorem endsInMethod_of_map (h : EndsInMethod (xs.map g)) : EndsInMethod xs := by
  generalize hys : xs.map g = ys at h
  obtain ⟨ht, hu⟩ := h
  obtain ⟨front, last, rfl, -, hlast⟩ := List.map_eq_append_iff.1 hys
  obtain ⟨t, us, rfl, rfl, hus⟩ := List.map_eq_cons_iff.1 hlast
  obtain ⟨u, rfl, rfl⟩ := List.map_eq_singleton_iff.1 hus
  exact .name ((hg.kind t).symm.trans ht) ((hg.kind u).symm.trans hu)

omit hg in
/-- What can be assigned to does not depend on places. -/
theorem Target.map {e : Expr} (h : Target e) : Target (e.mapSpans f) := by
  cases h with
  | ident name span => exact .ident name (f span)
  | property object name span => exact .property (object.mapSpans f) name (f span)

omit hg in
/-- An operator builds the same tree whatever the places are. -/
theorem Operator.build_map {level : Level} {kind : Token.Kind} {build : Expr → Expr → Span → Expr}
    (h : Operator level kind build) (left right : Expr) (span : Span) :
    (build left right span).mapSpans f = build (left.mapSpans f) (right.mapSpans f) (f span) := by
  cases h <;> rfl

/-! #### Expressions -/

variable {L : Language} (hL : L.Stable g f) {e : Expr}

include hL

/-- Primary expressions at other places. -/
theorem Primary.map (h : Primary L xs e) : Primary L (xs.map g) (e.mapSpans f) := by
  cases h with
  | literal ht =>
    rw [Expr.mapSpans, ← hg.span]
    exact .literal ((hg.kind _).trans ht)
  | ident ht =>
    rw [Expr.mapSpans, ← hg.span]
    exact .ident ((hg.kind _).trans ht)
  | group hl he hr =>
    rw [List.map_cons, List.map_append]
    exact .group ((hg.kind _).trans hl) (hL.expr he) ((hg.kind _).trans hr)
  | list hl hes hr =>
    rw [Expr.mapSpans, Expr.mapSpansAll_eq_map, ← hg.span, List.map_cons, List.map_append]
    exact .list ((hg.kind _).trans hl) (hes.map hg hL.expr) ((hg.kind _).trans hr)

/-- Arguments at other places. -/
theorem Argument.map {arg : Grammar.Argument} (h : Argument L xs arg) :
    Argument L (xs.map g) (arg.mapSpans f) := by
  cases h with
  | named ht hu he => exact .named ((hg.kind _).trans ht) ((hg.kind _).trans hu) (hL.expr he)
  | positional he hnamed => exact .positional (hL.expr he) (mt (beginsNamed_of_map hg) hnamed)

/-- Expressions with suffixes at other places. -/
theorem Suffixed.map (h : Suffixed L xs e) : Suffixed L (xs.map g) (e.mapSpans f) := by
  induction h with
  | primary h => exact .primary (h.map hg hL)
  | property _ hdot ht ih =>
    rw [Expr.mapSpans, ← hg.span, List.map_append]
    exact .property ih ((hg.kind _).trans hdot) ((hg.kind _).trans ht)
  | method _ harrow ht ih =>
    rw [Expr.mapSpans, ← hg.span, List.map_append]
    exact .method ih ((hg.kind _).trans harrow) ((hg.kind _).trans ht)
  | methodArgs _ harrow ht hl hargs hr ih =>
    rw [Expr.mapSpans, Expr.mapSpansAll_eq_map, Expr.mapSpansNamed_eq_map, ← hg.span,
      ← Grammar.positionalArgs_map, ← Grammar.namedArgs_map]
    simp only [List.map_append, List.map_cons, List.map_nil]
    exact .methodArgs ih ((hg.kind _).trans harrow) ((hg.kind _).trans ht) ((hg.kind _).trans hl)
      (hargs.map hg fun h ↦ h.map hg hL) ((hg.kind _).trans hr)
  | call _ hmethod hl hargs hr ih =>
    rw [Expr.mapSpans, Expr.mapSpansAll_eq_map, ← Expr.span_mapSpans f]
    simp only [List.map_append, List.map_cons, List.map_nil]
    exact .call ih (mt (endsInMethod_of_map hg) hmethod) ((hg.kind _).trans hl)
      (hargs.map hg hL.expr) ((hg.kind _).trans hr)

theorem Unary.map (h : Unary L xs e) : Unary L (xs.map g) (e.mapSpans f) := by
  cases h with
  | operator hop he =>
    rw [Expr.mapSpans, ← hg.span]
    exact .operator ((hg.kind _).symm ▸ hop) (hL.operand he)
  | suffixed h => exact .suffixed (h.map hg hL)

omit hL in
/-- The place of an operation is that of its operator, at either place. -/
theorem LeftAssoc.map {level : Level} {R : List Token → Expr → Prop}
    (hR : ∀ {xs e}, R xs e → R (xs.map g) (e.mapSpans f)) {xs : List Token} {e : Expr}
    (h : LeftAssoc level R xs e) : LeftAssoc level R (xs.map g) (e.mapSpans f) := by
  induction h with
  | operand he => exact .operand (hR he)
  | operator _ hop he ih =>
    rw [hop.build_map, ← hg.span, List.map_append]
    exact .operator ih ((hg.kind _).symm ▸ hop) (hR he)

theorem Disjunction.map (h : Disjunction L xs e) : Disjunction L (xs.map g) (e.mapSpans f) :=
  LeftAssoc.map hg (LeftAssoc.map hg (LeftAssoc.map hg (LeftAssoc.map hg (LeftAssoc.map hg
    (LeftAssoc.map hg (Unary.map hg hL)))))) h

/-- Assignments at other places. -/
theorem Assignment.map (h : Assignment L xs e) : Assignment L (xs.map g) (e.mapSpans f) := by
  cases h with
  | plain h => exact .plain (h.map hg hL)
  | assign htarget hassignable ht hvalue =>
    rw [Expr.mapSpans, ← hg.span, List.map_append]
    exact .assign (htarget.map hg hL) hassignable.map ((hg.kind _).trans ht) (hL.expr hvalue)

/-! #### Statements -/

variable {s : Stmt} {control : Bool}

/-- Conditions at other places, with all their branches. -/
theorem Condition.map (h : Condition L xs s) : Condition L (xs.map g) (s.mapSpans f) := by
  induction h with
  | single hw he hbody =>
    simp only [Stmt.mapSpans, Stmt.mapSpansAll_eq_map, ← hg.span, List.map_cons, List.map_append]
    exact .single ((hg.kind _).trans hw) (hL.expr he) (hL.block hbody)
  | otherwise hw he hbody ho hlast =>
    simp only [Stmt.mapSpans, Stmt.mapSpansAll_eq_map, ← hg.span, List.map_cons, List.map_append]
    exact .otherwise ((hg.kind _).trans hw) (hL.expr he) (hL.block hbody) ((hg.kind _).trans ho)
      (hL.block hlast)
  | further hw he hbody ho _ ih =>
    simp only [Stmt.mapSpans, Stmt.mapSpansAll_eq_map, ← hg.span, List.map_cons, List.map_append,
      List.map_nil]
    exact .further ((hg.kind _).trans hw) (hL.expr he) (hL.block hbody) ((hg.kind _).trans ho) ih

/-- Statements at other places, by their form. -/
theorem Statement.map (h : Statement L control xs s) :
    Statement L control (xs.map g) (s.mapSpans f) := by
  cases h with
  | var hw ht hs =>
    rw [Stmt.mapSpans, ← hg.span]
    exact .var ((hg.kind _).trans hw) ((hg.kind _).trans ht) ((hg.kind _).trans hs)
  | varInit hw ht hequal he hs =>
    simp only [Stmt.mapSpans, ← hg.span, List.map_cons, List.map_append, List.map_nil]
    exact .varInit ((hg.kind _).trans hw) ((hg.kind _).trans ht) ((hg.kind _).trans hequal)
      (hL.expr he) ((hg.kind _).trans hs)
  | print hw he hs =>
    simp only [Stmt.mapSpans, ← hg.span, List.map_cons, List.map_append, List.map_nil]
    exact .print ((hg.kind _).trans hw) (hL.expr he) ((hg.kind _).trans hs)
  | cond h => exact .cond (h.map hg hL)
  | loop hw hcount hbody =>
    simp only [Stmt.mapSpans, Stmt.mapSpansAll_eq_map, ← hg.span, List.map_cons, List.map_append]
    exact .loop ((hg.kind _).trans hw) (hL.expr hcount) (hL.block hbody)
  | define hw ht hl hparams hr hbody =>
    have hnames := hparams.map (φ := id) hg fun h ↦ (name_map_iff hg).2 h
    rw [List.map_id] at hnames
    simp only [Stmt.mapSpans, Stmt.mapSpansAll_eq_map, ← hg.span, List.map_cons, List.map_append]
    exact .define ((hg.kind _).trans hw) ((hg.kind _).trans ht) ((hg.kind _).trans hl) hnames
      ((hg.kind _).trans hr) (hL.block hbody)
  | throwBall hw hl hzone hc htarget hr hs =>
    simp only [Stmt.mapSpans, ← hg.span, List.map_cons, List.map_append, List.map_nil]
    exact .throwBall ((hg.kind _).trans hw) ((hg.kind _).trans hl) (hL.expr hzone)
      ((hg.kind _).trans hc) (hL.expr htarget) ((hg.kind _).trans hr) ((hg.kind _).trans hs)
  | run hcontrol hw hs =>
    rw [Stmt.mapSpans, ← hg.span]
    exact .run hcontrol ((hg.kind _).trans hw) ((hg.kind _).trans hs)
  | block hbody =>
    rw [Stmt.mapSpans, Stmt.mapSpansAll_eq_map, ← hg.span]
    exact .block (hL.block hbody)
  | expr he hname hs =>
    rw [Stmt.mapSpans, List.map_append]
    exact .expr (hL.expr he) (fun name h ↦ hname name ((name_map_iff hg).1 h))
      ((hg.kind _).trans hs)

/-- Blocks at other places. -/
theorem Braces.map {body : List Stmt} (h : Braces L control xs body) :
    Braces L control (xs.map g) (body.map (Stmt.mapSpans f)) := by
  obtain ⟨hl, hbody, hr⟩ := h
  rw [List.map_cons, List.map_append]
  exact .braces ((hg.kind _).trans hl) (hbody.map fun h ↦ h.map hg hL) ((hg.kind _).trans hr)

/-! #### Levels -/

/-- If what stands further in does not depend on places, then neither does this level. -/
theorem Stable.deeper : L.deeper.Stable g f :=
  ⟨Assignment.map hg hL, Unary.map hg hL, Braces.map hg hL⟩

omit hL in
/-- No level depends on places, by induction on the levels. -/
theorem stable_within (n : Nat) : (within n).Stable g f := by
  induction n with
  | zero => exact ⟨False.elim, False.elim, False.elim⟩
  | succ n ih => exact Stable.deeper hg ih

end Relocates

end Language

/-! ### Joined programs -/

/-- **The places have no part in what a program is.** They are only handed on. -/
theorem Program.Derives.map {g : Token → Token} {f : Span → Span} (hg : Relocates g f)
    {ts : List Token} {program : Program} (h : Program.Derives ts program) :
    Program.Derives (ts.map g) (program.map (Stmt.mapSpans f)) :=
  Language.Many.map (Language.Statement.map hg (Language.stable_within hg maxNesting)) h

/-- The tokens before the first mark of the end decide. -/
theorem Program.ofTokens_eq_ok_iff {ts : List Token} {program : Program} :
    Program.ofTokens ts = .ok program ↔
      Program.Derives (ts.takeWhile fun t ↦ !t.kind.isEnd) program := by
  constructor
  · intro h
    rw [Program.ofTokens] at h
    cases hrun : Grammar.program.run (endOfTokens ts) (ts.takeWhile fun t ↦ !t.kind.isEnd) with
    | error e =>
      rw [hrun] at h
      cases h
    | ok result =>
      rw [hrun] at h
      cases h
      exact (Grammar.run_program_iff.1 hrun).2
  · intro h
    rw [Program.ofTokens, Grammar.run_program_iff.2 ⟨rfl, h⟩]
    rfl

/-- Moving a token keeps its kind, and moves its place. -/
theorem relocates_moved (lines bytes : Nat) :
    Relocates (Token.moved lines bytes) (Span.moved lines bytes) :=
  ⟨fun _ ↦ rfl, fun _ ↦ rfl⟩

/-- The tokens of a source are some tokens and the mark of the end. -/
theorem ended_of_scan {source : String} {ts : List Token} (h : Token.scan source = .ok ts) :
    ∃ init last, ts = init ++ [last] ∧ (∀ t ∈ init, t.kind ≠ .endOfInput) ∧
      last.kind = .endOfInput := by
  obtain ⟨_, rfl, htiles⟩ := tiles_scanFrom [] .start source.toList [] ts rfl h
  obtain ⟨init, last, hts, hinit, hlast, -, -⟩ := htiles.ended
  exact ⟨init, last, hts, fun t ht ↦ (hinit t ht).1, hlast⟩

/-- **Joined sources are joined programs.** If two sources are each read as a program, then both
with a line feed between them are read as the statements of the first and behind them those of the
second. Only the places in the latter are others: a line further on for each line feed before them,
and a byte for each byte. -/
theorem ofTokens_joined {s₁ s₂ : String} {ts₁ ts₂ : List Token} {p₁ p₂ : Program}
    (hs₁ : Token.scan s₁ = .ok ts₁) (hp₁ : Program.ofTokens ts₁ = .ok p₁)
    (hs₂ : Token.scan s₂ = .ok ts₂) (hp₂ : Program.ofTokens ts₂ = .ok p₂) :
    ∃ ts, Token.scan (s₁ ++ "\n" ++ s₂) = .ok ts ∧ Program.ofTokens ts =
      .ok (p₁ ++ p₂.map (Stmt.mapSpans
        (Span.moved (s₁.toList.count '\n' + 1) (s₁.utf8ByteSize + 1)))) := by
  have hmoved := relocates_moved (s₁.toList.count '\n' + 1) (s₁.utf8ByteSize + 1)
  refine ⟨_, scan_append_newline hs₁ hs₂, ?_⟩
  obtain ⟨init₁, last₁, rfl, hinit₁, hlast₁⟩ := ended_of_scan hs₁
  obtain ⟨init₂, last₂, rfl, hinit₂, hlast₂⟩ := ended_of_scan hs₂
  rw [Program.ofTokens_eq_ok_iff, takeWhile_not_isEnd hinit₁ hlast₁] at hp₁
  rw [Program.ofTokens_eq_ok_iff, takeWhile_not_isEnd hinit₂ hlast₂] at hp₂
  have hinit : ∀ lines bytes, ∀ t ∈ init₁ ++ init₂.map (Token.moved lines bytes),
      t.kind ≠ .endOfInput := by
    intro lines bytes t ht
    obtain ht | ht := List.mem_append.1 ht
    · exact hinit₁ t ht
    · obtain ⟨u, hu, rfl⟩ := List.mem_map.1 ht
      exact hinit₂ u hu
  rw [List.dropLast_concat, List.map_append, ← List.append_assoc, Program.ofTokens_eq_ok_iff,
    List.map_singleton, takeWhile_not_isEnd (hinit _ _) ((hmoved.kind last₂).trans hlast₂)]
  exact hp₁.append (hp₂.map hmoved)

/-- A name is an expression. -/
theorem Language.expr_ident (n : Nat) {t : Token} {name : String} (ht : t.kind = .ident name) :
    (within (n + 1)).expr [t] (.ident name t.span) :=
  .plain (.operand (.operand (.operand (.operand (.operand (.operand
    (.suffixed (.primary (.ident ht)))))))))

/-- A condition that ends in a comment. -/
def conditionWithComment : String := r"if a {
} //é"

/-- A comment at the end of the first source ends with its line, and the second source stands on
the third line. -/
theorem ofTokens_joined_comment :
    let word : Token := ⟨.keyword .ifWord, "if", ⟨1, 1, 0⟩⟩
    let a : Token := ⟨.ident "a", "a", ⟨1, 4, 3⟩⟩
    let left : Token := ⟨.symbol .leftBrace, r"{", ⟨1, 6, 5⟩⟩
    let right : Token := ⟨.symbol .rightBrace, r"}", ⟨2, 1, 7⟩⟩
    let ts₁ : List Token := [word, a, left, right, ⟨.endOfInput, "", ⟨2, 7, 13⟩⟩]
    let print : Token := ⟨.keyword .print, "print", ⟨1, 1, 0⟩⟩
    let b : Token := ⟨.ident "b", "b", ⟨1, 7, 6⟩⟩
    let semicolon : Token := ⟨.symbol .semicolon, ";", ⟨1, 8, 7⟩⟩
    let ts₂ : List Token := [print, b, semicolon, ⟨.endOfInput, "", ⟨1, 9, 8⟩⟩]
    let first : Stmt := .cond (.ident "a" a.span) [] none word.span
    (Token.scan conditionWithComment = .ok ts₁ ∧ Program.ofTokens ts₁ = .ok [first]) ∧
    (Token.scan "print b;" = .ok ts₂ ∧
      Program.ofTokens ts₂ = .ok [.print (.ident "b" b.span) print.span]) ∧
    ∃ ts, Token.scan (conditionWithComment ++ "\n" ++ "print b;") = .ok ts ∧
      Program.ofTokens ts =
        .ok [first, .print (.ident "b" ⟨⟨3, 7, 20⟩, 1⟩) ⟨⟨3, 1, 14⟩, 5⟩] := by
  intro word a left right ts₁ print b semicolon ts₂ first
  have hs₁ : Token.scan conditionWithComment = .ok ts₁ := by with_unfolding_all rfl
  have hs₂ : Token.scan "print b;" = .ok ts₂ := by with_unfolding_all rfl
  have hbody : (Language.within maxNesting).block true [left, right] [] :=
    Language.Braces.braces (rfl : left.kind = _) .nil (rfl : right.kind = _)
  have hfirst :
      Language.Statement (Language.within maxNesting) false [word, a, left, right] first :=
    .cond (.single (rfl : word.kind = _) (Language.expr_ident _ (rfl : a.kind = _)) hbody)
  have hsecond : Language.Statement (Language.within maxNesting) false [print, b, semicolon]
      (.print (.ident "b" b.span) print.span) :=
    .print (rfl : print.kind = _) (Language.expr_ident _ (rfl : b.kind = _))
      (rfl : semicolon.kind = _)
  have hp₁ : Program.ofTokens ts₁ = .ok [first] :=
    Program.ofTokens_eq_ok_iff.2 (Language.Many.cons hfirst .nil)
  have hp₂ : Program.ofTokens ts₂ = .ok [.print (.ident "b" b.span) print.span] :=
    Program.ofTokens_eq_ok_iff.2 (Language.Many.cons hsecond .nil)
  exact ⟨⟨hs₁, hp₁⟩, ⟨hs₂, hp₂⟩, ofTokens_joined hs₁ hp₁ hs₂ hp₂⟩

end SafariScript
