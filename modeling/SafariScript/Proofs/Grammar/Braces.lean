import SafariScript.Proofs.Scanning.Complete
import SafariScript.Proofs.Session.Chunks

/-!
# Programs close their braces

An interactive session keeps asking for lines until no brace is open, and it counts braces without
parsing anything. A program must not be kept waiting by that. So here the grammar is held against
the count: only blocks have braces, a block has one at either end, and **every phrase closes what
it opens** (`Program.Derives.balanced`). The induction is on the levels of nesting, and on each
level it goes by the rules of the grammar.

With the agreement between the reader of chunks and the scanner (`completeFrom_scanFrom`) this says
of texts: what is read as a program is complete (`isComplete_of_ofTokens`).
-/

namespace SafariScript

/-! ### Tokens that close what they open -/

/-- The tokens have as many closing as opening braces. -/
def Balanced (xs : List Token) : Prop := openBraces xs = 0

namespace Balanced

variable {t : Token} {xs ys : List Token}

theorem nil : Balanced [] := rfl

/-- Two parts that close what they open do so together. -/
theorem append (hxs : Balanced xs) (hys : Balanced ys) : Balanced (xs ++ ys) := by
  unfold Balanced openBraces at *
  rw [List.countP_append, List.countP_append]
  omega

/-- A token other than a brace changes nothing. -/
theorem cons (ht : t.kind.opens = 0) (hxs : Balanced xs) : Balanced (t :: xs) := by
  unfold Balanced at *
  rw [openBraces_cons, hxs, ht]
  rfl

theorem single (ht : t.kind.opens = 0) : Balanced [t] := .cons ht .nil

/-- Braces around tokens. -/
theorem braces {left right : Token} (hl : left.kind = .symbol .leftBrace) (hxs : Balanced xs)
    (hr : right.kind = .symbol .rightBrace) : Balanced (left :: (xs ++ [right])) := by
  have hright : openBraces [right] = -1 := by
    rw [openBraces_cons, hr]
    rfl
  have hbody : openBraces (xs ++ [right]) = -1 := by
    unfold Balanced openBraces at *
    rw [List.countP_append, List.countP_append]
    omega
  unfold Balanced
  rw [openBraces_cons, hbody, hl]
  rfl

end Balanced

theorem opens_of_kind {t : Token} {k : Token.Kind} (ht : t.kind = k) (hk : k.opens = 0) :
    t.kind.opens = 0 := ht ▸ hk

namespace Language

/-! ### Sequences -/

section Sequences

variable {α : Type} {R : List Token → α → Prop} {xs : List Token} {as : List α}

/-- Items one after the other. -/
theorem Many.balanced (hR : ∀ {xs a}, R xs a → Balanced xs) (h : Many R xs as) : Balanced xs := by
  induction h with
  | nil => exact .nil
  | cons ha _ ih => exact (hR ha).append ih

/-- Items with commas between them. -/
theorem Separated.balanced (hR : ∀ {xs a}, R xs a → Balanced xs) (h : Separated R xs as) :
    Balanced xs := by
  induction h with
  | one ha => exact hR ha
  | more _ hcomma ha ih => exact ih.append (.cons (opens_of_kind hcomma rfl) (hR ha))

/-- Items with commas between them and perhaps one behind them. -/
theorem Items.balanced (hR : ∀ {xs a}, R xs a → Balanced xs) (h : Items R xs as) : Balanced xs := by
  cases h with
  | none => exact .nil
  | separated h => exact h.balanced hR
  | trailing h hcomma => exact (h.balanced hR).append (.single (opens_of_kind hcomma rfl))

end Sequences

/-! ### Phrases -/

/-- What stands one level further in closes what it opens. -/
structure Balances (L : Language) : Prop where
  expr : ∀ {xs e}, L.expr xs e → Balanced xs
  operand : ∀ {xs e}, L.operand xs e → Balanced xs
  block : ∀ {control xs body}, L.block control xs body → Balanced xs

variable {L : Language} (hL : L.Balances) {xs : List Token} {e : Expr}

theorem Name.balanced {name : String} (h : Name xs name) : Balanced xs := by
  obtain ⟨ht⟩ := h
  exact .single (opens_of_kind ht rfl)

/-- A unary operator is no brace. -/
theorem UnaryOperator.opens {kind : Token.Kind} {op : UnaryOp} (h : UnaryOperator kind op) :
    kind.opens = 0 := by
  cases h <;> rfl

/-- A binary operator is no brace. -/
theorem Operator.opens {level : Level} {kind : Token.Kind} {build : Expr → Expr → Span → Expr}
    (h : Operator level kind build) : kind.opens = 0 := by
  cases h <;> rfl

/-- Operands with operators between them. -/
theorem LeftAssoc.balanced {level : Level} {R : List Token → Expr → Prop}
    (hR : ∀ {xs e}, R xs e → Balanced xs) {xs : List Token} {e : Expr}
    (h : LeftAssoc level R xs e) : Balanced xs := by
  induction h with
  | operand he => exact hR he
  | operator _ hop he ih => exact ih.append (.cons hop.opens (hR he))

include hL

/-- Parentheses and brackets are no braces, and what is in them is one level further in. -/
theorem Primary.balanced (h : Primary L xs e) : Balanced xs := by
  cases h with
  | literal ht => exact .single (opens_of_kind ht rfl)
  | ident ht => exact .single (opens_of_kind ht rfl)
  | group hl he hr =>
    exact .cons (opens_of_kind hl rfl) ((hL.expr he).append (.single (opens_of_kind hr rfl)))
  | list hl hes hr =>
    exact .cons (opens_of_kind hl rfl)
      ((hes.balanced hL.expr).append (.single (opens_of_kind hr rfl)))

/-- An argument is a phrase, perhaps with a name before it. -/
theorem Argument.balanced {arg : Grammar.Argument} (h : Argument L xs arg) : Balanced xs := by
  cases h with
  | named ht hu he =>
    exact .cons (opens_of_kind ht rfl) (.cons (opens_of_kind hu rfl) (hL.expr he))
  | positional he _ => exact hL.expr he

/-- Suffixes are names and arguments. -/
theorem Suffixed.balanced (h : Suffixed L xs e) : Balanced xs := by
  induction h with
  | primary h => exact h.balanced hL
  | property _ hdot ht ih =>
    exact ih.append (.cons (opens_of_kind hdot rfl) (.single (opens_of_kind ht rfl)))
  | method _ harrow ht ih =>
    exact ih.append (.cons (opens_of_kind harrow rfl) (.single (opens_of_kind ht rfl)))
  | methodArgs _ harrow ht hl hargs hr ih =>
    have hbehind := (hargs.balanced (Argument.balanced hL)).append (.single (opens_of_kind hr rfl))
    exact ih.append (.cons (opens_of_kind harrow rfl) (.cons (opens_of_kind ht rfl)
      (.cons (opens_of_kind hl rfl) hbehind)))
  | call _ _ hl hargs hr ih =>
    have hbehind := (hargs.balanced hL.expr).append (.single (opens_of_kind hr rfl))
    exact ih.append (.cons (opens_of_kind hl rfl) hbehind)

theorem Unary.balanced (h : Unary L xs e) : Balanced xs := by
  cases h with
  | operator hop he => exact .cons hop.opens (hL.operand he)
  | suffixed h => exact h.balanced hL

theorem Disjunction.balanced (h : Disjunction L xs e) : Balanced xs :=
  LeftAssoc.balanced (LeftAssoc.balanced (LeftAssoc.balanced (LeftAssoc.balanced (LeftAssoc.balanced
    (LeftAssoc.balanced (Unary.balanced hL)))))) h

/-- An assignment is two phrases with a symbol between them. -/
theorem Assignment.balanced (h : Assignment L xs e) : Balanced xs := by
  cases h with
  | plain h => exact h.balanced hL
  | assign htarget _ ht hvalue =>
    exact (htarget.balanced hL).append (.cons (opens_of_kind ht rfl) (hL.expr hvalue))

variable {s : Stmt} {control : Bool}

/-- The branches of a condition are blocks. -/
theorem Condition.balanced (h : Condition L xs s) : Balanced xs := by
  induction h with
  | single hw he hbody =>
    exact .cons (opens_of_kind hw rfl) ((hL.expr he).append (hL.block hbody))
  | otherwise hw he hbody hother hlast =>
    have hrest := (hL.block hbody).append (.cons (opens_of_kind hother rfl) (hL.block hlast))
    exact .cons (opens_of_kind hw rfl) ((hL.expr he).append hrest)
  | further hw he hbody hother _ ih =>
    have hrest := (hL.block hbody).append (.cons (opens_of_kind hother rfl) ih)
    exact .cons (opens_of_kind hw rfl) ((hL.expr he).append hrest)

/-- A statement closes what it opens, by its form. -/
theorem Statement.balanced (h : Statement L control xs s) : Balanced xs := by
  cases h with
  | var hw ht hs =>
    exact .cons (opens_of_kind hw rfl) (.cons (opens_of_kind ht rfl)
      (.single (opens_of_kind hs rfl)))
  | varInit hw ht hequal he hs =>
    have hvalue := (hL.expr he).append (.single (opens_of_kind hs rfl))
    exact .cons (opens_of_kind hw rfl) (.cons (opens_of_kind ht rfl)
      (.cons (opens_of_kind hequal rfl) hvalue))
  | print hw he hs =>
    exact .cons (opens_of_kind hw rfl) ((hL.expr he).append (.single (opens_of_kind hs rfl)))
  | cond h => exact h.balanced hL
  | loop hw hcount hbody =>
    exact .cons (opens_of_kind hw rfl) ((hL.expr hcount).append (hL.block hbody))
  | define hw ht hl hparams hr hbody =>
    have hrest := (hparams.balanced Name.balanced).append
      (.cons (opens_of_kind hr rfl) (hL.block hbody))
    exact .cons (opens_of_kind hw rfl) (.cons (opens_of_kind ht rfl)
      (.cons (opens_of_kind hl rfl) hrest))
  | throwBall hw hl hzone hcomma htarget hr hs =>
    have hend := Balanced.cons (opens_of_kind hr rfl) (.single (opens_of_kind hs rfl))
    have hrest := (hL.expr hzone).append
      (.cons (opens_of_kind hcomma rfl) ((hL.expr htarget).append hend))
    exact .cons (opens_of_kind hw rfl) (.cons (opens_of_kind hl rfl) hrest)
  | run _ hw hs => exact .cons (opens_of_kind hw rfl) (.single (opens_of_kind hs rfl))
  | block hbody => exact hL.block hbody
  | expr he _ hs => exact (hL.expr he).append (.single (opens_of_kind hs rfl))

/-- A block has one brace at either end. -/
theorem Braces.balanced {body : List Stmt} (h : Braces L control xs body) : Balanced xs := by
  obtain ⟨hl, hbody, hr⟩ := h
  exact .braces hl (hbody.balanced (Statement.balanced hL)) hr

/-! ### Levels -/

/-- If what stands further in closes what it opens, so does this level. -/
theorem Balances.deeper : L.deeper.Balances :=
  ⟨Assignment.balanced hL, Unary.balanced hL, Braces.balanced hL⟩

omit hL in
/-- Every level closes what it opens, by induction on the levels. -/
theorem balances_within (n : Nat) : (within n).Balances := by
  induction n with
  | zero => exact ⟨False.elim, False.elim, False.elim⟩
  | succ n ih => exact ih.deeper

end Language

/-- **A program closes what it opens.** -/
theorem Program.Derives.balanced {ts : List Token} {program : Program}
    (h : Program.Derives ts program) : Balanced ts :=
  Language.Many.balanced (Language.Statement.balanced (Language.balances_within maxNesting)) h

/-! ### Texts -/

/-- **No program is kept waiting.** A text that can be scanned and whose tokens form a program is
complete, so an interactive session hands it on. -/
theorem isComplete_of_ofTokens {source : String} {ts : List Token} {program : Program}
    (hscan : Token.scan source = .ok ts) (hparse : Program.ofTokens ts = .ok program) :
    isComplete source = true := by
  have hread : isComplete source = decide (openBraces ts ≤ 0) :=
    (completeFrom_scanFrom [] .start source.toList).1 ts hscan
  obtain ⟨init, last, rfl, hinit, hlast⟩ := ended_of_scan hscan
  rw [Program.ofTokens_eq_ok_iff, takeWhile_not_isEnd hinit hlast] at hparse
  have hbalanced : openBraces (init ++ [last]) = 0 :=
    hparse.balanced.append (.single (opens_of_kind hlast rfl))
  rw [hread, hbalanced]
  rfl

/-- Braces in a string and in both kinds of comment, none of which is closed there, do not keep the
definition of a function waiting. -/
theorem isComplete_of_ofTokens_commented :
    let source := r#"define f() { // {
 if a { print "\"{"; } /* { */ }"#
    ∃ ts program, Token.scan source = .ok ts ∧ Program.ofTokens ts = .ok program ∧
      isComplete source = true := by
  intro source
  have hread : ∃ program, ReadAs source program := by decide +kernel
  obtain ⟨program, ts, hscan, hparse⟩ := hread
  exact ⟨ts, program, hscan, hparse, isComplete_of_ofTokens hscan hparse⟩

end SafariScript
