import SafariScript.Proofs.Grammar.Joined
import SafariScript.Proofs.Grammar.Narrowing

/-!
# How deep statements lie

The statements of a program stand in lists: the program itself, the bodies of conditions,
repetitions and functions, and blocks. Every body is a block of the source and uses a level of
nesting, **with one exception**: an `else if` puts the rest of the chain into a list of its own,
without a block and without a level. So a statement of a program lies inside at most `maxNesting`
lists when those of an `else if` are not counted (`Language.lists_le`), and tokens that would need
more are refused for their nesting. Counted, there is no bound: every further arm of a chain lies
one list deeper, and chains of any length are programs (`Nesting.ofTokens_chain`).
-/

namespace SafariScript

/-! ### Lists around a statement -/

/-- Whether the statement is a condition. -/
def Stmt.isCond : Stmt → Bool
  | .cond .. => true
  | _ => false

/-- The statement lies in the list, or inside further lists within it: so many `lists`, of which
so many `links` hold nothing but a condition behind `else`, as an `else if` does. -/
inductive Stmt.Lies (s : Stmt) : List Stmt → (lists links : Nat) → Prop
  | here {ss : List Stmt} : s ∈ ss → Lies s ss 0 0
  | body {ss body : List Stmt} {e : Expr} {otherwise : Option (List Stmt)} {span : Span}
      {lists links : Nat} :
      .cond e body otherwise span ∈ ss → Lies s body lists links → Lies s ss (lists + 1) links
  | otherwise {ss body last : List Stmt} {e : Expr} {span : Span} {lists links : Nat} :
      .cond e body (some last) span ∈ ss → (∀ next, next.isCond = true → last ≠ [next]) →
      Lies s last lists links → Lies s ss (lists + 1) links
  | elseIf {ss body : List Stmt} {e : Expr} {next : Stmt} {span : Span} {lists links : Nat} :
      .cond e body (some [next]) span ∈ ss → next.isCond = true → Lies s [next] lists links →
      Lies s ss (lists + 1) (links + 1)
  | loop {ss body : List Stmt} {count : Expr} {span : Span} {lists links : Nat} :
      .loop count body span ∈ ss → Lies s body lists links → Lies s ss (lists + 1) links
  | define {ss body : List Stmt} {name : String} {params : List String} {span : Span}
      {lists links : Nat} :
      .define name params body span ∈ ss → Lies s body lists links → Lies s ss (lists + 1) links
  | block {ss body : List Stmt} {span : Span} {lists links : Nat} :
      .block body span ∈ ss → Lies s body lists links → Lies s ss (lists + 1) links

/-! ### Levels of the grammar -/

namespace Language

variable {n : Nat} {control : Bool} {xs : List Token}

/-- A statement among phrases is one of them. -/
theorem Many.exists_of_mem {α : Type} {R : List Token → α → Prop} {as : List α} {a : α}
    (h : Many R xs as) (ha : a ∈ as) : ∃ ys, R ys a := by
  induction h with
  | nil => cases ha
  | cons hb _ ih =>
    obtain rfl | ha := List.mem_cons.1 ha
    · exact ⟨_, hb⟩
    · exact ih ha

/-- A block uses a level. -/
theorem many_of_block {body : List Stmt} (h : (within n).block control xs body) :
    ∃ m ys, n = m + 1 ∧ Many (Statement (within m) control) ys body := by
  cases n with
  | zero => exact h.elim
  | succ m =>
    obtain ⟨-, hbody, -⟩ := h
    exact ⟨m, _, rfl, hbody⟩

/-- What is written as a condition is one in the tree. -/
theorem isCond_of_condition {L : Language} {s : Stmt} (h : Condition L xs s) :
    s.isCond = true := by
  cases h <;> rfl

/-- A block is one list more, and inside it there is a level less. -/
theorem lists_le_of_block {body : List Stmt} {lists links : Nat}
    (h : (within n).block control xs body)
    (hbody : ∀ {m control zs}, Many (Statement (within m) control) zs body → lists ≤ m + links) :
    lists + 1 ≤ n + links := by
  obtain ⟨m, zs, rfl, hmany⟩ := many_of_block h
  have hlists := hbody hmany
  omega

/-- **Lists and levels.** A statement among statements that have room for `n` levels lies inside at
most `n` lists and those of an `else if`. -/
theorem lists_le {s : Stmt} {ss : List Stmt} {lists links : Nat} (h : s.Lies ss lists links)
    (hss : Many (Statement (within n) control) xs ss) : lists ≤ n + links := by
  -- The room is generalised: it is the same behind `else if`, and one less in every other list.
  induction h generalizing n control xs with
  | here => exact Nat.zero_le _
  | body hmem _ ih =>
    obtain ⟨ys, hcond⟩ := hss.exists_of_mem hmem
    cases hcond with
    | cond hcond =>
      cases hcond with
      | single _ _ hbody => exact lists_le_of_block hbody ih
      | otherwise _ _ hbody => exact lists_le_of_block hbody ih
      | further _ _ hbody => exact lists_le_of_block hbody ih
  | otherwise hmem hlast _ ih =>
    obtain ⟨ys, hcond⟩ := hss.exists_of_mem hmem
    cases hcond with
    | cond hcond =>
      cases hcond with
      | otherwise _ _ _ _ hbody => exact lists_le_of_block hbody ih
      | further _ _ _ _ hnext => exact absurd rfl (hlast _ (isCond_of_condition hnext))
  | elseIf hmem hnext _ ih =>
    obtain ⟨ys, hcond⟩ := hss.exists_of_mem hmem
    cases hcond with
    | cond hcond =>
      cases hcond with
      | otherwise _ _ _ _ hbody => exact Nat.le_succ_of_le (lists_le_of_block hbody ih)
      | further _ _ _ _ hnext =>
        have hsingle : Many (Statement (within _) false) _ [_] := .cons (.cond hnext) .nil
        exact Nat.succ_le_succ (ih hsingle)
  | loop hmem _ ih =>
    obtain ⟨ys, hloop⟩ := hss.exists_of_mem hmem
    cases hloop with
    | loop _ _ hbody => exact lists_le_of_block hbody ih
    | cond hcond => cases hcond
  | define hmem _ ih =>
    obtain ⟨ys, hdefine⟩ := hss.exists_of_mem hmem
    cases hdefine with
    | define _ _ _ _ _ hbody => exact lists_le_of_block hbody ih
    | cond hcond => cases hcond
  | block hmem _ ih =>
    obtain ⟨ys, hblock⟩ := hss.exists_of_mem hmem
    cases hblock with
    | block hbody => exact lists_le_of_block hbody ih
    | cond hcond => cases hcond

end Language

/-! ### Blocks and chains of any depth -/

namespace Nesting

/-- A token of the given kind. -/
def token (kind : Token.Kind) (text : String) : Token := ⟨kind, text, .start⟩

/-- `var x;` in so many blocks. -/
def blockTokens : Nat → List Token
  | 0 => [token (.keyword .var) "var", token (.ident "x") "x", token (.symbol .semicolon) ";"]
  | n + 1 => token (.symbol .leftBrace) r"{" ::
      (blockTokens n ++ [token (.symbol .rightBrace) r"}"])

/-- The statement that `blockTokens` form. -/
def blocks : Nat → Stmt
  | 0 => .var "x" none (token (.keyword .var) "var").span
  | n + 1 => .block [blocks n] (token (.symbol .leftBrace) r"{").span

/-- `if true { }`. -/
def arm : List Token :=
  [token (.keyword .ifWord) "if", token (.literal (.bool true)) "true",
    token (.symbol .leftBrace) r"{", token (.symbol .rightBrace) r"}"]

/-- `if true { }` with so many `else if true { }` behind it. -/
def chainTokens : Nat → List Token
  | 0 => arm
  | n + 1 => arm ++ token (.keyword .elseWord) "else" :: chainTokens n

/-- The statement that `chainTokens` form. -/
def chain : Nat → Stmt
  | 0 => .cond (.literal (.bool true) (token (.literal (.bool true)) "true").span) [] none
      (token (.keyword .ifWord) "if").span
  | n + 1 => .cond (.literal (.bool true) (token (.literal (.bool true)) "true").span) []
      (some [chain n]) (token (.keyword .ifWord) "if").span

open SafariScript.Language

/-- So many blocks inside each other need so many levels. -/
theorem statement_blocks (n : Nat) (control : Bool) :
    Statement (within n) control (blockTokens n) (blocks n) := by
  induction n with
  | zero => exact .var rfl rfl rfl
  | succ n ih =>
    have hbody : Many (Statement (within n) control) (blockTokens n) [blocks n] := by
      simpa using Many.cons ih .nil
    exact .block (Braces.braces rfl hbody rfl)

/-- The innermost statement lies inside as many blocks. -/
theorem lies_blocks (n : Nat) : (blocks 0).Lies [blocks n] n 0 := by
  induction n with
  | zero => exact .here List.mem_cons_self
  | succ n ih => exact .block List.mem_cons_self ih

/-- A chain of any length needs one level. -/
theorem condition_chain (n room : Nat) :
    Condition (within (room + 1)) (chainTokens n) (chain n) := by
  have hexpr : (within (room + 1)).expr [token (.literal (.bool true)) "true"]
      (.literal (.bool true) (token (.literal (.bool true)) "true").span) :=
    .plain (.operand (.operand (.operand (.operand (.operand (.operand
      (.suffixed (.primary (.literal rfl)))))))))
  have hblock : (within (room + 1)).block true
      [token (.symbol .leftBrace) r"{", token (.symbol .rightBrace) r"}"] [] :=
    Braces.braces rfl .nil rfl
  induction n with
  | zero => exact .single rfl hexpr hblock
  | succ n ih => exact .further rfl hexpr hblock rfl ih

/-- The last condition of a chain lies as deep in the tree as the chain is long. -/
theorem lies_chain (n : Nat) : (chain 0).Lies [chain n] n n := by
  induction n with
  | zero => exact .here List.mem_cons_self
  | succ n ih =>
    have hcond : (chain n).isCond = true := by cases n <;> rfl
    exact .elseIf List.mem_cons_self hcond ih

/-- The mark of the end. -/
def last : Token := token .endOfInput ""

theorem takeWhile_blocks (n : Nat) :
    (blockTokens n ++ [last]).takeWhile (fun t ↦ !t.kind.isEnd) = blockTokens n := by
  refine takeWhile_not_isEnd ?_ rfl
  induction n with
  | zero => simp [blockTokens, token]
  | succ n ih => simpa [blockTokens, token, or_imp, forall_and] using ih

theorem takeWhile_chain (n : Nat) :
    (chainTokens n ++ [last]).takeWhile (fun t ↦ !t.kind.isEnd) = chainTokens n := by
  refine takeWhile_not_isEnd ?_ rfl
  induction n with
  | zero => simp [chainTokens, arm, token]
  | succ n ih => simpa [chainTokens, arm, token, or_imp, forall_and] using ih

/-- An `else if` chain of any length is a program. -/
theorem ofTokens_chain (n : Nat) : Program.ofTokens (chainTokens n ++ [last]) = .ok [chain n] := by
  rw [Program.ofTokens_eq_ok_iff, takeWhile_chain]
  have hstatement : Statement (within maxNesting) false (chainTokens n) (chain n) :=
    .cond (condition_chain n _)
  simpa [Program.Derives] using Many.cons hstatement .nil

end Nesting

/-! ### Programs -/

open Nesting

/-- **How deep statements lie.** In a program that tokens form, every statement lies inside at most
`maxNesting` lists and those of an `else if`. Tokens that form a program at whatever depth, but one
with a statement deeper than that, are found nested too deep. -/
theorem nesting_of_ofTokens (ts : List Token) :
    (∀ program, Program.ofTokens ts = .ok program → ∀ (s : Stmt) (lists links : Nat),
      s.Lies program lists links → lists ≤ maxNesting + links) ∧
    ∀ n program, Language.Many (Language.Statement (Language.within n) false)
        (ts.takeWhile fun t ↦ !t.kind.isEnd) program →
      ∀ (s : Stmt) (lists links : Nat), s.Lies program lists links → maxNesting + links < lists →
        ∃ t, Program.ofTokens ts = .error ⟨.nestingTooDeep, t⟩ := by
  have hbound : ∀ program, Program.ofTokens ts = .ok program → ∀ (s : Stmt) (lists links : Nat),
      s.Lies program lists links → lists ≤ maxNesting + links :=
    fun program h s lists links hlies ↦
      Language.lists_le hlies (Program.ofTokens_eq_ok_iff.1 h)
  refine ⟨hbound, fun n program hmany s lists links hlies hdeep ↦ ?_⟩
  obtain hok | hrefused := ofTokens_of_many hmany
  · exact absurd (hbound program hok s lists links hlies) (Nat.not_le_of_lt hdeep)
  · exact hrefused

/-- The bound is reached: a statement in `maxNesting` blocks is read, one in a block more is not. -/
theorem nesting_of_ofTokens_blocks :
    (Program.ofTokens (blockTokens maxNesting ++ [last]) = .ok [blocks maxNesting] ∧
      (blocks 0).Lies [blocks maxNesting] maxNesting 0 ∧ maxNesting ≤ maxNesting + 0) ∧
    ((blocks 0).Lies [blocks (maxNesting + 1)] (maxNesting + 1) 0 ∧
      ∃ t, Program.ofTokens (blockTokens (maxNesting + 1) ++ [last]) =
        .error ⟨.nestingTooDeep, t⟩) := by
  have hmany : ∀ n, Language.Many (Language.Statement (Language.within n) false)
      ((blockTokens n ++ [last]).takeWhile fun t ↦ !t.kind.isEnd) [blocks n] := by
    intro n
    rw [takeWhile_blocks]
    simpa using Language.Many.cons (statement_blocks n false) .nil
  have hok : Program.ofTokens (blockTokens maxNesting ++ [last]) = .ok [blocks maxNesting] :=
    Program.ofTokens_eq_ok_iff.2 (hmany maxNesting)
  refine ⟨⟨hok, lies_blocks _, ?_⟩, lies_blocks _, ?_⟩
  · exact (nesting_of_ofTokens _).1 _ hok _ _ _ (lies_blocks maxNesting)
  · exact (nesting_of_ofTokens _).2 _ _ (hmany (maxNesting + 1)) _ _ _ (lies_blocks _)
      (Nat.lt_succ_self maxNesting)

/-- The lists of an `else if` have to be taken off: a chain is a program with a statement inside
more than `maxNesting` lists. -/
theorem ofTokens_chain_deep :
    Program.ofTokens (chainTokens 257 ++ [last]) = .ok [chain 257] ∧
      (chain 0).Lies [chain 257] 257 257 ∧ maxNesting < 257 :=
  ⟨ofTokens_chain 257, lies_chain 257, by decide⟩

end SafariScript
