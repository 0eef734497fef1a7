import SafariScript.Proofs.Evaluation.Conduct
import SafariScript.Proofs.Grammar.Failing
import SafariScript.Proofs.Grammar.Joined
import SafariScript.Proofs.Grammar.Origin

/-!
# Reports point at tokens

Whatever is wrong with a source, the report about it points at something that stands there. A parse
error is at a token (`token_mem_of_ofTokens`); every node of a program has the place of a token
(`Program.Derives.madeOf`); and a runtime error is at the place of a node, because evaluation raises
errors nowhere else (`Conducted.evaluate`). The mark of the end is no such place for a node: no
phrase of the grammar holds it.
-/

namespace SafariScript

/-- A token stands at this place, and it is not the mark of the end. -/
def Standing (ts : List Token) (span : Span) : Prop :=
  ∃ t ∈ ts, t.kind ≠ .endOfInput ∧ t.span = span

/-- Parts of which the place is that of a token. -/
def Part.Standing (ts : List Token) : Part → Prop
  | .place span => SafariScript.Standing ts span
  | .name _ => True
  | .literal _ => True

/-- The nodes of a program are at the places of its tokens. -/
theorem standing_of_ofTokens {ts : List Token} {program : Program}
    (h : Program.ofTokens ts = .ok program) :
    ∀ part ∈ Stmt.partsAll program, part.Standing ts := by
  refine (Program.ofTokens_eq_ok_iff.1 h).madeOf fun t ht part hpart ↦ ?_
  cases part with
  | name | literal => trivial
  | place span =>
    have hkind : t.kind ≠ .endOfInput := by
      intro hkind
      have hinside := List.all_eq_true.1 List.all_takeWhile t ht
      rw [hkind] at hinside
      cases hinside
    have hspan : t.span = span := by
      obtain hhead | hrest := List.mem_cons.1 hpart
      · exact (Part.place.inj hhead).symm
      · split at hrest
        · cases List.mem_singleton.1 hrest
        · cases List.mem_singleton.1 hrest
        · cases hrest
    exact ⟨t, (List.takeWhile_prefix _).subset ht, hkind, hspan⟩

/-- A program of which every node is at the place of a token fails at the place of a token. -/
theorem standing_of_evaluate {ts : List Token} {program : Program}
    (h : ∀ part ∈ Stmt.partsAll program, part.Standing ts) (limits : Limits) (sink : Sink)
    {e : RuntimeError} {m : Machine} (hfail : evaluate limits program (.new sink) = .error e m) :
    Standing ts e.span := by
  have hkeep : Stmt.AllKeep (placeBounds (Standing ts)) (placeBounds (Standing ts)).body program :=
    allKeep_placeBounds fun span hspan ↦ h _ hspan
  have hconduct := Conducted.evaluate limits hkeep (.new sink) (Machine.keep_new _ sink)
  exact (hconduct.error e m hfail).place

/-- **Reports point at tokens.** Of a source that is made of tokens: if they form no program, then
the error is at one of them. If they form one, then every node of the program is at the place of a
token, the mark of the end excepted; and when the program fails, in a new machine with whatever
limits and sink, it fails at such a place. -/
theorem reports_at_tokens {source : String} {ts : List Token} (hscan : Token.scan source = .ok ts) :
    (∀ e, Program.ofTokens ts = .error e → e.token ∈ ts) ∧
    ∀ program, Program.ofTokens ts = .ok program →
      (∀ span, .place span ∈ Stmt.partsAll program →
        ∃ t ∈ ts, t.kind ≠ .endOfInput ∧ t.span = span) ∧
      ∀ limits sink e m, evaluate limits program (.new sink) = .error e m →
        ∃ t ∈ ts, t.kind ≠ .endOfInput ∧ t.span = e.span := by
  obtain ⟨init, last, rfl, -, hlast⟩ := ended_of_scan hscan
  have hend : ∃ t ∈ init ++ [last], t.kind = .endOfInput :=
    ⟨last, List.mem_append_right _ List.mem_cons_self, hlast⟩
  refine ⟨fun e he ↦ token_mem_of_ofTokens hend he, fun program hprogram ↦ ?_⟩
  have hstanding := standing_of_ofTokens hprogram
  exact ⟨fun span hspan ↦ hstanding _ hspan,
    fun limits sink e m hfail ↦ standing_of_evaluate hstanding limits sink hfail⟩

/-- A division by zero is reported at the operator. -/
theorem reports_at_tokens_division :
    let print : Token := ⟨.keyword .print, "print", ⟨1, 1, 0⟩⟩
    let one : Token := ⟨.literal (.int 1), "1", ⟨1, 7, 6⟩⟩
    let slash : Token := ⟨.symbol .slash, "/", ⟨1, 9, 8⟩⟩
    let zero : Token := ⟨.literal (.int 0), "0", ⟨1, 11, 10⟩⟩
    let semicolon : Token := ⟨.symbol .semicolon, ";", ⟨1, 12, 11⟩⟩
    let ts : List Token := [print, one, slash, zero, semicolon, ⟨.endOfInput, "", ⟨1, 13, 12⟩⟩]
    let quotient : Expr := .binary .div (.literal (.int 1) one.span) (.literal (.int 0) zero.span)
      slash.span
    Token.scan "print 1 / 0;" = .ok ts ∧
    Program.ofTokens ts = .ok [.print quotient print.span] ∧
    (∃ m, evaluate {} [.print quotient print.span] (.new (.new none)) =
      .error ⟨.divisionByZero .div, slash.span⟩ m) ∧
    ∃ t ∈ ts, t.kind ≠ .endOfInput ∧ t.span = slash.span := by
  intro print one slash zero semicolon ts quotient
  have hscan : Token.scan "print 1 / 0;" = .ok ts := by with_unfolding_all rfl
  -- The program is found by the rules of the grammar, level by level.
  have hone : ∀ L : Language, L.Unary [one] (.literal (.int 1) one.span) :=
    fun L ↦ .suffixed (.primary (.literal rfl))
  have hzero : ∀ L : Language, L.Unary [zero] (.literal (.int 0) zero.span) :=
    fun L ↦ .suffixed (.primary (.literal rfl))
  have hproduct : ∀ L : Language, Language.LeftAssoc .product L.Unary ([one] ++ slash :: [zero])
      quotient := fun L ↦ .operator (.operand (hone L)) .div (hzero L)
  have hquotient : (Language.within maxNesting).expr [one, slash, zero] quotient :=
    .plain (.operand (.operand (.operand (.operand (.operand (hproduct _))))))
  have hprint : Language.Statement (Language.within maxNesting) false
      [print, one, slash, zero, semicolon] (.print quotient print.span) :=
    .print (rfl : print.kind = _) hquotient (rfl : semicolon.kind = _)
  have hprogram : Program.ofTokens ts = .ok [.print quotient print.span] :=
    Program.ofTokens_eq_ok_iff.2 (Language.Many.cons hprint .nil)
  have hfail : failure? (evaluate {} [.print quotient print.span] (.new (.new none))) =
      some ⟨.divisionByZero .div, slash.span⟩ := by decide +kernel
  obtain ⟨m, hm⟩ := of_failure? hfail
  exact ⟨hscan, hprogram, ⟨m, hm⟩,
    ((reports_at_tokens hscan).2 _ hprogram).2 {} (.new none) _ m hm⟩

end SafariScript
