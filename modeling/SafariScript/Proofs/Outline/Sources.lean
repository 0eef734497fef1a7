import SafariScript.Proofs.Outline.Faithful
import SafariScript.Proofs.Scanning.Tiling

/-!
# What an outline loses

An outline loses nothing but places (`outline_eq_iff_bare_eq`). It does not write places, so trees
that differ in places only have the same outline (`Program.outline_bare`). For the other direction,
the words of an outline determine the forms behind it (`Form.wordsAll_injective`) and the forms
determine the trees (`Stmt.bareAll_eq_of_forms`). This needs names that are words, and the names in
a program that comes from a source are (`scanned_of_scan`).
-/

namespace SafariScript

open Outline

/-! ### Places are not written -/

section Places

variable (f : Span → Span)

mutual

/-- The outline of an expression does not depend on places. -/
theorem Expr.outline_mapSpans (e : Expr) : (e.mapSpans f).outline = e.outline := by
  match e with
  | .literal _ _ | .ident _ _ => rfl
  | .list items _ => simp only [Expr.mapSpans, Expr.outline, Expr.outlines_mapSpans items]
  | .unary _ x _ => simp only [Expr.mapSpans, Expr.outline, x.outline_mapSpans]
  | .binary _ x y _ | .logical _ x y _ | .assign x y _ =>
    simp only [Expr.mapSpans, Expr.outline, x.outline_mapSpans, y.outline_mapSpans]
  | .call x args _ =>
    simp only [Expr.mapSpans, Expr.outline, x.outline_mapSpans, Expr.outlines_mapSpans args]
  | .property x _ _ => simp only [Expr.mapSpans, Expr.outline, x.outline_mapSpans]
  | .method x _ args named _ =>
    simp only [Expr.mapSpans, Expr.outline, x.outline_mapSpans, Expr.outlines_mapSpans args,
      Expr.namedOutlines_mapSpans named]

theorem Expr.outlines_mapSpans (es : List Expr) :
    outlines (Expr.mapSpansAll f es) = outlines es := by
  match es with
  | [] => rfl
  | e :: es =>
    simp only [Expr.mapSpansAll, outlines, e.outline_mapSpans, Expr.outlines_mapSpans es]

theorem Expr.namedOutlines_mapSpans (es : List (String × Expr)) :
    namedOutlines (Expr.mapSpansNamed f es) = namedOutlines es := by
  match es with
  | [] => rfl
  | (name, e) :: es =>
    simp only [Expr.mapSpansNamed, namedOutlines, e.outline_mapSpans,
      Expr.namedOutlines_mapSpans es]

end

mutual

/-- The outline of a statement does not depend on places. -/
theorem Stmt.outline_mapSpans (indent : Nat) (s : Stmt) :
    (s.mapSpans f).outline indent = s.outline indent := by
  match s with
  | .expr e => simp only [Stmt.mapSpans, Stmt.outline, e.outline_mapSpans]
  | .var _ none _ | .run _ => simp only [Stmt.mapSpans, Stmt.outline]
  | .var _ (some e) _ | .print e _ => simp only [Stmt.mapSpans, Stmt.outline, e.outline_mapSpans]
  | .cond e body none _ | .loop e body _ =>
    simp only [Stmt.mapSpans, Stmt.outline, e.outline_mapSpans, Stmt.bodyOutline_mapSpans _ body]
  | .cond e body (some other) _ =>
    simp only [Stmt.mapSpans, Stmt.outline, e.outline_mapSpans, Stmt.bodyOutline_mapSpans _ body,
      Stmt.bodyOutline_mapSpans _ other]
  | .block body _ | .define _ _ body _ =>
    simp only [Stmt.mapSpans, Stmt.outline, Stmt.bodyOutline_mapSpans _ body]
  | .throwBall e e' _ =>
    simp only [Stmt.mapSpans, Stmt.outline, e.outline_mapSpans, e'.outline_mapSpans]

theorem Stmt.bodyOutline_mapSpans (indent : Nat) (ss : List Stmt) :
    bodyOutline indent (Stmt.mapSpansAll f ss) = bodyOutline indent ss := by
  match ss with
  | [] => rfl
  | s :: ss =>
    simp only [Stmt.mapSpansAll, bodyOutline, linesOutline, s.outline_mapSpans,
      Stmt.linesOutline_mapSpans _ ss]

theorem Stmt.linesOutline_mapSpans (indent : Nat) (ss : List Stmt) :
    linesOutline indent (Stmt.mapSpansAll f ss) = linesOutline indent ss := by
  match ss with
  | [] => rfl
  | s :: ss =>
    simp only [Stmt.mapSpansAll, linesOutline, s.outline_mapSpans, Stmt.linesOutline_mapSpans _ ss]

end

end Places

/-- The outline of a program is that of the program without places. -/
theorem Program.outline_bare (program : Program) :
    Program.outline (program.map Stmt.bare) = program.outline := by
  unfold Program.outline
  rw [List.map_map]
  congr 2
  funext s
  exact s.outline_mapSpans _ 0

/-! ### The programs of sources -/

/-- What is known of the parts of a program that comes from a source: names are words. -/
def Part.Scanned : Part → Prop
  | .name text => (Part.name text).Legible
  | _ => True

/-- An identifier is a word and none of the three that stand for literals. -/
theorem legible_of_piece {c : Char} {cs : List Char} {name : String} {more : Nat}
    (h : Token.piece c cs = .ok (.token (.ident name), more)) : (Part.name name).Legible := by
  have hpiece := pieceAt_iff.2 h
  generalize hr : (.ok (.token (.ident name), more) : Except Token.Flaw (Token.Piece × Nat)) = r
    at hpiece
  cases hpiece with
  | space | lineComment | blockComment | openComment | badString | string => cases hr
  | number =>
    obtain ⟨value, hnumber⟩ | ⟨text, len, hnumber⟩ := number_cases c cs <;>
    · rw [hnumber] at hr
      cases hr
  | word hword =>
    have hkind := (Token.Piece.token.inj (Prod.mk.inj (Except.ok.inj hr)).1).symm
    -- The three literals and the keywords are words, too, but they are no identifiers.
    unfold Token.Kind.ofWord at hkind
    split at hkind
    · cases hkind
    split at hkind
    · cases hkind
    split at hkind
    · cases hkind
    split at hkind
    · cases hkind
    next htrue hfalse hnull =>
      cases hkind
      refine ⟨?_, htrue, hfalse, hnull⟩
      rw [String.toList_ofList, isName, hword, Bool.true_and]
      exact List.all_takeWhile
  | symbol =>
    unfold Token.symbol at hr
    repeat' split at hr
    all_goals cases hr

/-- The names in a program that comes from a source are words. -/
theorem scanned_of_scan {source : String} {ts : List Token} {program : Program}
    (hscan : Token.scan source = .ok ts) (hprogram : Program.ofTokens ts = .ok program) :
    ∀ part ∈ Stmt.partsAll program, part.Scanned := by
  refine (Program.ofTokens_eq_ok_iff.1 hprogram).madeOf fun t ht part hpart ↦ ?_
  have hmem : t ∈ ts := (List.takeWhile_prefix _).subset ht
  cases part with
  | place | literal => trivial
  | name name =>
    have hkind : t.kind = .ident name := by
      obtain hhead | hrest := List.mem_cons.1 hpart
      · cases hhead
      · split at hrest
        · next hkind => rw [hkind, Part.name.inj (List.mem_singleton.1 hrest)]
        · cases List.mem_singleton.1 hrest
        · cases hrest
    rcases piece_of_mem_scanFrom _ _ _ [] ts rfl hscan t hmem with
      hnone | hend | ⟨_, _, _, _, _, hpiece, _⟩
    · cases hnone
    · rw [hkind] at hend
      cases hend
    · rw [hkind] at hpiece
      exact legible_of_piece hpiece

/-- A program that comes from a source can be read where an outline writes it, if its decimals are
finite. -/
theorem legible_of_scan {source : String} {ts : List Token} {program : Program}
    (hscan : Token.scan source = .ok ts) (hprogram : Program.ofTokens ts = .ok program)
    (hfinite : ∀ x, .literal (.decimal x) ∈ Stmt.partsAll program → x.isFinite = true) :
    ∀ part ∈ Stmt.partsAll program, part.Legible := by
  intro part hpart
  cases part with
  | place => trivial
  | name name => exact scanned_of_scan hscan hprogram _ hpart
  | literal value =>
    cases value with
    | decimal x => exact hfinite x hpart
    | _ => trivial

/-- Legible programs with the same outline are the same up to places. -/
theorem bare_eq_of_outline {program program' : Program}
    (h : ∀ part ∈ Stmt.partsAll program, part.Legible)
    (h' : ∀ part ∈ Stmt.partsAll program', part.Legible)
    (houtline : program.outline = program'.outline) :
    program.map Stmt.bare = program'.map Stmt.bare := by
  have hwords := Program.reads_outline h [] .nil
  have hwords' := Program.reads_outline h' [] .nil
  rw [houtline, hwords', words_nil, List.append_nil, List.append_nil] at hwords
  have hforms := Form.wordsAll_injective hwords.symm
  have hbare := Stmt.bareAll_eq_of_forms program h h' hforms
  rwa [Stmt.mapSpansAll_eq_map, Stmt.mapSpansAll_eq_map] at hbare

/-- **An outline loses nothing but places.** Two programs that come from sources, and of which all
decimals are finite, have the same outline exactly if they are the same up to places. -/
theorem outline_eq_iff_bare_eq {source source' : String} {ts ts' : List Token}
    {program program' : Program} (hscan : Token.scan source = .ok ts)
    (hprogram : Program.ofTokens ts = .ok program) (hscan' : Token.scan source' = .ok ts')
    (hprogram' : Program.ofTokens ts' = .ok program')
    (hfinite : ∀ x, .literal (.decimal x) ∈ Stmt.partsAll program → x.isFinite = true)
    (hfinite' : ∀ x, .literal (.decimal x) ∈ Stmt.partsAll program' → x.isFinite = true) :
    program.outline = program'.outline ↔ program.map Stmt.bare = program'.map Stmt.bare := by
  refine ⟨bare_eq_of_outline (legible_of_scan hscan hprogram hfinite)
    (legible_of_scan hscan' hprogram' hfinite'), fun h ↦ ?_⟩
  rw [← program.outline_bare, ← program'.outline_bare, h]

/-- The tokens of `1.5 - x;` at given places. -/
def differenceTokens (p q r s t : Position) : List Token :=
  [⟨.literal (.decimal (Decimal.ofDigits ['1'] ['5'])), "1.5", p⟩, ⟨.symbol .minus, "-", q⟩,
    ⟨.ident "x", "x", r⟩, ⟨.symbol .semicolon, ";", s⟩, ⟨.endOfInput, "", t⟩]

/-- The tree of `1.5 - x` at given places. -/
def differenceExpr (p q r : Position) : Expr :=
  .binary .sub (.literal (.decimal (Decimal.ofDigits ['1'] ['5'])) ⟨p, 3⟩) (.ident "x" ⟨r, 1⟩)
    ⟨q, 1⟩

/-- The tokens form this program, wherever they stand. -/
theorem ofTokens_difference (p q r s t : Position) :
    Program.ofTokens (differenceTokens p q r s t) = .ok [.expr (differenceExpr p q r)] := by
  let decimal : Token := ⟨.literal (.decimal (Decimal.ofDigits ['1'] ['5'])), "1.5", p⟩
  let minus : Token := ⟨.symbol .minus, "-", q⟩
  let name : Token := ⟨.ident "x", "x", r⟩
  let semicolon : Token := ⟨.symbol .semicolon, ";", s⟩
  have hdecimal : ∀ L : Language, L.Unary [decimal] (.literal (.decimal _) decimal.span) :=
    fun L ↦ .suffixed (.primary (.literal rfl))
  have hname : ∀ L : Language, L.Unary [name] (.ident "x" name.span) :=
    fun L ↦ .suffixed (.primary (.ident rfl))
  have hsum : ∀ L : Language, Language.LeftAssoc .sum (Language.LeftAssoc .product L.Unary)
      ([decimal] ++ minus :: [name]) (differenceExpr p q r) :=
    fun L ↦ .operator (.operand (.operand (hdecimal L))) .sub (.operand (hname L))
  have hexpr : (Language.within maxNesting).expr [decimal, minus, name] (differenceExpr p q r) :=
    .plain (.operand (.operand (.operand (.operand (hsum _)))))
  have hstmt : Language.Statement (Language.within maxNesting) false
      ([decimal, minus, name] ++ [semicolon]) (.expr (differenceExpr p q r)) :=
    .expr hexpr nofun rfl
  exact Program.ofTokens_eq_ok_iff.2 (Language.Many.cons hstmt .nil)

/-- The same difference on one line and on two. -/
theorem outline_eq_iff_bare_eq_difference :
    let ts := differenceTokens ⟨1, 1, 0⟩ ⟨1, 4, 3⟩ ⟨1, 5, 4⟩ ⟨1, 6, 5⟩ ⟨1, 7, 6⟩
    let ts' := differenceTokens ⟨1, 1, 0⟩ ⟨2, 1, 4⟩ ⟨2, 3, 6⟩ ⟨2, 4, 7⟩ ⟨2, 5, 8⟩
    let program : Program := [.expr (differenceExpr ⟨1, 1, 0⟩ ⟨1, 4, 3⟩ ⟨1, 5, 4⟩)]
    let program' : Program := [.expr (differenceExpr ⟨1, 1, 0⟩ ⟨2, 1, 4⟩ ⟨2, 3, 6⟩)]
    Token.scan "1.5-x;" = .ok ts ∧ Program.ofTokens ts = .ok program ∧
    Token.scan "1.5\n- x;" = .ok ts' ∧ Program.ofTokens ts' = .ok program' ∧
    .literal (.decimal (Decimal.ofDigits ['1'] ['5'])) ∈ Stmt.partsAll program ∧
    (Decimal.ofDigits ['1'] ['5']).isFinite = true ∧
    program.outline = program'.outline ∧ program.map Stmt.bare = program'.map Stmt.bare := by
  intro ts ts' program program'
  -- The decimal is left alone while the rest of the source is scanned.
  have hscan : Token.scan "1.5-x;" = .ok ts := by
    have hpiece : Token.piece '1' ".5-x;".toList =
      .ok (.token (.literal (.decimal (Decimal.ofDigits ['1'] ['5']))), 2) := rfl
    show Token.scanFrom [] .start ('1' :: ".5-x;".toList) = .ok (differenceTokens _ _ _ _ _)
    rw [Token.scanFrom, hpiece, differenceTokens]
    generalize Decimal.ofDigits ['1'] ['5'] = x
    with_unfolding_all rfl
  have hscan' : Token.scan "1.5\n- x;" = .ok ts' := by
    have hpiece : Token.piece '1' ".5\n- x;".toList =
      .ok (.token (.literal (.decimal (Decimal.ofDigits ['1'] ['5']))), 2) := rfl
    show Token.scanFrom [] .start ('1' :: ".5\n- x;".toList) = .ok (differenceTokens _ _ _ _ _)
    rw [Token.scanFrom, hpiece, differenceTokens]
    generalize Decimal.ofDigits ['1'] ['5'] = x
    with_unfolding_all rfl
  have hprogram := ofTokens_difference ⟨1, 1, 0⟩ ⟨1, 4, 3⟩ ⟨1, 5, 4⟩ ⟨1, 6, 5⟩ ⟨1, 7, 6⟩
  have hprogram' := ofTokens_difference ⟨1, 1, 0⟩ ⟨2, 1, 4⟩ ⟨2, 3, 6⟩ ⟨2, 4, 7⟩ ⟨2, 5, 8⟩
  have hfinite : (Decimal.ofDigits ['1'] ['5']).isFinite = true := by decide +kernel
  have hall : ∀ p q r x,
      .literal (.decimal x) ∈ Stmt.partsAll [.expr (differenceExpr p q r)] → x.isFinite = true := by
    intro p q r x hx
    simp only [Stmt.partsAll, Stmt.parts, differenceExpr, Expr.parts, List.append_nil,
      List.cons_append, List.nil_append, List.mem_cons, List.not_mem_nil, or_false, reduceCtorEq,
      false_or, Part.literal.injEq, Literal.decimal.injEq] at hx
    rw [hx]
    exact hfinite
  have hiff := outline_eq_iff_bare_eq hscan hprogram hscan' hprogram' (hall _ _ _) (hall _ _ _)
  have hmem : .literal (.decimal (Decimal.ofDigits ['1'] ['5'])) ∈ Stmt.partsAll program :=
    List.mem_cons_of_mem _ (List.mem_cons_of_mem _ List.mem_cons_self)
  have houtline : program.outline = program'.outline := by
    simp only [program, program', Program.outline, List.map_cons, List.map_nil, Stmt.outline,
      differenceExpr, Expr.outline]
  exact ⟨hscan, hprogram, hscan', hprogram', hmem, hfinite, houtline, hiff.1 houtline⟩

end SafariScript
