import Mathlib.Data.List.Forall2
import SafariScript.Proofs.Outline.Sources

/-!
# The lines of an outline

Every line of an outline is the line of one statement. The statements of a program, each followed by
those in its bodies (`Stmt.placed`), stand on the lines of the outline **one to one and in order**:
a line has the indentation of its statement, not a blank more, and then the text of the statement as
far as this goes on one line (`Outline.Opens`). So each statement begins a line of its own, and
there is no line break but the one before a statement; that of a text in quotes is escaped.

The indentation is two blanks for each body around the statement, except for those that are blocks
standing alone: their statements are not indented (`Outline.indentation`). The outline of a block
hands its own indentation on to its statements, where the other bodies add two blanks.

A text is taken as its first line and the further ones (`Outline.Breaks`). Texts behind each other
are such a text again, where the last line of one and the first line of the other become one line.
-/

namespace SafariScript

/-! ### Statements and the bodies around them -/

namespace Outline

/-- The bodies that statements stand in. -/
inductive Body where
  | thenBody
  | elseBody
  | loop
  | function
  /-- A block that stands alone. -/
  | block
deriving DecidableEq

/-- A statement with the bodies around it, the innermost first. -/
structure Placed where
  around : List Body
  stmt : Stmt

/-- The blanks before a statement: two for each body around it that is no block standing alone. -/
def indentation (around : List Body) : Nat := 2 * around.countP (· ≠ .block)

/-- A body adds two blanks. -/
theorem indentation_cons {body : Body} (h : body ≠ .block) (around : List Body) :
    indentation (body :: around) = indentation around + 2 := by
  rw [indentation, List.countP_cons_of_pos (by simpa using h), Nat.mul_succ]
  rfl

/-- A block standing alone adds nothing. -/
theorem indentation_block (around : List Body) :
    indentation (.block :: around) = indentation around := by
  rw [indentation, List.countP_cons_of_neg (by simp)]
  rfl

end Outline

open Outline

mutual

/-- The statements in the bodies of a statement, in the order of the text. -/
def Stmt.inner (around : List Body) : Stmt → List Placed
  | .cond _ body none _ => Stmt.placed (.thenBody :: around) body
  | .cond _ body (some other) _ =>
    Stmt.placed (.thenBody :: around) body ++ Stmt.placed (.elseBody :: around) other
  | .block body _ => Stmt.placed (.block :: around) body
  | .loop _ body _ => Stmt.placed (.loop :: around) body
  | .define _ _ body _ => Stmt.placed (.function :: around) body
  | .expr _ | .var _ _ _ | .print _ _ | .throwBall _ _ _ | .run _ => []

/-- Statements in a row, each followed by those in its bodies. -/
def Stmt.placed (around : List Body) : List Stmt → List Placed
  | [] => []
  | s :: ss => ⟨around, s⟩ :: (s.inner around ++ Stmt.placed around ss)

end

namespace Outline

/-! ### Lines -/

/-- The part of a text before its first line break. -/
def firstLine (text : String) : List Char := text.toList.takeWhile (· != '\n')

/-- The line is that of the statement: so many blanks and no more, and then what the outline of the
statement has before its first line break. -/
def Opens (indent : Nat) (s : Stmt) (line : List Char) : Prop :=
  '\n' ∉ line ∧ ∃ c cs rest, firstLine (s.outline indent) = c :: cs ∧ c ≠ ' ' ∧
    line = List.replicate indent ' ' ++ (c :: cs ++ rest)

/-- The lines of the outline are those of the statements of the program, one to one and in order,
with an indentation that the bodies around a statement determine. -/
def LaidOut (indent : List Body → Nat) (program : Program) : Prop :=
  ∃ lines, program.outline.toList = ['\n'].intercalate lines ∧
    List.Forall₂ (fun line p ↦ Opens (indent p.around) p.stmt line) lines (Stmt.placed [] program)

/-- The text stands on one line. -/
def Unbroken (text : String) : Prop := '\n' ∉ text.toList

instance (text : String) : Decidable (Unbroken text) :=
  inferInstanceAs (Decidable ('\n' ∉ text.toList))

/-- The text begins with neither a blank nor a line break. -/
def Dark (text : String) : Prop := ∃ c cs, text.toList = c :: cs ∧ c ≠ ' ' ∧ c ≠ '\n'

/-- Behind the first line of the text come the lines of these statements. -/
def Lines (text : List Char) (ps : List Placed) : Prop :=
  ∃ first lines, text = first ++ lines.flatMap ('\n' :: ·) ∧ '\n' ∉ first ∧
    List.Forall₂ (fun line p ↦ Opens (indentation p.around) p.stmt line) lines ps

/-- The text adds the lines of these statements to whatever follows it. -/
def Breaks (text : String) (ps : List Placed) : Prop :=
  ∀ rest qs, Lines rest qs → Lines (text.toList ++ rest) (ps ++ qs)

section Texts

variable {t u : String} {ps qs : List Placed}

/-- Two texts are on one line if both are. -/
theorem unbroken_append : Unbroken (t ++ u) ↔ Unbroken t ∧ Unbroken u := by
  rw [Unbroken, String.toList_append, List.mem_append, not_or]
  rfl

/-- The first line is the text before the first break. -/
theorem takeWhile_first {first : List Char} (hfirst : '\n' ∉ first) (lines : List (List Char)) :
    (first ++ lines.flatMap ('\n' :: ·)).takeWhile (· != '\n') = first := by
  rw [List.takeWhile_append_of_pos]
  · cases lines with
    | nil => exact List.append_nil first
    | cons line lines => simp
  · intro c hc
    exact bne_iff_ne.2 fun h ↦ hfirst (h ▸ hc)

/-- More text behind can only make the first line longer. -/
theorem takeWhile_prefix_append (cs rest : List Char) :
    cs.takeWhile (· != '\n') <+: (cs ++ rest).takeWhile (· != '\n') := by
  rw [List.takeWhile_append]
  split
  · exact (List.takeWhile_prefix _).trans (List.prefix_append _ _)
  · exact List.prefix_rfl

/-- A parenthesis is not blank. -/
theorem dark_of_paren (h : t.toList.head? = some '(') : Dark t := by
  obtain ⟨cs, hcs⟩ := List.head?_eq_some_iff.1 h
  exact ⟨'(', cs, hcs, by decide, by decide⟩

theorem Breaks.unbroken (h : Unbroken t) : Breaks t [] := by
  rintro rest qs ⟨first, lines, rfl, hfirst, hlines⟩
  exact ⟨t.toList ++ first, lines, (List.append_assoc _ _ _).symm, List.not_mem_append h hfirst,
    hlines⟩

/-- The last line of one text and the first line of the other become one line. -/
theorem Breaks.append (ht : Breaks t ps) (hu : Breaks u qs) : Breaks (t ++ u) (ps ++ qs) := by
  intro rest rs hrest
  rw [String.toList_append, List.append_assoc, List.append_assoc]
  exact ht _ _ (hu rest rs hrest)

/-- A text on one line in front makes no new line. -/
theorem Breaks.behind (ht : Unbroken t) (hu : Breaks u ps) : Breaks (t ++ u) ps :=
  Breaks.append (.unbroken ht) hu

theorem Breaks.before (ht : Breaks t ps) (hu : Unbroken u) : Breaks (t ++ u) ps := by
  have h := ht.append (.unbroken hu)
  rwa [List.append_nil] at h

/-- A statement on a new line, and those in its bodies. -/
theorem Breaks.line {around : List Body} {s : Stmt} (hdark : Dark (s.outline (indentation around)))
    (hs : Breaks (s.outline (indentation around)) ps) :
    Breaks ("\n" ++ blanks (indentation around) ++ s.outline (indentation around))
      (⟨around, s⟩ :: ps) := by
  intro rest qs hrest
  obtain ⟨first, lines, htext, hfirst, hlines⟩ := hs rest qs hrest
  -- The line goes on behind the text of the statement, if this has no line break.
  obtain ⟨more, hmore⟩ : firstLine (s.outline (indentation around)) <+: first := by
    rw [← takeWhile_first hfirst lines, ← htext]
    exact takeWhile_prefix_append _ _
  obtain ⟨c, cs, houtline, hblank, hbreak⟩ := hdark
  have hhead : firstLine (s.outline (indentation around)) = c :: cs.takeWhile (· != '\n') := by
    rw [firstLine, houtline, List.takeWhile_cons_of_pos (p := (· != '\n')) (bne_iff_ne.2 hbreak)]
  refine ⟨[], (List.replicate (indentation around) ' ' ++ first) :: lines, ?_, List.not_mem_nil,
    .cons ⟨?_, c, _, more, hhead, hblank, ?_⟩ hlines⟩
  · rw [String.toList_append, String.toList_append, List.append_assoc, htext, blanks]
    simp only [String.toList_ofList, List.flatMap_cons, List.append_assoc, List.nil_append,
      List.cons_append]
    rfl
  · refine List.not_mem_append (fun h ↦ ?_) hfirst
    exact absurd (List.eq_of_mem_replicate h) (by decide)
  · rw [← hhead, hmore]

end Texts

/-! ### Names and literals -/

/-- The text stands on one line and begins with no blank. -/
structure OneLine (text : String) : Prop where
  unbroken : Unbroken text
  dark : Dark text

/-- A text such as a plain word: there are no blanks or line breaks in it. -/
theorem OneLine.of_isInner {c : Char} {cs : List Char} {t : String} (ht : t.toList = c :: cs)
    (hall : ∀ d ∈ c :: cs, isInner d = true) : OneLine t := by
  have hc := hall c List.mem_cons_self
  refine ⟨fun hmem ↦ ?_, c, cs, ht, ne_of_class hc (by decide), ne_of_class hc (by decide)⟩
  exact ne_of_class (hall _ (ht ▸ hmem)) (d := '\n') (by decide) rfl

/-- A name is on one line. -/
theorem oneLine_name {name : String} (h : isName name.toList = true) : OneLine name := by
  cases hcs : name.toList with
  | nil =>
    rw [hcs] at h
    cases h
  | cons c cs =>
    rw [hcs, isName, Bool.and_eq_true] at h
    refine .of_isInner hcs fun d hd ↦ isInner_of_isWordPart ?_
    obtain rfl | hd := List.mem_cons.1 hd
    · exact isWordPart_of_isWordStart h.1
    · exact List.all_eq_true.1 h.2 d hd

/-- A number is on one line. -/
theorem oneLine_number {t : String} (h : IsNumber t.toList) : OneLine t := by
  obtain ⟨hall, c, hhead, -⟩ := h
  obtain ⟨cs, hcs⟩ := List.head?_eq_some_iff.1 hhead
  exact .of_isInner hcs fun d hd ↦ isInner_of_isNumeral (hall d (hcs ▸ hd))

/-- A decimal that has no digits is written as a word. -/
theorem oneLine_of_not_isFinite {x : Float} (hx : x.isFinite = false) :
    OneLine (Decimal.literalText x) := by
  have hcases : x.isNaN = true ∨ x.isNaN = false ∧ x.isInf = true := by
    unfold Float.isFinite Float.Model.isFinite at hx
    unfold Float.isNaN Float.isInf Float.Model.isNaN Float.Model.isInf
    cases hu : x.toModel.unpack <;> rw [hu] at hx <;>
      first | exact .inl rfl | exact .inr ⟨rfl, rfl⟩ | cases hx
  rw [Decimal.literalText, Decimal.write]
  rcases hcases with hnan | ⟨hnan, hinf⟩
  · rw [hnan, if_pos rfl]
    exact .of_isInner rfl (List.all_eq_true.1 (by decide))
  · rw [hnan, hinf, if_neg Bool.false_ne_true]
    show OneLine (String.ofList (Decimal.signOf x ++ ['i', 'n', 'f']))
    rcases Decimal.signOf_cases x with ⟨hsign, -⟩ | ⟨hsign, -⟩ <;> rw [hsign]
    · exact .of_isInner rfl (List.all_eq_true.1 (by decide))
    · exact .of_isInner rfl (List.all_eq_true.1 (by decide))

/-- A line break in a text is written with a backslash. -/
theorem newline_not_mem_escape (c : Char) : '\n' ∉ Text.escape c := by
  unfold Text.escape
  split
  · decide
  split
  · decide
  split
  · decide
  split
  · decide
  split
  · decide
  split
  · decide
  split
  · next hbreak _ _ _ _ => exact fun hmem ↦ hbreak (List.mem_singleton.1 hmem).symm
  · refine List.not_mem_append (List.not_mem_append (by decide) fun hmem ↦ ?_) (by decide)
    obtain ⟨k, hk, hdigit⟩ := Text.exists_digit_of_mem_toDigits (by decide) hmem
    have hall : ∀ i : Fin 16, '\n' ≠ i.val.digitChar := by decide
    exact hall ⟨k, hk⟩ hdigit

/-- In quotes a line break is escaped. -/
theorem oneLine_quote (s : String) : OneLine (Text.quote s) := by
  refine ⟨?_, '"', _, String.toList_ofList, by decide, by decide⟩
  rw [Unbroken, Text.quote, String.toList_ofList, Text.quoteChars]
  simp only [List.mem_cons, List.mem_append, List.mem_flatMap, List.not_mem_nil, or_false]
  rintro (h | ⟨c, -, hmem⟩ | h)
  · exact absurd h (by decide)
  · exact newline_not_mem_escape c hmem
  · exact absurd h (by decide)

/-- The text of every literal stands on one line. -/
theorem oneLine_literal (value : Literal) : OneLine value.text := by
  cases value with
  | int n => exact oneLine_number (isNumber_int n.toInt)
  | decimal x =>
    cases hx : x.isFinite with
    | true => exact oneLine_number (isNumber_decimal hx)
    | false => exact oneLine_of_not_isFinite hx
  | str s => exact oneLine_quote s
  | bool b => cases b <;> exact oneLine_name (by decide)
  | null => exact oneLine_name (by decide)

end Outline

/-! ### Expressions -/

theorem UnaryOp.unbroken_text (op : UnaryOp) : Unbroken op.text := by cases op <;> decide

theorem BinaryOp.unbroken_text (op : BinaryOp) : Unbroken op.text := by cases op <;> decide

theorem LogicalOp.unbroken_text (op : LogicalOp) : Unbroken op.text := by cases op <;> decide

/-- Names in a row are on one line. -/
theorem Outline.unbroken_params {params : List String}
    (h : ∀ part ∈ params.map Part.name, part.Scanned) :
    Unbroken (String.intercalate " " params) := by
  induction params with
  | nil => exact List.not_mem_nil
  | cons name params ih =>
    obtain ⟨hname, hparams⟩ := List.forall_mem_cons.1 h
    cases params with
    | nil =>
      rw [String.intercalate_singleton]
      exact (oneLine_name hname.1).unbroken
    | cons next params =>
      simp only [String.intercalate_cons_cons, unbroken_append, ih hparams,
        (oneLine_name hname.1).unbroken]
      decide

mutual

/-- **An expression takes one line.** -/
theorem Expr.unbroken_outline (e : Expr) (h : e.MadeOf Part.Scanned) : Unbroken e.outline := by
  match e with
  | .literal value _ => exact (oneLine_literal value).unbroken
  | .ident name _ =>
    exact (oneLine_name (h (.name name) (List.mem_cons_of_mem _ List.mem_cons_self)).1).unbroken
  | .list items _ =>
    have hitems := Expr.unbroken_outlines items (List.forall_mem_cons.1 h).2
    simp only [Expr.outline, unbroken_append, hitems]
    decide
  | .unary op x _ =>
    have hx := x.unbroken_outline (List.forall_mem_cons.1 h).2
    simp only [Expr.outline, unbroken_append, hx, op.unbroken_text]
    decide
  | .binary op x y _ =>
    obtain ⟨hx, hy⟩ := List.forall_mem_append.1 (List.forall_mem_cons.1 h).2
    simp only [Expr.outline, unbroken_append, x.unbroken_outline hx, y.unbroken_outline hy,
      op.unbroken_text]
    decide
  | .logical op x y _ =>
    obtain ⟨hx, hy⟩ := List.forall_mem_append.1 (List.forall_mem_cons.1 h).2
    simp only [Expr.outline, unbroken_append, x.unbroken_outline hx, y.unbroken_outline hy,
      op.unbroken_text]
    decide
  | .assign x y _ =>
    obtain ⟨hx, hy⟩ := List.forall_mem_append.1 (List.forall_mem_cons.1 h).2
    simp only [Expr.outline, unbroken_append, x.unbroken_outline hx, y.unbroken_outline hy]
    decide
  | .call x args _ =>
    obtain ⟨hx, hargs⟩ := List.forall_mem_append.1 (List.forall_mem_cons.1 h).2
    simp only [Expr.outline, unbroken_append, x.unbroken_outline hx,
      Expr.unbroken_outlines args hargs]
    decide
  | .property x name _ =>
    obtain ⟨hname, hx⟩ := List.forall_mem_cons.1 (List.forall_mem_cons.1 h).2
    simp only [Expr.outline, unbroken_append, x.unbroken_outline hx,
      (oneLine_name hname.1).unbroken]
    decide
  | .method x name args named _ =>
    obtain ⟨hname, hrest⟩ := List.forall_mem_cons.1 (List.forall_mem_cons.1 h).2
    obtain ⟨hx, hrest⟩ := List.forall_mem_append.1 hrest
    obtain ⟨hargs, hnamed⟩ := List.forall_mem_append.1 hrest
    simp only [Expr.outline, unbroken_append, x.unbroken_outline hx,
      (oneLine_name hname.1).unbroken, Expr.unbroken_outlines args hargs,
      Expr.unbroken_namedOutlines named hnamed]
    decide

/-- Expressions in a row are on one line. -/
theorem Expr.unbroken_outlines (es : List Expr) (h : ∀ part ∈ Expr.partsAll es, part.Scanned) :
    Unbroken (outlines es) := by
  match es with
  | [] => exact List.not_mem_nil
  | e :: es =>
    obtain ⟨he, hes⟩ := List.forall_mem_append.1 h
    simp only [outlines, unbroken_append, e.unbroken_outline he, Expr.unbroken_outlines es hes]
    decide

theorem Expr.unbroken_namedOutlines (es : List (String × Expr))
    (h : ∀ part ∈ Expr.partsNamed es, part.Scanned) : Unbroken (namedOutlines es) := by
  match es with
  | [] => exact List.not_mem_nil
  | (name, e) :: es =>
    obtain ⟨hname, hrest⟩ := List.forall_mem_cons.1 h
    obtain ⟨he, hes⟩ := List.forall_mem_append.1 hrest
    simp only [namedOutlines, unbroken_append, (oneLine_name hname.1).unbroken,
      e.unbroken_outline he, Expr.unbroken_namedOutlines es hes]
    decide

end

/-- An outline begins with a parenthesis, a name or a literal. -/
theorem Expr.dark_outline (e : Expr) (h : e.MadeOf Part.Scanned) : Dark e.outline := by
  cases e with
  | literal value _ => exact (oneLine_literal value).dark
  | ident name _ =>
    exact (oneLine_name (h (.name name) (List.mem_cons_of_mem _ List.mem_cons_self)).1).dark
  | _ => exact dark_of_paren (by simp [Expr.outline])

/-! ### Statements -/

/-- The outline of a statement does not begin with a blank. -/
theorem Stmt.dark_outline (indent : Nat) (s : Stmt) (h : s.MadeOf Part.Scanned) :
    Dark (s.outline indent) := by
  cases s with
  | expr e =>
    rw [Stmt.outline]
    exact e.dark_outline h
  | var _ init _ => cases init <;> exact dark_of_paren (by simp [Stmt.outline])
  | cond _ _ other _ => cases other <;> exact dark_of_paren (by simp [Stmt.outline])
  | block body _ => cases body <;> exact dark_of_paren (by simp [Stmt.outline, bodyOutline])
  | _ => exact dark_of_paren (by simp [Stmt.outline])

/-- A text with an indented body at its end, and the parenthesis behind that. -/
theorem Outline.Breaks.indented {t : String} {ps : List Placed} {around : List Body} {body : Body}
    {ss : List Stmt} (hbody : body ≠ .block) (ht : Unbroken t)
    (hlines : Breaks (bodyOutline (indentation (body :: around)) ss) ps) :
    Breaks (t ++ bodyOutline (indentation around + 2) ss ++ ")") ps := by
  rw [indentation_cons hbody] at hlines
  exact .before (.behind ht hlines) (by decide)

mutual

/-- **The lines of a statement**: behind its first line come those of the statements in its
bodies. -/
theorem Stmt.breaks_outline (around : List Body) (s : Stmt) (h : s.MadeOf Part.Scanned) :
    Breaks (s.outline (indentation around)) (s.inner around) := by
  match s with
  | .expr e =>
    rw [Stmt.outline, Stmt.inner]
    exact .unbroken (e.unbroken_outline h)
  | .var name none _ =>
    have hname := (List.forall_mem_cons.1 (List.forall_mem_cons.1 h).2).1
    rw [Stmt.outline, Stmt.inner]
    refine .unbroken ?_
    simp only [unbroken_append, (oneLine_name hname.1).unbroken]
    decide
  | .var name (some init) _ =>
    obtain ⟨hname, hinit⟩ := List.forall_mem_cons.1 (List.forall_mem_cons.1 h).2
    rw [Stmt.outline, Stmt.inner]
    refine .unbroken ?_
    simp only [unbroken_append, (oneLine_name hname.1).unbroken, init.unbroken_outline hinit]
    decide
  | .print e _ =>
    rw [Stmt.outline, Stmt.inner]
    refine .unbroken ?_
    simp only [unbroken_append, e.unbroken_outline (List.forall_mem_cons.1 h).2]
    decide
  | .cond e body none _ =>
    obtain ⟨he, hbody⟩ := List.forall_mem_append.1 (List.forall_mem_cons.1 h).2
    have hlines := Stmt.breaks_bodyOutline (.thenBody :: around) body hbody
    rw [Stmt.outline, Stmt.inner]
    refine .indented (by decide) ?_ hlines
    simp only [unbroken_append, e.unbroken_outline he]
    decide
  -- Both bodies begin behind text on the same line, so no line is added between them.
  | .cond e body (some other) _ =>
    obtain ⟨he, hbodies⟩ := List.forall_mem_append.1 (List.forall_mem_cons.1 h).2
    obtain ⟨hbody, hother⟩ := List.forall_mem_append.1 hbodies
    have hlines := Stmt.breaks_bodyOutline (.thenBody :: around) body hbody
    have hlines' := Stmt.breaks_bodyOutline (.elseBody :: around) other hother
    rw [indentation_cons (by decide)] at hlines hlines'
    rw [Stmt.outline, Stmt.inner]
    refine .before (.append (.before (.behind ?_ hlines) (by decide)) hlines') (by decide)
    simp only [unbroken_append, e.unbroken_outline he]
    decide
  | .block body _ =>
    have hlines := Stmt.breaks_bodyOutline (.block :: around) body (List.forall_mem_cons.1 h).2
    rw [indentation_block] at hlines
    rw [Stmt.outline, Stmt.inner]
    exact hlines
  | .loop e body _ =>
    obtain ⟨he, hbody⟩ := List.forall_mem_append.1 (List.forall_mem_cons.1 h).2
    have hlines := Stmt.breaks_bodyOutline (.loop :: around) body hbody
    rw [Stmt.outline, Stmt.inner]
    refine .indented (by decide) ?_ hlines
    simp only [unbroken_append, e.unbroken_outline he]
    decide
  | .define name params body _ =>
    obtain ⟨hname, hrest⟩ := List.forall_mem_cons.1 (List.forall_mem_cons.1 h).2
    obtain ⟨hparams, hbody⟩ := List.forall_mem_append.1 hrest
    have hlines := Stmt.breaks_bodyOutline (.function :: around) body hbody
    rw [Stmt.outline, Stmt.inner]
    refine .indented (by decide) ?_ hlines
    simp only [unbroken_append, (oneLine_name hname.1).unbroken, unbroken_params hparams]
    decide
  | .throwBall zone target _ =>
    obtain ⟨hzone, htarget⟩ := List.forall_mem_append.1 (List.forall_mem_cons.1 h).2
    rw [Stmt.outline, Stmt.inner]
    refine .unbroken ?_
    simp only [unbroken_append, zone.unbroken_outline hzone, target.unbroken_outline htarget]
    decide
  | .run _ =>
    rw [Stmt.outline, Stmt.inner]
    exact .unbroken (by decide)

/-- The lines of a body are those of its statements. -/
theorem Stmt.breaks_bodyOutline (around : List Body) (ss : List Stmt)
    (h : ∀ part ∈ Stmt.partsAll ss, part.Scanned) :
    Breaks (bodyOutline (indentation around) ss) (Stmt.placed around ss) := by
  have hlines := Stmt.breaks_linesOutline around ss h
  match ss with
  | [] =>
    rw [bodyOutline, Stmt.placed]
    exact .unbroken (by decide)
  | s :: ss =>
    rw [bodyOutline]
    exact .before (.behind (by decide) hlines) (by decide)

theorem Stmt.breaks_linesOutline (around : List Body) (ss : List Stmt)
    (h : ∀ part ∈ Stmt.partsAll ss, part.Scanned) :
    Breaks (linesOutline (indentation around) ss) (Stmt.placed around ss) := by
  match ss with
  | [] =>
    rw [linesOutline, Stmt.placed]
    exact .unbroken List.not_mem_nil
  | s :: ss =>
    obtain ⟨hs, hss⟩ := List.forall_mem_append.1 h
    rw [linesOutline, Stmt.placed]
    exact (Breaks.line (s.dark_outline _ hs) (Stmt.breaks_outline around s hs)).append
      (Stmt.breaks_linesOutline around ss hss)

end

/-! ### Programs -/

theorem Outline.intercalate_newline (line : List Char) (lines : List (List Char)) :
    ['\n'].intercalate (line :: lines) = line ++ lines.flatMap ('\n' :: ·) := by
  induction lines generalizing line with
  | nil => simp [List.intercalate]
  | cons next lines ih =>
    rw [List.intercalate_cons_cons, ih, List.flatMap_cons]
    simp

/-- A program is laid out like a body that is not indented, without the line break before it. -/
theorem linesOutline_zero (s : Stmt) (ss : List Stmt) :
    linesOutline 0 (s :: ss) = "\n" ++ Program.outline (s :: ss) := by
  induction ss generalizing s with
  | nil => simp [linesOutline, blanks, Program.outline]
  | cons next ss ih =>
    rw [linesOutline, ih]
    simp [blanks, Program.outline, String.append_assoc]

/-- The lines of an outline are those of the statements, in order. -/
theorem Program.laidOut_of_scanned (program : Program)
    (h : ∀ part ∈ Stmt.partsAll program, part.Scanned) : LaidOut indentation program := by
  obtain ⟨first, lines, htext, hfirst, hlines⟩ :=
    Stmt.breaks_linesOutline [] program h [] [] ⟨[], [], rfl, List.not_mem_nil, .nil⟩
  rw [List.append_nil] at htext hlines
  refine ⟨lines, ?_, hlines⟩
  cases program with
  | nil =>
    cases hlines
    rfl
  | cons s ss =>
    rw [show indentation [] = 0 from rfl, linesOutline_zero, String.toList_append] at htext
    change '\n' :: _ = _ at htext
    cases hlines with
    | @cons line p lines ps _ _ =>
      rw [intercalate_newline]
      cases first with
      | nil => exact (List.cons.inj htext).2
      | cons c cs => exact absurd (List.cons.inj htext).1 fun hc ↦ hfirst (hc ▸ List.mem_cons_self)

/-- **Indentation shows nesting.** In the outline of a program that comes from a source, every
statement begins a line of its own, behind two blanks for each body around it that is no block
standing alone, and no line begins otherwise. -/
theorem outline_laidOut {source : String} {ts : List Token} {program : Program}
    (hscan : Token.scan source = .ok ts) (hprogram : Program.ofTokens ts = .ok program) :
    LaidOut indentation program :=
  program.laidOut_of_scanned (scanned_of_scan hscan hprogram)

/-- The body of a function is indented: `define f() { var x; }`. -/
theorem outline_laidOut_function :
    ∃ ts program, Token.scan r"define f() { var x; }" = .ok ts ∧
      Program.ofTokens ts = .ok program ∧
      Program.outline program = "(define f () (block\n  (var x)))" ∧
      LaidOut indentation program := by
  let word : Token := ⟨.keyword .define, "define", ⟨1, 1, 0⟩⟩
  let name : Token := ⟨.ident "f", "f", ⟨1, 8, 7⟩⟩
  let left : Token := ⟨.symbol .leftParen, "(", ⟨1, 9, 8⟩⟩
  let right : Token := ⟨.symbol .rightParen, ")", ⟨1, 10, 9⟩⟩
  let opening : Token := ⟨.symbol .leftBrace, r"{", ⟨1, 12, 11⟩⟩
  let var : Token := ⟨.keyword .var, "var", ⟨1, 14, 13⟩⟩
  let ident : Token := ⟨.ident "x", "x", ⟨1, 18, 17⟩⟩
  let semicolon : Token := ⟨.symbol .semicolon, ";", ⟨1, 19, 18⟩⟩
  let closing : Token := ⟨.symbol .rightBrace, r"}", ⟨1, 21, 20⟩⟩
  let final : Token := ⟨.endOfInput, "", ⟨1, 22, 21⟩⟩
  have hscan : Token.scan r"define f() { var x; }" = .ok
      [word, name, left, right, opening, var, ident, semicolon, closing, final] := by
    with_unfolding_all rfl
  have hbody : (Language.within maxNesting).block false
      [opening, var, ident, semicolon, closing] [.var "x" none var.span] :=
    .braces rfl (Language.Many.cons (.var rfl rfl rfl) .nil) rfl
  have hstmt : Language.Statement (Language.within maxNesting) false
      [word, name, left, right, opening, var, ident, semicolon, closing]
      (.define "f" [] [.var "x" none var.span] word.span) :=
    .define rfl rfl rfl .none rfl hbody
  have hprogram : Program.ofTokens
      [word, name, left, right, opening, var, ident, semicolon, closing, final] =
        .ok [.define "f" [] [.var "x" none var.span] word.span] :=
    Program.ofTokens_eq_ok_iff.2 (Language.Many.cons hstmt .nil)
  have houtline : Program.outline [.define "f" [] [.var "x" none var.span] word.span] =
      "(define f () (block\n  (var x)))" := by
    simp only [Program.outline, List.map, Stmt.outline, bodyOutline, linesOutline]
    decide +kernel
  exact ⟨_, _, hscan, hprogram, houtline, outline_laidOut hscan hprogram⟩

/-- A block that stands alone is not indented, although it is a body like the others:
`{ var x; }`. -/
theorem block_unindented :
    ∃ ts program, Token.scan r"{ var x; }" = .ok ts ∧ Program.ofTokens ts = .ok program ∧
      Program.outline program = "(block\n(var x))" ∧
      ¬ LaidOut (fun around ↦ 2 * around.length) program := by
  let opening : Token := ⟨.symbol .leftBrace, r"{", ⟨1, 1, 0⟩⟩
  let var : Token := ⟨.keyword .var, "var", ⟨1, 3, 2⟩⟩
  let ident : Token := ⟨.ident "x", "x", ⟨1, 7, 6⟩⟩
  let semicolon : Token := ⟨.symbol .semicolon, ";", ⟨1, 8, 7⟩⟩
  let closing : Token := ⟨.symbol .rightBrace, r"}", ⟨1, 10, 9⟩⟩
  let final : Token := ⟨.endOfInput, "", ⟨1, 11, 10⟩⟩
  let inside : Stmt := .var "x" none var.span
  have hscan : Token.scan r"{ var x; }" = .ok
      [opening, var, ident, semicolon, closing, final] := by with_unfolding_all rfl
  have hstmt : Language.Statement (Language.within maxNesting) false
      [opening, var, ident, semicolon, closing] (.block [inside] opening.span) :=
    .block (Language.Braces.braces rfl (Language.Many.cons (.var rfl rfl rfl) .nil) rfl)
  have hprogram : Program.ofTokens [opening, var, ident, semicolon, closing, final] =
      .ok [.block [inside] opening.span] :=
    Program.ofTokens_eq_ok_iff.2 (Language.Many.cons hstmt .nil)
  have houtline : Program.outline [.block [inside] opening.span] = "(block\n(var x))" := by
    simp only [Program.outline, List.map, Stmt.outline, bodyOutline, linesOutline, inside]
    decide +kernel
  refine ⟨_, _, hscan, hprogram, houtline, ?_⟩
  rintro ⟨lines, htext, hlines⟩
  have hplaced : Stmt.placed [] [.block [inside] opening.span] =
      [⟨[], .block [inside] opening.span⟩, ⟨[.block], inside⟩] := by
    simp [Stmt.placed, Stmt.inner, inside]
  rw [hplaced] at hlines
  -- The second line begins with a parenthesis, where two blanks would have to stand.
  cases hlines with
  | @cons first _ _ _ hfirst hlines =>
    cases hlines with
    | @cons second _ _ _ hsecond hlines =>
      cases hlines
      obtain ⟨_, c, cs, rest, _, _, hsecond⟩ := hsecond
      rw [houtline, intercalate_newline, hsecond] at htext
      have hbreak : "(block".toList ++ '\n' :: "(var x))".toList = first ++ '\n' :: ' ' :: _ :=
        htext
      have hnot : ∀ c ∈ first, (c != '\n') = true := by
        intro c hc
        exact bne_iff_ne.2 fun h ↦ hfirst.1 (h ▸ hc)
      have hblock : ∀ c ∈ "(block".toList, (c != '\n') = true := List.all_eq_true.1 (by decide)
      have hbehind := (Text.append_cons_inj hblock hnot rfl rfl hbreak).2
      exact absurd (List.cons.inj (List.cons.inj hbehind).2).1 (by decide)

end SafariScript
