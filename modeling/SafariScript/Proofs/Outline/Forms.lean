import SafariScript.Program.Outline
import SafariScript.Proofs.Decimal.Written
import SafariScript.Proofs.Grammar.Origin
import SafariScript.Proofs.Outline.Words

/-!
# The forms behind an outline

The second step of reading an outline back: its words are put together to nested forms (`Form`),
which can be done in one way only (`Form.words_append_inj`). Every tree has a form (`Expr.form`,
`Stmt.form`), and its outline is read as the words of that form and of nothing else
(`Expr.reads_outline`, `Stmt.reads_outline`, `reads_outline_program`), if the names and decimals in
the tree can be read where they stand (`Part.Legible`).
-/

namespace SafariScript

namespace Outline

/-- What is behind an outline: leaves, and sequences in parentheses. -/
inductive Form where
  | leaf (leaf : Leaf)
  | node (items : List Form)

mutual

/-- The words of a form. -/
def Form.words : Form → List Word
  | .leaf l => [.leaf l]
  | .node items => .left :: (Form.wordsAll items ++ [.right])

/-- The words of forms in a row. -/
def Form.wordsAll : List Form → List Word
  | [] => []
  | f :: fs => f.words ++ Form.wordsAll fs

end

namespace Form

/-- Forms in a row have the words of each. -/
theorem wordsAll_append (fs gs : List Form) :
    wordsAll (fs ++ gs) = wordsAll fs ++ wordsAll gs := by
  induction fs with
  | nil => rfl
  | cons f fs ih => rw [List.cons_append, wordsAll, ih, wordsAll, List.append_assoc]

theorem wordsAll_singleton (f : Form) : wordsAll [f] = f.words := List.append_nil _

/-- No form begins with a closing parenthesis. -/
theorem exists_words_eq (f : Form) : ∃ w ws, f.words = w :: ws ∧ w ≠ .right := by
  cases f with
  | leaf l => exact ⟨_, _, rfl, nofun⟩
  | node items => exact ⟨_, _, rfl, nofun⟩

/-- No form begins with a closing parenthesis. -/
theorem right_cons_ne (f : Form) (ws ws' : List Word) : .right :: ws ≠ f.words ++ ws' := by
  intro h
  obtain ⟨w, _, hwords, hw⟩ := f.exists_words_eq
  rw [hwords] at h
  exact hw (List.cons.inj h).1.symm

mutual

/-- **Words are read as a form in one way.** -/
theorem words_append_inj (f f' : Form) {ws ws' : List Word} (h : f.words ++ ws = f'.words ++ ws') :
    f = f' ∧ ws = ws' := by
  match f, f' with
  | .leaf l, .leaf l' =>
    obtain ⟨hleaf, hws⟩ := List.cons.inj h
    exact ⟨congrArg _ (Word.leaf.inj hleaf), hws⟩
  | .leaf _, .node _ | .node _, .leaf _ => cases (List.cons.inj h).1
  | .node items, .node items' =>
    rw [words, words, List.cons_append, List.cons_append, List.append_assoc,
      List.append_assoc] at h
    obtain ⟨hitems, hws⟩ := wordsAll_append_inj items items' (List.cons.inj h).2
    exact ⟨congrArg _ hitems, hws⟩

/-- The closing parenthesis says where a row of forms ends. -/
theorem wordsAll_append_inj (fs fs' : List Form) {ws ws' : List Word}
    (h : wordsAll fs ++ .right :: ws = wordsAll fs' ++ .right :: ws') : fs = fs' ∧ ws = ws' := by
  match fs, fs' with
  | [], [] => exact ⟨rfl, (List.cons.inj h).2⟩
  | [], f' :: fs' =>
    rw [wordsAll, wordsAll, List.append_assoc] at h
    exact absurd h (f'.right_cons_ne _ _)
  | f :: fs, [] =>
    rw [wordsAll, wordsAll, List.append_assoc] at h
    exact absurd h.symm (f.right_cons_ne _ _)
  | f :: fs, f' :: fs' =>
    rw [wordsAll, wordsAll, List.append_assoc, List.append_assoc] at h
    obtain ⟨hhead, h⟩ := words_append_inj f f' h
    obtain ⟨htail, hws⟩ := wordsAll_append_inj fs fs' h
    exact ⟨by rw [hhead, htail], hws⟩

end

/-- Forms are known from their words. -/
theorem wordsAll_injective {fs fs' : List Form} (h : wordsAll fs = wordsAll fs') : fs = fs' :=
  (wordsAll_append_inj fs fs' (congrArg (· ++ [.right]) h)).1

end Form

/-! ### The forms of trees -/

/-- What a form in parentheses begins with: the kind of the tree, and its operator. -/
inductive Head where
  | list
  | unary (op : UnaryOp)
  | binary (op : BinaryOp)
  | logical (op : LogicalOp)
  | assign
  | call
  | property
  | method
  | var
  | print
  | cond
  | block
  | loop
  | define
  | throwBall
  | run

/-- The spelling. -/
def Head.text : Head → String
  | list => "list"
  | unary op => op.text
  | binary op => op.text
  | logical op => op.text
  | assign => "="
  | call => "call"
  | property => "."
  | method => "->"
  | var => "var"
  | print => "print"
  | cond => "if"
  | block => "block"
  | loop => "repeat"
  | define => "define"
  | throwBall => "throwBall"
  | run => "run"

/-- The leaf that a name is written as. -/
def nameLeaf (name : String) : Form := .leaf (.plain name.toList)

/-- The items behind a head, in parentheses. -/
def Head.form (h : Head) (items : List Form) : Form := .node (nameLeaf h.text :: items)

/-- The leaf that a literal is written as. -/
def literalLeaf : Literal → Leaf
  | .str s => .quoted (s.toList.flatMap Text.escape)
  | value => .plain value.text.toList

end Outline

open Outline

mutual

/-- The form of an expression. -/
def Expr.form : Expr → Form
  | .literal value _ => .leaf (literalLeaf value)
  | .list items _ => Head.list.form (Expr.forms items)
  | .ident name _ => nameLeaf name
  | .unary op operand _ => (Head.unary op).form [operand.form]
  | .binary op left right _ => (Head.binary op).form [left.form, right.form]
  | .logical op left right _ => (Head.logical op).form [left.form, right.form]
  | .assign target value _ => Head.assign.form [target.form, value.form]
  | .call callee args _ => Head.call.form (callee.form :: Expr.forms args)
  | .property object name _ => Head.property.form [object.form, nameLeaf name]
  | .method object name args named _ =>
    Head.method.form (object.form :: nameLeaf name :: (Expr.forms args ++ Expr.namedForms named))

/-- The forms of expressions. -/
def Expr.forms : List Expr → List Form
  | [] => []
  | e :: es => e.form :: Expr.forms es

/-- The forms of named arguments, each behind its key. -/
def Expr.namedForms : List (String × Expr) → List Form
  | [] => []
  | (name, e) :: es => .leaf (.key name.toList) :: e.form :: Expr.namedForms es

end

mutual

/-- The form of a statement. -/
def Stmt.form : Stmt → Form
  | .expr value => value.form
  | .var name none _ => Head.var.form [nameLeaf name]
  | .var name (some init) _ => Head.var.form [nameLeaf name, init.form]
  | .print value _ => Head.print.form [value.form]
  | .cond condition body none _ =>
    Head.cond.form [condition.form, Head.block.form (Stmt.forms body)]
  | .cond condition body (some other) _ =>
    Head.cond.form
      [condition.form, Head.block.form (Stmt.forms body), Head.block.form (Stmt.forms other)]
  | .block body _ => Head.block.form (Stmt.forms body)
  | .loop count body _ => Head.loop.form [count.form, Head.block.form (Stmt.forms body)]
  | .define name params body _ =>
    Head.define.form
      [nameLeaf name, .node (params.map nameLeaf), Head.block.form (Stmt.forms body)]
  | .throwBall zone target _ => Head.throwBall.form [zone.form, target.form]
  | .run _ => Head.run.form []

/-- The forms of statements. -/
def Stmt.forms : List Stmt → List Form
  | [] => []
  | s :: ss => s.form :: Stmt.forms ss

end

theorem Stmt.forms_eq_map (ss : List Stmt) : Stmt.forms ss = ss.map Stmt.form := by
  induction ss with
  | nil => rfl
  | cons s ss ih => rw [forms, ih, List.map_cons]

namespace Outline

/-! ### How texts are read -/

/-- The text is read as these forms, whatever follows behind something that ends a word. -/
def Reads (text : String) (fs : List Form) : Prop :=
  ∀ r : List Char, Ends r → words (text.toList ++ r) = Form.wordsAll fs ++ words r

/-- The text begins with something that ends a word, or is empty. -/
def Parted (text : String) : Prop := ∀ r : List Char, Ends r → Ends (text.toList ++ r)

/-- Nothing but blanks and line breaks, and at least one of them. -/
def isGaps (text : String) : Bool := !text.toList.isEmpty && text.toList.all isGap

section Reading

variable {t u sep : String} {fs gs : List Form}

/-- A blank ends a plain word. -/
theorem isInner_of_isGap {c : Char} (hc : isGap c = true) : isInner c = false := by
  rw [isInner, hc, Bool.not_true, Bool.false_and]

theorem isGaps_blank : isGaps " " = true := rfl

theorem Parted.nil : Parted "" := fun _ hr ↦ hr

/-- A gap parts what stands before it. -/
theorem Parted.gap (hsep : isGaps sep = true) : Parted (sep ++ t) := by
  intro r _
  simp only [isGaps, Bool.and_eq_true, List.all_eq_true] at hsep
  obtain ⟨hne, hall⟩ := hsep
  rw [String.toList_append]
  cases hcs : sep.toList with
  | nil => rw [hcs] at hne; cases hne
  | cons c cs => exact .cons (isInner_of_isGap (hall c (hcs ▸ List.mem_cons_self)))

theorem Reads.nil : Reads "" [] := fun _ _ ↦ rfl

/-- Texts in a row are read one after the other, if the second one is parted from the first. -/
theorem Reads.append (ht : Reads t fs) (hparted : Parted u) (hu : Reads u gs) :
    Reads (t ++ u) (fs ++ gs) := by
  intro r hr
  rw [String.toList_append, List.append_assoc, ht _ (hparted r hr), hu r hr, Form.wordsAll_append,
    List.append_assoc]

/-- A gap is read as nothing. -/
theorem Reads.gap (hsep : isGaps sep = true) (ht : Reads t fs) : Reads (sep ++ t) fs := by
  intro r hr
  simp only [isGaps, Bool.and_eq_true, List.all_eq_true] at hsep
  rw [String.toList_append, List.append_assoc, words_gaps hsep.2, ht r hr]

/-- A plain word is read as a leaf. -/
theorem Reads.plain (ht : isPlain t.toList = true) : Reads t [nameLeaf t] := by
  intro r hr
  rw [words_plain ht hr]
  rfl

/-- A text in quotes is read as a leaf. -/
theorem Reads.quoted (t : String) :
    Reads (Text.quote t) [.leaf (.quoted (t.toList.flatMap Text.escape))] := by
  intro r _
  rw [Text.quote, String.toList_ofList, words_quoted]
  rfl

/-- A key and what stands behind it. -/
theorem Reads.key (ht : isName t.toList = true) (hu : Reads u fs) :
    Reads (t ++ "=" ++ u) (.leaf (.key t.toList) :: fs) := by
  intro r hr
  rw [String.toList_append, String.toList_append, List.append_assoc, List.append_assoc]
  show words (t.toList ++ '=' :: (u.toList ++ r)) = _
  rw [words_key ht, hu r hr]
  rfl

/-- Parentheses are read as a form. -/
theorem Reads.node (ht : Reads t fs) : Reads ("(" ++ t ++ ")") [.node fs] := by
  intro r _
  rw [String.toList_append, String.toList_append, List.append_assoc, List.append_assoc]
  show words ('(' :: (t.toList ++ ')' :: r)) = _
  rw [words_left, ht _ (.cons rfl), words_right, Form.wordsAll_singleton, Form.words,
    List.cons_append, List.append_assoc, List.singleton_append]

/-- Every head is read as one word. -/
theorem Head.isPlain_text (h : Head) : isPlain h.text.toList = true := by
  cases h with
  | unary op | binary op | logical op => cases op <;> decide
  | _ => decide

/-- A text of items, each behind a gap. -/
structure Items (t : String) (fs : List Form) : Prop where
  parted : Parted t
  reads : Reads t fs

theorem Items.nil : Items "" [] := ⟨.nil, .nil⟩

/-- One more item behind a gap. -/
theorem Items.cons (hsep : isGaps sep = true) (ht : Reads t fs) (hu : Items u gs) :
    Items (sep ++ (t ++ u)) (fs ++ gs) :=
  ⟨.gap hsep, .gap hsep (ht.append hu.parted hu.reads)⟩

theorem Items.single (hsep : isGaps sep = true) (ht : Reads t fs) : Items (sep ++ t) fs :=
  ⟨.gap hsep, .gap hsep ht⟩

/-- Two items, each behind a blank. -/
theorem Items.pair {f g : Form} (ht : Reads t [f]) (hu : Reads u [g]) :
    Items (" " ++ (t ++ (" " ++ u))) [f, g] :=
  .cons isGaps_blank ht (.single isGaps_blank hu)

/-- Items in a row. -/
theorem Items.append (ht : Items t fs) (hu : Items u gs) : Items (t ++ u) (fs ++ gs) := by
  refine ⟨fun r hr ↦ ?_, ht.reads.append hu.parted hu.reads⟩
  rw [String.toList_append, List.append_assoc]
  exact ht.parted _ (hu.parted r hr)

/-- A head and items behind it, in parentheses. -/
theorem Items.enclosed (ht : Items t fs) (h : Head)
    (hu : u.toList = '(' :: (h.text.toList ++ (t.toList ++ [')']))) : Reads u [h.form fs] := by
  have hnode := ((Reads.plain h.isPlain_text).append ht.parted ht.reads).node
  have htext : "(" ++ (h.text ++ t) ++ ")" = u := String.toList_inj.1 (by simp [hu])
  exact htext ▸ hnode

/-- Texts with gaps between them are read one after the other. -/
theorem Reads.intercalate {α : Type} {f : α → String} {g : α → Form} (hsep : isGaps sep = true)
    {xs : List α} (h : ∀ x ∈ xs, Reads (f x) [g x]) :
    Reads (sep.intercalate (xs.map f)) (xs.map g) := by
  induction xs with
  | nil => exact .nil
  | cons x xs ih =>
    obtain ⟨hx, hxs⟩ := List.forall_mem_cons.1 h
    cases xs with
    | nil =>
      rw [List.map_cons, List.map_nil, String.intercalate_singleton]
      exact hx
    | cons y ys =>
      rw [List.map_cons, List.map_cons, String.intercalate_cons_cons, String.append_assoc]
      exact hx.append (.gap hsep) (.gap hsep (ih hxs))

end Reading

/-! ### Numbers -/

/-- Stands in the text of a number. -/
def isNumeral (c : Char) : Bool := c.isDigit || c == '.' || c == 'e' || c == '-'

/-- A digit may stand in a number. -/
theorem isNumeral_of_isDigit {c : Char} (h : c.isDigit = true) : isNumeral c = true := by
  rw [isNumeral, h]
  rfl

/-- A digit or a point may stand in a number. -/
theorem isNumeral_of_isPlace {c : Char} (h : Decimal.Digits.IsPlace c) : isNumeral c = true := by
  rcases h with h | rfl
  · exact isNumeral_of_isDigit h
  · decide

theorem isInner_of_isNumeral {c : Char} (h : isNumeral c = true) : isInner c = true := by
  rcases hc : isInner c
  · rcases isInner_eq_false hc with rfl | rfl | rfl <;> exact absurd h (by decide)
  · rfl

/-- The text of a number: it begins with a digit or a minus sign. -/
def IsNumber (cs : List Char) : Prop :=
  (∀ c ∈ cs, isNumeral c = true) ∧ ∃ c, cs.head? = some c ∧ (c.isDigit = true ∨ c = '-')

theorem isWordStart_of_isDigit {c : Char} (h : c.isDigit = true) :
    Token.isWordStart c = false := by
  rw [Bool.eq_false_iff]
  intro hstart
  exact Bool.eq_false_iff.1 (isDigit_of_isWordStart hstart) h

/-- A number is a plain word. -/
theorem IsNumber.isPlain {cs : List Char} (h : IsNumber cs) : isPlain cs = true := by
  obtain ⟨hall, c, hhead, hc⟩ := h
  cases cs with
  | nil => cases hhead
  | cons d cs =>
    obtain rfl := Option.some.inj hhead
    obtain ⟨hd, hcs⟩ := List.forall_mem_cons.1 hall
    have hinner : cs.all isInner = true :=
      List.all_eq_true.2 fun x hx ↦ isInner_of_isNumeral (hcs x hx)
    have hstart : Token.isWordStart d = false := by
      rcases hc with hc | rfl
      · exact isWordStart_of_isDigit hc
      · decide
    simp only [Outline.isPlain, Bool.and_eq_true, bne_iff_ne, Bool.or_eq_true, Bool.not_eq_true',
      and_assoc]
    exact ⟨isInner_of_isNumeral hd, ne_of_class hd (by decide), ne_of_class hd (by decide), hinner,
      .inl hstart⟩

/-- An integer is written as a number. -/
theorem isNumber_int (a : Int) : IsNumber (toString a).toList := by
  have hdigits (n : Nat) : ∀ c ∈ Nat.toDigits 10 n, isNumeral c = true :=
    fun c hc ↦ isNumeral_of_isDigit (Text.isDigit_of_mem_toDigits_ten hc)
  rw [Text.toList_toString_int]
  split
  · obtain ⟨c, cs, hcs⟩ := List.exists_cons_of_length_pos (Nat.length_toDigits_pos (b := 10)
      (n := a.toNat))
    have hc : c ∈ Nat.toDigits 10 a.toNat := hcs ▸ List.mem_cons_self
    exact ⟨hdigits _, c, by rw [hcs]; rfl, .inl (Text.isDigit_of_mem_toDigits_ten hc)⟩
  · exact ⟨List.forall_mem_cons.2 ⟨rfl, hdigits _⟩, '-', rfl, .inr rfl⟩

theorem isNumeral_of_mem_marked {d : Decimal.Digits} : ∀ c ∈ d.marked, isNumeral c = true := by
  intro c hc
  cases hd : d.needsExponent with
  | false => exact isNumeral_of_isPlace (Decimal.Digits.isPlace_of_mem_marked hd hc)
  | true =>
    rw [Decimal.Digits.marked_of_needsExponent hd] at hc
    rcases List.mem_append.1 hc with hc | hc
    · exact isNumeral_of_isPlace (Decimal.Digits.isPlace_of_mem_mantissa hc)
    · rcases List.mem_cons.1 hc with rfl | hc
      · rfl
      · exact (isNumber_int _).1 c hc

/-- A finite decimal is written as a number. -/
theorem isNumber_decimal {x : Float} (hx : x.isFinite = true) :
    IsNumber (Decimal.literalText x).toList := by
  rw [Decimal.toList_literalText hx]
  obtain ⟨c, cs, hmarked, hc⟩ := (Decimal.digitsOf x).exists_marked_eq
  rcases Decimal.signOf_cases x with ⟨hsign, -⟩ | ⟨hsign, -⟩ <;> rw [hsign]
  · exact ⟨List.forall_mem_cons.2 ⟨rfl, isNumeral_of_mem_marked⟩, '-', rfl, .inr rfl⟩
  · exact ⟨isNumeral_of_mem_marked, c, by rw [hmarked]; rfl, .inl hc⟩

end Outline

/-! ### Trees -/

/-- The part of a tree can be read where an outline writes it: a name is a word and not that of a
literal, and a decimal is finite. -/
def Part.Legible : Part → Prop
  | .place _ => True
  | .name text => isName text.toList = true ∧ text ≠ "true" ∧ text ≠ "false" ∧ text ≠ "null"
  | .literal (.decimal x) => x.isFinite = true
  | .literal _ => True

/-- A name is read as its leaf. -/
theorem Part.Legible.reads_name {name : String} (h : (Part.name name).Legible) :
    Reads name [nameLeaf name] :=
  .plain (isPlain_of_isName h.1)

/-- A literal is read as its leaf. -/
theorem Part.Legible.reads_literal {value : Literal} (h : (Part.literal value).Legible) :
    Reads value.text [.leaf (literalLeaf value)] := by
  cases value with
  | int n => exact .plain (isNumber_int n.toInt).isPlain
  | decimal x => exact .plain (isNumber_decimal h).isPlain
  | str s => exact .quoted s
  | bool b => cases b <;> exact .plain (by decide)
  | null => exact .plain (by decide)

mutual

/-- **The outline of an expression is read as its form.** -/
theorem Expr.reads_outline (e : Expr) (h : e.MadeOf Part.Legible) : Reads e.outline [e.form] := by
  match e with
  | .literal value _ => exact (h _ (List.mem_cons_of_mem _ List.mem_cons_self)).reads_literal
  | .ident name _ => exact (h _ (List.mem_cons_of_mem _ List.mem_cons_self)).reads_name
  | .list items _ =>
    exact (Expr.items_outlines items (List.forall_mem_cons.1 h).2).enclosed .list
      (by simp [Expr.outline, Head.text])
  | .unary op operand _ =>
    have hitems := Items.single isGaps_blank
      (operand.reads_outline (List.forall_mem_cons.1 h).2)
    exact hitems.enclosed (.unary op) (by simp [Expr.outline, Head.text])
  | .binary op left right _ =>
    obtain ⟨hleft, hright⟩ := List.forall_mem_append.1 (List.forall_mem_cons.1 h).2
    have hitems := Items.pair (left.reads_outline hleft) (right.reads_outline hright)
    exact hitems.enclosed (.binary op) (by simp [Expr.outline, Head.text])
  | .logical op left right _ =>
    obtain ⟨hleft, hright⟩ := List.forall_mem_append.1 (List.forall_mem_cons.1 h).2
    have hitems := Items.pair (left.reads_outline hleft) (right.reads_outline hright)
    exact hitems.enclosed (.logical op) (by simp [Expr.outline, Head.text])
  | .assign target value _ =>
    obtain ⟨htarget, hvalue⟩ := List.forall_mem_append.1 (List.forall_mem_cons.1 h).2
    have hitems := Items.pair (target.reads_outline htarget) (value.reads_outline hvalue)
    exact hitems.enclosed .assign (by simp [Expr.outline, Head.text])
  | .call callee args _ =>
    obtain ⟨hcallee, hargs⟩ := List.forall_mem_append.1 (List.forall_mem_cons.1 h).2
    have hitems := Items.cons isGaps_blank (callee.reads_outline hcallee)
      (Expr.items_outlines args hargs)
    exact hitems.enclosed .call (by simp [Expr.outline, Head.text])
  | .property object name _ =>
    obtain ⟨hname, hobject⟩ := List.forall_mem_cons.1 (List.forall_mem_cons.1 h).2
    have hitems := Items.pair (object.reads_outline hobject) hname.reads_name
    exact hitems.enclosed .property (by simp [Expr.outline, Head.text])
  | .method object name args named _ =>
    obtain ⟨hname, hrest⟩ := List.forall_mem_cons.1 (List.forall_mem_cons.1 h).2
    obtain ⟨hobject, hrest⟩ := List.forall_mem_append.1 hrest
    obtain ⟨hargs, hnamed⟩ := List.forall_mem_append.1 hrest
    have hitems := Items.cons isGaps_blank (object.reads_outline hobject)
      (.cons isGaps_blank hname.reads_name
        ((Expr.items_outlines args hargs).append (Expr.items_namedOutlines named hnamed)))
    exact hitems.enclosed .method (by simp [Expr.outline, Head.text])

/-- Expressions in a row, each behind a blank. -/
theorem Expr.items_outlines (es : List Expr) (h : ∀ part ∈ Expr.partsAll es, part.Legible) :
    Items (outlines es) (Expr.forms es) := by
  match es with
  | [] => exact .nil
  | e :: es =>
    obtain ⟨he, hes⟩ := List.forall_mem_append.1 h
    have hitems := Items.cons isGaps_blank (e.reads_outline he) (Expr.items_outlines es hes)
    rw [outlines, String.append_assoc]
    exact hitems

theorem Expr.items_namedOutlines (es : List (String × Expr))
    (h : ∀ part ∈ Expr.partsNamed es, part.Legible) :
    Items (namedOutlines es) (Expr.namedForms es) := by
  match es with
  | [] => exact .nil
  | (name, e) :: es =>
    obtain ⟨hname, hrest⟩ := List.forall_mem_cons.1 h
    obtain ⟨he, hes⟩ := List.forall_mem_append.1 hrest
    have hitems := Items.cons isGaps_blank (.key hname.1 (e.reads_outline he))
      (Expr.items_namedOutlines es hes)
    simp only [namedOutlines, String.append_assoc] at hitems ⊢
    exact hitems

end

/-- A line break and the indentation behind it. -/
theorem Outline.isGaps_newline (indent : Nat) : isGaps ("\n" ++ blanks indent) = true := by
  have hall : ∀ c ∈ List.replicate indent ' ', isGap c = true := by
    intro c hc
    rw [List.eq_of_mem_replicate hc]
    rfl
  simp only [isGaps, blanks, String.toList_append, String.toList_ofList, Bool.and_eq_true,
    List.all_append, List.all_eq_true]
  exact ⟨rfl, List.all_eq_true.1 (rfl : "\n".toList.all isGap = true), hall⟩

theorem Outline.reads_params {params : List String}
    (h : ∀ part ∈ params.map Part.name, part.Legible) :
    Reads ("(" ++ String.intercalate " " params ++ ")") [.node (params.map nameLeaf)] := by
  have hparams := Reads.intercalate (f := id) (g := nameLeaf) isGaps_blank
    fun name hname ↦ (h _ (List.mem_map_of_mem hname)).reads_name
  rw [List.map_id] at hparams
  exact hparams.node

mutual

/-- **The outline of a statement is read as its form**, however far it is indented. -/
theorem Stmt.reads_outline (indent : Nat) (s : Stmt) (h : s.MadeOf Part.Legible) :
    Reads (s.outline indent) [s.form] := by
  match s with
  | .expr value =>
    rw [Stmt.outline]
    exact value.reads_outline h
  | .var name none _ =>
    have hname := (List.forall_mem_cons.1 (List.forall_mem_cons.1 h).2).1
    have hitems := Items.single isGaps_blank hname.reads_name
    exact hitems.enclosed .var (by simp [Stmt.outline, Head.text])
  | .var name (some init) _ =>
    obtain ⟨hname, hinit⟩ := List.forall_mem_cons.1 (List.forall_mem_cons.1 h).2
    have hitems := Items.pair hname.reads_name (init.reads_outline hinit)
    exact hitems.enclosed .var (by simp [Stmt.outline, Head.text])
  | .print value _ =>
    have hitems := Items.single isGaps_blank (value.reads_outline (List.forall_mem_cons.1 h).2)
    exact hitems.enclosed .print (by simp [Stmt.outline, Head.text])
  | .cond condition body none _ =>
    obtain ⟨hcondition, hbody⟩ := List.forall_mem_append.1 (List.forall_mem_cons.1 h).2
    have hitems := Items.pair (condition.reads_outline hcondition)
      (Stmt.reads_bodyOutline (indent + 2) body hbody)
    exact hitems.enclosed .cond (by simp [Stmt.outline, Head.text])
  | .cond condition body (some other) _ =>
    obtain ⟨hcondition, hbodies⟩ := List.forall_mem_append.1 (List.forall_mem_cons.1 h).2
    obtain ⟨hbody, hother⟩ := List.forall_mem_append.1 hbodies
    have hitems := Items.cons isGaps_blank (condition.reads_outline hcondition)
      (.cons isGaps_blank (Stmt.reads_bodyOutline (indent + 2) body hbody)
        (.single isGaps_blank (Stmt.reads_bodyOutline (indent + 2) other hother)))
    exact hitems.enclosed .cond (by simp [Stmt.outline, Head.text])
  | .block body _ =>
    rw [Stmt.outline]
    exact Stmt.reads_bodyOutline indent body (List.forall_mem_cons.1 h).2
  | .loop count body _ =>
    obtain ⟨hcount, hbody⟩ := List.forall_mem_append.1 (List.forall_mem_cons.1 h).2
    have hitems := Items.pair (count.reads_outline hcount)
      (Stmt.reads_bodyOutline (indent + 2) body hbody)
    exact hitems.enclosed .loop (by simp [Stmt.outline, Head.text])
  | .define name params body _ =>
    obtain ⟨hname, hrest⟩ := List.forall_mem_cons.1 (List.forall_mem_cons.1 h).2
    obtain ⟨hparams, hbody⟩ := List.forall_mem_append.1 hrest
    have hitems := Items.cons isGaps_blank hname.reads_name
      (.cons isGaps_blank (reads_params hparams)
        (.single isGaps_blank (Stmt.reads_bodyOutline (indent + 2) body hbody)))
    exact hitems.enclosed .define (by simp [Stmt.outline, Head.text])
  | .throwBall zone target _ =>
    obtain ⟨hzone, htarget⟩ := List.forall_mem_append.1 (List.forall_mem_cons.1 h).2
    have hitems := Items.pair (zone.reads_outline hzone) (target.reads_outline htarget)
    exact hitems.enclosed .throwBall (by simp [Stmt.outline, Head.text])
  | .run _ => exact Items.nil.enclosed .run (by simp [Stmt.outline, Head.text])

/-- A body is read as a block. -/
theorem Stmt.reads_bodyOutline (indent : Nat) (ss : List Stmt)
    (h : ∀ part ∈ Stmt.partsAll ss, part.Legible) :
    Reads (bodyOutline indent ss) [Head.block.form (Stmt.forms ss)] := by
  match ss with
  | [] => exact Items.nil.enclosed .block (by simp [bodyOutline, Head.text])
  | s :: ss =>
    obtain ⟨hs, hss⟩ := List.forall_mem_append.1 h
    have hitems := Items.cons (isGaps_newline indent) (s.reads_outline indent hs)
      (Stmt.items_linesOutline indent ss hss)
    exact hitems.enclosed .block (by simp [bodyOutline, linesOutline, Head.text])

/-- Statements in a row, each on a new line. -/
theorem Stmt.items_linesOutline (indent : Nat) (ss : List Stmt)
    (h : ∀ part ∈ Stmt.partsAll ss, part.Legible) :
    Items (linesOutline indent ss) (Stmt.forms ss) := by
  match ss with
  | [] =>
    rw [linesOutline]
    exact .nil
  | s :: ss =>
    obtain ⟨hs, hss⟩ := List.forall_mem_append.1 h
    have hitems := Items.cons (isGaps_newline indent) (s.reads_outline indent hs)
      (Stmt.items_linesOutline indent ss hss)
    rw [linesOutline, String.append_assoc]
    exact hitems

end

/-- The outline of a program is read as the forms of its statements. -/
theorem Program.reads_outline {program : Program}
    (h : ∀ part ∈ Stmt.partsAll program, part.Legible) :
    Reads program.outline (Stmt.forms program) := by
  rw [Stmt.forms_eq_map]
  exact .intercalate rfl fun s hs ↦ s.reads_outline 0 (Stmt.forall_partsAll.1 h s hs)

end SafariScript
