import SafariScript.Proofs.Outline.Faithful
import SafariScript.Proofs.Value.Equality

/-!
# What is printed for lists

A list is printed with its items between brackets, parted by commas, and the strings among them in
quotes. For plain data, made of literals other than decimals and of lists (`Value.Plain`), the text
says which items there were: two lists are printed alike exactly if they are equal.

What is printed for an item says where it ends, provided that a comma or a bracket follows
(`Stops`): a word ends there, a string at its closing quote, and a list at its closing bracket. So
if two texts that begin with an item are the same, the items have the same contents and what stands
behind them is the same (`Readable`). This is shown along the structure of values: the items of a
list are read one after the other, each up to the comma or bracket behind it (`readable_of_plain`).
-/

namespace SafariScript

open Outline

/-! ### Literals -/

/-- Is no decimal. -/
def Literal.isExact : Literal → Bool
  | decimal _ => false
  | _ => true

/-- Stands in a word, unlike a quote, a bracket and a comma. -/
def isWordChar (c : Char) : Bool := isNumeral c || c.isAlpha

/-- A comma or a closing bracket. -/
def Stops (r : List Char) : Prop := ∃ c r', r = c :: r' ∧ (c = ',' ∨ c = ']')

namespace Literal

variable {l l' : Literal} {r r' : List Char}

/-- The literal is written as a word. -/
structure IsWord (l : Literal) : Prop where
  ne_nil : l.text.toList ≠ []
  all : ∀ c ∈ l.text.toList, isWordChar c = true
  leaf : literalLeaf l = .plain l.text.toList

/-- An exact literal is written as a word or in quotes. -/
theorem isWord_or_str (h : l.isExact = true) : l.IsWord ∨ ∃ s, l = .str s := by
  cases l with
  | int n =>
    obtain ⟨hall, c, hhead, -⟩ := isNumber_int n.toInt
    refine .inl ⟨fun hnil ↦ ?_, fun d hd ↦ ?_, rfl⟩
    · rw [show (toString n.toInt).toList = [] from hnil] at hhead
      cases hhead
    · rw [isWordChar, hall d hd, Bool.true_or]
  | decimal x => cases h
  | str s => exact .inr ⟨s, rfl⟩
  | bool b =>
    have hall : ∀ b, (boolText b).toList ≠ [] ∧ (boolText b).toList.all isWordChar = true := by
      decide
    exact .inl ⟨(hall b).1, List.all_eq_true.1 (hall b).2, rfl⟩
  | null =>
    have hall : "null".toList.all isWordChar = true := by decide
    exact .inl ⟨by decide, List.all_eq_true.1 hall, rfl⟩

theorem toList_text_str (s : String) :
    (Literal.str s).text.toList = '"' :: (s.toList.flatMap Text.escape ++ ['"']) :=
  String.toList_ofList

/-- A word does not begin with anything else. -/
theorem IsWord.text_append_ne (h : l.IsWord) {c : Char} (hc : isWordChar c = false) :
    l.text.toList ++ r ≠ c :: r' := by
  obtain ⟨d, cs, hcs⟩ := List.exists_cons_of_ne_nil h.ne_nil
  rw [hcs]
  intro heq
  have hd := h.all d (hcs ▸ List.mem_cons_self)
  rw [(List.cons.inj heq).1, hc] at hd
  cases hd

/-- A literal begins with a character of a word or a quote. -/
theorem text_append_ne (h : l.isExact = true) {c : Char} (hc : isWordChar c = false)
    (hquote : c ≠ '"') : l.text.toList ++ r ≠ c :: r' := by
  rcases isWord_or_str h with hword | ⟨s, rfl⟩
  · exact hword.text_append_ne hc
  · rw [toList_text_str]
    exact fun heq ↦ hquote (List.cons.inj heq).1.symm

/-- **What is printed for a literal** says which one it is, and where it ends. -/
theorem text_append_inj (hl : l.isExact = true) (hl' : l'.isExact = true) (hr : Stops r)
    (hr' : Stops r') (h : l.text.toList ++ r = l'.text.toList ++ r') : l = l' ∧ r = r' := by
  have hlegible : ∀ {l : Literal}, l.isExact = true → (Part.literal l).Legible := by
    intro l hl
    cases l with
    | decimal x => cases hl
    | int | str | bool | null => trivial
  have hstop : ∀ {c : Char}, c = ',' ∨ c = ']' → isWordChar c = false := by
    rintro c (rfl | rfl) <;> decide
  -- A word ends before the comma or bracket, a string at its own quote.
  rcases isWord_or_str hl with hword | ⟨s, rfl⟩
  · rcases isWord_or_str hl' with hword' | ⟨s, rfl⟩
    · obtain ⟨c, r, rfl, hc⟩ := hr
      obtain ⟨c', r', rfl, hc'⟩ := hr'
      obtain ⟨htext, hrest⟩ :=
        Text.append_cons_inj hword.all hword'.all (hstop hc) (hstop hc') h
      refine ⟨literalLeaf_injective (hlegible hl) (hlegible hl') ?_, hrest⟩
      rw [hword.leaf, hword'.leaf, htext]
    · rw [toList_text_str] at h
      exact absurd h (hword.text_append_ne (by decide))
  · rcases isWord_or_str hl' with hword' | ⟨s', rfl⟩
    · rw [toList_text_str] at h
      exact absurd h.symm (hword'.text_append_ne (by decide))
    · rw [toList_text_str, toList_text_str] at h
      simp only [List.cons_append, List.append_assoc, List.nil_append, List.cons.injEq,
        true_and] at h
      have hsplit := congrArg splitQuoted h
      rw [splitQuoted_flatMap, splitQuoted_flatMap] at hsplit
      obtain ⟨hs, hrest⟩ := Prod.mk.inj hsplit
      rw [String.toList_inj.1 (Text.flatMap_escape_injective hs)]
      exact ⟨rfl, hrest⟩

end Literal

namespace Value

variable {f g : Object → String} {a b v : Value} {as bs vs : List Value} {i j : Nat}
  {r r' : List Char}

/-! ### Plain data -/

/-- Is a list, or a literal other than a decimal. -/
def isDatum : Value → Bool
  | null | bool _ | int _ | str _ | list _ _ => true
  | _ => false

/-- All that is inside is a list or a literal other than a decimal. -/
def Plain (v : Value) : Prop := ∀ u ∈ v.parts, u.isDatum = true

theorem Plain.item (h : (list i vs).Plain) (hv : v ∈ vs) : v.Plain := fun u hu ↦
  h u (mem_parts_list.2 (.inr ⟨v, hv, hu⟩))

/-- Plain data that is listed is exact. -/
theorem Plain.exact {w : Catalogue} (h : v.Plain) (hv : v.Listed w) : v.Exact w := by
  refine ⟨hv, fun u hu hty ↦ ?_⟩
  have hdatum := h u hu
  cases u with
  | decimal x => cases hdatum
  | object o => cases hdatum
  | null | bool | int | str | list | function | native => cases hty

/-- Plain data are literals and lists. -/
theorem Plain.literal_or_list (h : v.Plain) :
    (∃ l : Literal, l.isExact = true ∧ v = ofLiteral l) ∨ ∃ i vs, v = list i vs := by
  have hdatum := h v v.self_mem_parts
  cases v with
  | null => exact .inl ⟨.null, rfl, rfl⟩
  | bool b => exact .inl ⟨.bool b, rfl, rfl⟩
  | int n => exact .inl ⟨.int n, rfl, rfl⟩
  | str s => exact .inl ⟨.str s, rfl, rfl⟩
  | list i vs => exact .inr ⟨i, vs, rfl⟩
  | decimal | object | function | native => cases hdatum

/-! ### Items and rows of items -/

/-- What is printed for the value as an item of a list. -/
def itemText (f : Object → String) : Value → String
  | str s => Text.quote s
  | v => v.text f

/-- In a list a literal is written as in a program. -/
theorem itemText_ofLiteral {l : Literal} (h : l.isExact = true) :
    itemText f (ofLiteral l) = l.text := by
  cases l with
  | decimal x => cases h
  | int | str | bool | null => rfl

theorem itemTexts_eq_map (vs : List Value) : itemTexts f vs = vs.map (itemText f) := by
  induction vs with
  | nil => rfl
  | cons v vs ih =>
    unfold itemTexts
    rw [ih]
    cases v <;> rfl

/-- What stands between the brackets of a list. -/
def row (f : Object → String) (vs : List Value) : List Char :=
  (", ".intercalate (itemTexts f vs)).toList

/-- The items of a list but for the first, each behind a comma. -/
def further (f : Object → String) (vs : List Value) : List Char :=
  vs.flatMap fun v ↦ ',' :: ' ' :: (itemText f v).toList

theorem row_cons (v : Value) (vs : List Value) :
    row f (v :: vs) = (itemText f v).toList ++ further f vs := by
  rw [row, itemTexts_eq_map]
  induction vs generalizing v with
  | nil => simp [further]
  | cons u us ih =>
    rw [List.map_cons, List.map_cons, String.intercalate_cons_cons, String.toList_append,
      String.toList_append, ← List.map_cons, ih, further, further, List.flatMap_cons]
    simp

/-- A list is written in brackets. -/
theorem toList_itemText_list (i : Nat) (vs : List Value) :
    (itemText f (list i vs)).toList = '[' :: (row f vs ++ [']']) := by
  simp [itemText, text, row]

/-- Behind an item there is a comma or the bracket. -/
theorem stops_further (vs : List Value) (r : List Char) : Stops (further f vs ++ ']' :: r) := by
  cases vs with
  | nil => exact ⟨']', r, rfl, .inr rfl⟩
  | cons v vs => exact ⟨',', _, rfl, .inl rfl⟩

/-- An item does not begin like the end of a list. -/
theorem Plain.itemText_append_ne (h : v.Plain) : (itemText f v).toList ++ r ≠ ']' :: r' := by
  rcases h.literal_or_list with ⟨l, hl, rfl⟩ | ⟨i, vs, rfl⟩
  · rw [itemText_ofLiteral hl]
    exact Literal.text_append_ne hl (by decide) (by decide)
  · rw [toList_itemText_list]
    intro heq
    cases (List.cons.inj heq).1

/-- A literal does not begin like a list. -/
theorem ofLiteral_append_ne {l : Literal} (h : l.isExact = true) :
    (itemText f (ofLiteral l)).toList ++ r ≠ (itemText g (list i vs)).toList ++ r' := by
  rw [itemText_ofLiteral h, toList_itemText_list]
  exact Literal.text_append_ne h (by decide) (by decide)

/-! ### Reading items -/

/-- If a text begins with the item, and with another item as well, their contents are the same and
so is what stands behind them. -/
def Readable (f g : Object → String) (a : Value) : Prop :=
  ∀ b r r', b.Plain → Stops r → Stops r' →
    (itemText f a).toList ++ r = (itemText g b).toList ++ r' → a.unnumbered = b.unnumbered ∧ r = r'

/-- The further items are known from their text, up to numbers. -/
theorem further_append_inj (has : ∀ a ∈ as, Readable f g a) (hbs : ∀ b ∈ bs, b.Plain)
    (h : further f as ++ ']' :: r = further g bs ++ ']' :: r') :
    unnumberedAll as = unnumberedAll bs ∧ r = r' := by
  induction as generalizing bs with
  | nil =>
    cases bs with
    | nil => exact ⟨rfl, (List.cons.inj h).2⟩
    | cons b bs => cases (List.cons.inj h).1
  | cons a as ih =>
    cases bs with
    | nil => cases (List.cons.inj h).1
    | cons b bs =>
      obtain ⟨ha, has⟩ := List.forall_mem_cons.1 has
      obtain ⟨hb, hbs⟩ := List.forall_mem_cons.1 hbs
      have hitem : (itemText f a).toList ++ (further f as ++ ']' :: r) =
          (itemText g b).toList ++ (further g bs ++ ']' :: r') := by
        simpa [further] using h
      obtain ⟨hsame, hrest⟩ := ha b _ _ hb (stops_further as r) (stops_further bs r') hitem
      obtain ⟨hsames, hr⟩ := ih has hbs hrest
      exact ⟨by rw [unnumberedAll, unnumberedAll, hsame, hsames], hr⟩

/-- The items are known from their text, up to numbers. -/
theorem row_append_inj (has : ∀ a ∈ as, a.Plain ∧ Readable f g a) (hbs : ∀ b ∈ bs, b.Plain)
    (h : row f as ++ ']' :: r = row g bs ++ ']' :: r') :
    unnumberedAll as = unnumberedAll bs ∧ r = r' := by
  cases as with
  | nil =>
    cases bs with
    | nil => exact ⟨rfl, (List.cons.inj h).2⟩
    | cons b bs =>
      rw [row_cons, List.append_assoc] at h
      exact absurd h.symm (hbs b List.mem_cons_self).itemText_append_ne
  | cons a as =>
    obtain ⟨⟨haplain, ha⟩, has⟩ := List.forall_mem_cons.1 has
    rw [row_cons, List.append_assoc] at h
    cases bs with
    | nil => exact absurd h haplain.itemText_append_ne
    | cons b bs =>
      obtain ⟨hb, hbs⟩ := List.forall_mem_cons.1 hbs
      rw [row_cons, List.append_assoc] at h
      obtain ⟨hsame, hrest⟩ := ha b _ _ hb (stops_further as r) (stops_further bs r') h
      obtain ⟨hsames, hr⟩ := further_append_inj (fun a ha ↦ (has a ha).2) hbs hrest
      exact ⟨by rw [unnumberedAll, unnumberedAll, hsame, hsames], hr⟩

/-- **Plain data can be read.** -/
theorem readable_of_plain (ha : a.Plain) : Readable f g a := by
  induction a using Value.induction with
  | leaf a hleaf =>
    intro b r r' hb hr hr' h
    rcases ha.literal_or_list with ⟨l, hl, rfl⟩ | ⟨i, vs, rfl⟩
    · rcases hb.literal_or_list with ⟨l', hl', rfl⟩ | ⟨j, vs, rfl⟩
      · rw [itemText_ofLiteral hl, itemText_ofLiteral hl'] at h
        obtain ⟨rfl, hrest⟩ := Literal.text_append_inj hl hl' hr hr' h
        exact ⟨rfl, hrest⟩
      · exact absurd h (ofLiteral_append_ne hl)
    · cases hleaf
  | list i as ih =>
    intro b r r' hb hr hr' h
    rcases hb.literal_or_list with ⟨l', hl', rfl⟩ | ⟨j, bs, rfl⟩
    · exact absurd h.symm (ofLiteral_append_ne hl')
    · rw [toList_itemText_list, toList_itemText_list] at h
      have hrow : row f as ++ ']' :: r = row g bs ++ ']' :: r' := by
        simpa using (List.cons.inj h).2
      obtain ⟨hsames, hrest⟩ := row_append_inj
        (fun a ha' ↦ ⟨ha.item ha', ih a ha' (ha.item ha')⟩) (fun b hb' ↦ hb.item hb') hrow
      exact ⟨by rw [unnumbered, unnumbered, hsames], hrest⟩

/-! ### Printing contents -/

theorem unnumberedAll_eq_map (vs : List Value) : unnumberedAll vs = vs.map unnumbered := by
  induction vs with
  | nil => rfl
  | cons v vs ih => rw [unnumberedAll, ih, List.map_cons]

/-- What is printed for plain data depends on its contents only. -/
theorem text_unnumbered (hv : v.Plain) : v.unnumbered.text f = v.text g := by
  induction v using Value.induction with
  | leaf v hleaf =>
    rcases hv.literal_or_list with ⟨l, hl, rfl⟩ | ⟨i, vs, rfl⟩
    · cases l with
      | decimal x => cases hl
      | int | str | bool | null => rfl
    · cases hleaf
  | list i vs ih =>
    have hitems : itemTexts f (unnumberedAll vs) = itemTexts g vs := by
      rw [itemTexts_eq_map, itemTexts_eq_map, unnumberedAll_eq_map, List.map_map]
      refine List.map_congr_left fun v hv' ↦ ?_
      have hitem := ih v hv' (hv.item hv')
      cases v with
      | str s => rfl
      | _ => exact hitem
    rw [unnumbered, text, text, hitems]

/-- **The text of a list is unambiguous.** Two lists of plain data, listed in one catalogue as all
values of a host are, are printed alike exactly if they are equal, whatever the stores. -/
theorem list_text_eq_iff {w : Catalogue} (ha : (list i as).Listed w) (hb : (list j bs).Listed w)
    (haplain : (list i as).Plain) (hbplain : (list j bs).Plain) (s s' : Store) :
    s.text (list i as) = s'.text (list j bs) ↔ (list i as).equals (list j bs) = true := by
  rw [equals_iff (haplain.exact ha) (hbplain.exact hb)]
  constructor
  · intro h
    have hstop : Stops [']'] := ⟨']', [], rfl, .inr rfl⟩
    have hchars : (itemText s.objectText (list i as)).toList ++ [']'] =
        (itemText s'.objectText (list j bs)).toList ++ [']'] :=
      congrArg (·.toList ++ [']']) h
    exact (readable_of_plain haplain _ _ _ hbplain hstop hstop hchars).1
  · intro h
    have hfst : (list i as).unnumbered.text s.objectText = s.text (list i as) :=
      text_unnumbered haplain
    rw [← hfst, h]
    exact text_unnumbered hbplain

/-- A list with a string in it that looks like two items. -/
def oneString : Value := list 1 [.str "null, -1", list 0 []]

/-- The list with these two items. -/
def twoWords : Value := list 2 [.null, .int (-1), list 0 []]

/-- The catalogue of these lists. -/
def rows : Catalogue := ⟨3, ([list 0 [], oneString, twoWords].getD · .null)⟩

/-- The quotes tell the two lists apart, in whichever stores they are printed. -/
theorem list_text_eq_iff_rows :
    oneString.Listed rows ∧ twoWords.Listed rows ∧ oneString.Plain ∧ twoWords.Plain ∧
      ∀ s s' : Store, s.text oneString ≠ s'.text twoWords := by
  have hone : oneString.Listed rows := by
    simp [Listed, oneString, rows, parts, partsAll, number?]
  have htwo : twoWords.Listed rows := by
    simp [Listed, twoWords, rows, parts, partsAll, number?]
  have honePlain : oneString.Plain := by simp [Plain, oneString, parts, partsAll, isDatum]
  have htwoPlain : twoWords.Plain := by simp [Plain, twoWords, parts, partsAll, isDatum]
  refine ⟨hone, htwo, honePlain, htwoPlain, fun s s' h ↦ ?_⟩
  have hequals := (list_text_eq_iff hone htwo honePlain htwoPlain s s').1 h
  cases hequals

end Value

end SafariScript
