import SafariScript.Proofs.Scanning.Spacing

/-!
# String literals

A character may be written in more than one way between quotes (`spellings`), so a text has many
encodings (`Encodes`). **The scanner decodes all of them, and reads nothing else as a string**
(`string_literals`): the encoding of a text, in quotes, is scanned to one token with this text as
its value, and what any string token was written as is an encoding of its value.

A reader may go through the bytes of a literal without knowing where characters begin and end
(`stringBytes`), and make a text of the bytes that it has collected at the end. The two bytes that
it looks for, those of the quote and the backslash, are never part of another character
(`eq_of_mem_utf8EncodeChar`). Hence it collects the bytes of whole characters, namely of the text
that the scanner gives (`stringBytes_utf8`).
-/

namespace SafariScript

open Token

/-! ### Encodings -/

/-- The ways to write a character between quotes. -/
def spellings (c : Char) : List (List Char) :=
  if c = '\\' then [['\\', '\\']]
  else if c = '"' then [['\\', '"']]
  else if c = '\n' then [['\n'], ['\\', 'n']]
  else if c = '\t' then [['\t'], ['\\', 't']]
  else [[c]]

/-- The text `text` writes the characters `value`, each in one of its spellings. -/
inductive Encodes : (value text : List Char) → Prop
  | nil : Encodes [] []
  | cons {c : Char} {value part text : List Char} : part ∈ spellings c → Encodes value text →
    Encodes (c :: value) (part ++ text)

/-- A spelling is an escape, or the character itself if it is neither quote nor backslash. -/
theorem mem_spellings {c : Char} {part : List Char} : part ∈ spellings c ↔
    (part = [c] ∧ c ≠ '"' ∧ c ≠ '\\') ∨ ∃ d, part = ['\\', d] ∧ unescape? d = some c := by
  unfold spellings
  constructor
  · intro h
    split at h
    · next hc =>
      subst hc
      exact .inr ⟨'\\', List.mem_singleton.1 h, rfl⟩
    next hescape =>
    split at h
    · next hc =>
      subst hc
      exact .inr ⟨'"', List.mem_singleton.1 h, rfl⟩
    next hquote =>
    split at h
    · next hc =>
      subst hc
      obtain hraw | hescaped := List.mem_pair.1 h
      · exact .inl ⟨hraw, hquote, hescape⟩
      · exact .inr ⟨'n', hescaped, rfl⟩
    split at h
    · next hc =>
      subst hc
      obtain hraw | hescaped := List.mem_pair.1 h
      · exact .inl ⟨hraw, hquote, hescape⟩
      · exact .inr ⟨'t', hescaped, rfl⟩
    · exact .inl ⟨List.mem_singleton.1 h, hquote, hescape⟩
  · rintro (⟨rfl, hquote, hescape⟩ | ⟨d, rfl, hd⟩)
    · rw [if_neg hescape, if_neg hquote]
      split
      · next hc => simp [hc]
      split
      · next hc => simp [hc]
      · exact List.mem_singleton_self _
    · unfold unescape? at hd
      split at hd <;> cases hd <;> decide

/-- What stands for a value is what the scanner reads as one. -/
theorem encodes_iff_stringText {value text : List Char} :
    Encodes value text ↔ StringText text value := by
  constructor
  · intro h
    induction h with
    | nil => exact .nil
    | cons hpart _ ih =>
      obtain ⟨rfl, hquote, hescape⟩ | ⟨d, rfl, hd⟩ := mem_spellings.1 hpart
      · exact .plain hquote hescape ih
      · exact .escape (unescape?_iff.1 hd) ih
  · intro h
    induction h with
    | nil => exact .nil
    | @plain c text value hquote hescape _ ih =>
      exact .cons (mem_spellings.2 (.inl ⟨rfl, hquote, hescape⟩)) ih
    | @escape c v text value hc _ ih =>
      exact .cons (mem_spellings.2 (.inr ⟨c, rfl, unescape?_iff.2 hc⟩)) ih

/-! ### Literals and tokens -/

/-- A text in quotes. -/
def inQuotes (text : String) : String := "\"" ++ text ++ "\""

theorem toList_inQuotes (text : String) :
    (inQuotes text).toList = '"' :: (text.toList ++ ['"']) := by
  simp [inQuotes]

/-- A literal alone is scanned to its value. -/
theorem scan_inQuotes {v text : String} (h : Encodes v.toList text.toList) :
    scan (inQuotes text) = .ok [⟨.literal (.str v), inQuotes text, .start⟩,
      ⟨.endOfInput, "", Position.start.afterAll (inQuotes text).toList⟩] := by
  have hbody := (encodes_iff_stringText.1 h).stringBody [] 0 []
  rw [List.reverse_nil, List.nil_append, String.ofList_toList, Nat.zero_add] at hbody
  have hpiece : piece '"' (text.toList ++ ['"'] ++ []) =
      .ok (.token (.literal (.str v)), (text.toList ++ ['"']).length) := by
    rw [List.append_nil, List.length_append]
    exact pieceAt_iff.1 (.string hbody)
  have hscan := scanFrom_token [] .start hpiece
  rw [List.append_nil, ← toList_inQuotes, String.ofList_toList] at hscan
  rw [scan, hscan, scanFrom]
  rfl

/-- A word is no string. -/
theorem WordKind.ne_str {word : String} {kind : Kind} (h : WordKind word kind) (v : String) :
    kind ≠ .literal (.str v) := by
  cases h <;> rintro ⟨⟩

/-- A string token is written as an encoding of its value. -/
theorem encodes_of_mem_scan {source : String} {ts : List Token} (h : scan source = .ok ts)
    {t : Token} (ht : t ∈ ts) {v : String} (hv : t.kind = .literal (.str v)) :
    ∃ text, t.lexeme = inQuotes text ∧ Encodes v.toList text.toList := by
  obtain ⟨k, c, cs, hlexeme, hstands⟩ := meant_of_mem_scan h ht (by rw [hv]; rintro ⟨⟩)
  rw [hv] at hstands
  generalize hl : c :: cs = l at hstands
  generalize hkind : (.literal (.str v) : Kind) = kind at hstands
  cases hstands with
  | word _ hword => exact absurd hkind.symm (hword.ne_str v)
  | integer | decimal | symbol => cases hkind
  | @string text value htext =>
    cases hkind
    refine ⟨String.ofList text, ?_, ?_⟩
    · rw [hlexeme, hl, ← String.ofList_toList (s := inQuotes _), toList_inQuotes,
        String.toList_ofList]
    · rw [String.toList_ofList, String.toList_ofList]
      exact encodes_iff_stringText.2 htext

/-! ### Bytes of characters -/

/-- The bytes of characters. -/
def utf8 (cs : List Char) : List UInt8 := cs.flatMap String.utf8EncodeChar

@[simp] theorem utf8_nil : utf8 [] = [] := rfl

@[simp] theorem utf8_cons (c : Char) (cs : List Char) :
    utf8 (c :: cs) = String.utf8EncodeChar c ++ utf8 cs := List.flatMap_cons

/-- Bytes of characters in a row. -/
theorem utf8_append (cs ds : List Char) : utf8 (cs ++ ds) = utf8 cs ++ utf8 ds :=
  List.flatMap_append

theorem utf8_cons_ne_nil (c : Char) (cs : List Char) : utf8 (c :: cs) ≠ [] := by
  rw [utf8_cons]
  exact List.append_ne_nil_of_left_ne_nil String.utf8EncodeChar_ne_nil _

/-- The bytes of a text can be made into the text again. -/
theorem fromUTF8?_utf8 (s : String) : String.fromUTF8? (utf8 s.toList).toByteArray = some s := by
  have hbytes : (utf8 s.toList).toByteArray = s.toByteArray := String.utf8Encode_toList
  rw [hbytes]
  exact dif_pos s.isValidUTF8

/-- A high bit stays when others are set. -/
theorem le_or_of_le {m : UInt8} (hm : 0x80 ≤ m) (b : UInt8) : 0x80 ≤ b ||| m := by
  rw [UInt8.le_iff_toNat_le, UInt8.toNat_or]
  exact Nat.le_trans (UInt8.le_iff_toNat_le.1 hm) Nat.right_le_or

/-- The bytes of a character of several bytes all have the high bit. -/
theorem le_of_mem_utf8EncodeChar {c : Char} {b : UInt8} (hsize : c.utf8Size ≠ 1)
    (hmem : b ∈ String.utf8EncodeChar c) : 0x80 ≤ b := by
  have hlead : ∀ x : UInt8, 0x80 ≤ x ||| 0xc0 ∧ 0x80 ≤ x ||| 0xe0 ∧ 0x80 ≤ x ||| 0xf0 := fun x ↦
    ⟨le_or_of_le (by decide) x, le_or_of_le (by decide) x, le_or_of_le (by decide) x⟩
  have hnext : ∀ x : UInt8, 0x80 ≤ x ||| 0x80 := le_or_of_le (by decide)
  obtain hone | htwo | hthree | hfour := c.utf8Size_eq
  · exact absurd hone hsize
  · rw [String.utf8EncodeChar_eq_cons_cons htwo] at hmem
    exact List.forall_mem_cons.2 ⟨(hlead _).1, List.forall_mem_singleton.2 (hnext _)⟩ b hmem
  · rw [String.utf8EncodeChar_eq_cons_cons_cons hthree] at hmem
    exact List.forall_mem_cons.2 ⟨(hlead _).2.1, List.forall_mem_cons.2 ⟨hnext _,
      List.forall_mem_singleton.2 (hnext _)⟩⟩ b hmem
  · rw [String.utf8EncodeChar_eq_cons_cons_cons_cons hfour] at hmem
    exact List.forall_mem_cons.2 ⟨(hlead _).2.2, List.forall_mem_cons.2 ⟨hnext _,
      List.forall_mem_cons.2 ⟨hnext _, List.forall_mem_singleton.2 (hnext _)⟩⟩⟩ b hmem

/-- **A byte below 128 is a character of its own**, and no part of another one. -/
theorem eq_of_mem_utf8EncodeChar {c : Char} {b : UInt8} (hmem : b ∈ String.utf8EncodeChar c)
    (hlt : b < 0x80) : c = Char.ofUInt8 b := by
  by_cases hsize : c.utf8Size = 1
  · rw [String.utf8EncodeChar_eq_singleton hsize] at hmem
    cases List.mem_singleton.1 hmem
    have hle : c.val.toNat ≤ 127 := Char.utf8Size_eq_one_iff.1 hsize
    refine Char.ext (UInt32.toNat_inj.1 ?_)
    show c.val.toNat = c.val.toUInt8.toUInt32.toNat
    rw [UInt8.toNat_toUInt32, UInt32.toNat_toUInt8, Nat.mod_eq_of_lt (by omega)]
  · exact absurd hlt (UInt8.not_lt.2 (le_of_mem_utf8EncodeChar hsize hmem))

/-! ### Reading bytes -/

/-- The byte that an escape stands for. -/
def unescapeByte? (b : UInt8) : Option UInt8 :=
  if b = 0x6e then some 0x0a
  else if b = 0x74 then some 0x09
  else if b = 0x22 then some 0x22
  else if b = 0x5c then some 0x5c
  else none

/-- Reads a string behind its opening quote byte by byte: the bytes that it stands for, and the
bytes behind its closing quote. Of the former, `value` holds those found already, in reverse
order. -/
def stringBytes (value : List UInt8) : List UInt8 → Option (List UInt8 × List UInt8)
  | [] => none
  | b :: bs =>
    if b = 0x22 then some (value.reverse, bs)
    else if b = 0x5c then
      match bs with
      | [] => none
      | e :: bs =>
        match unescapeByte? e with
        | some v => stringBytes (v :: value) bs
        | none => none
    else stringBytes (b :: value) bs

/-- A quote ends the string. -/
theorem stringBytes_quote (value bs : List UInt8) :
    stringBytes value (0x22 :: bs) = some (value.reverse, bs) := by
  rw [stringBytes.eq_def]
  rfl

/-- Bytes other than those of the quote and the backslash are taken as they are. -/
theorem stringBytes_append {bs : List UInt8} (h : ∀ b ∈ bs, b ≠ 0x22 ∧ b ≠ 0x5c)
    (value rest : List UInt8) :
    stringBytes value (bs ++ rest) = stringBytes (bs.reverse ++ value) rest := by
  induction bs generalizing value with
  | nil => rfl
  | cons b bs ih =>
    obtain ⟨⟨hquote, hescape⟩, hbs⟩ := List.forall_mem_cons.1 h
    rw [List.cons_append, stringBytes.eq_def]
    simp only [if_neg hquote, if_neg hescape]
    rw [ih hbs, List.reverse_cons, List.append_assoc, List.singleton_append]

/-- A character that is neither quote nor backslash is taken as it is. -/
theorem stringBytes_plain {c : Char} (hquote : c ≠ '"') (hescape : c ≠ '\\')
    (value rest : List UInt8) :
    stringBytes value (String.utf8EncodeChar c ++ rest) =
      stringBytes ((String.utf8EncodeChar c).reverse ++ value) rest := by
  refine stringBytes_append (fun b hmem ↦ ⟨?_, ?_⟩) value rest
  · rintro rfl
    exact hquote (eq_of_mem_utf8EncodeChar hmem (by decide))
  · rintro rfl
    exact hescape (eq_of_mem_utf8EncodeChar hmem (by decide))

/-- A byte of a character that is no escape is no escape. -/
theorem unescapeByte?_eq_none {c : Char} (hc : unescape? c = none) {b : UInt8}
    (hmem : b ∈ String.utf8EncodeChar c) : unescapeByte? b = none := by
  have hne : ∀ e : UInt8, e < 0x80 → (unescape? (Char.ofUInt8 e)).isSome → b ≠ e := by
    rintro e he hsome rfl
    rw [← eq_of_mem_utf8EncodeChar hmem he, hc] at hsome
    cases hsome
  rw [unescapeByte?, if_neg (hne _ (by decide) rfl), if_neg (hne _ (by decide) rfl),
    if_neg (hne _ (by decide) rfl), if_neg (hne _ (by decide) rfl)]

/-- Behind a backslash, a character is looked up by its first byte. -/
theorem stringBytes_escape (c : Char) (value rest : List UInt8) :
    stringBytes value (0x5c :: (String.utf8EncodeChar c ++ rest)) = (unescape? c).bind fun v ↦
      stringBytes ((String.utf8EncodeChar v).reverse ++ value) rest := by
  rw [stringBytes.eq_def]
  cases hc : unescape? c with
  | none =>
    obtain ⟨b, bs, hbs⟩ := List.exists_cons_of_ne_nil (String.utf8EncodeChar_ne_nil (c := c))
    have hnone := unescapeByte?_eq_none hc (b := b) (by rw [hbs]; exact List.mem_cons_self)
    rw [hbs]
    simp [hnone]
  | some v =>
    unfold unescape? at hc
    split at hc <;> cases hc <;> rfl

theorem reverse_utf8_reverse_cons (c : Char) (cs : List Char) :
    (utf8 (c :: cs).reverse).reverse =
      (String.utf8EncodeChar c).reverse ++ (utf8 cs.reverse).reverse := by
  rw [List.reverse_cons, utf8_append, List.reverse_append, utf8_cons, utf8_nil, List.append_nil]

/-- **Reading bytes comes to the same as reading characters.** Here `cs` are the characters that are
left of `all`, behind the first `n`. -/
theorem stringBytes_utf8 {all front : List Char} {n : Nat} {cs : List Char} (h : all.drop n = cs) :
    stringBytes (utf8 front.reverse).reverse (utf8 cs) =
      (stringBody front n cs).toOption.map fun r ↦ (utf8 r.1.toList, utf8 (all.drop r.2)) := by
  induction front, n, cs using stringBody.induct with
  | case1 front n cs =>
    have htail : all.drop (n + 1) = cs := by rw [← List.tail_drop, h, List.tail_cons]
    show stringBytes _ (0x22 :: utf8 cs) = _
    rw [stringBytes_quote, List.reverse_reverse, stringBody]
    show _ = some (utf8 (String.ofList front.reverse).toList, utf8 (all.drop (n + 1)))
    rw [String.toList_ofList, htail]
  | case2 front n c cs v hv ih =>
    have htail : all.drop (n + 2) = cs := by
      rw [← List.tail_drop, ← List.tail_drop, h, List.tail_cons, List.tail_cons]
    show stringBytes _ (0x5c :: (String.utf8EncodeChar c ++ utf8 cs)) = _
    rw [stringBytes_escape, hv, Option.bind_some, ← reverse_utf8_reverse_cons, ih htail,
      stringBody, hv]
  | case3 front n c cs hv =>
    show stringBytes _ (0x5c :: (String.utf8EncodeChar c ++ utf8 cs)) = _
    rw [stringBytes_escape, hv, stringBody, hv]
    rfl
  | case4 front n => rfl
  | case5 front n c cs hquote hescape hlast ih =>
    have htail : all.drop (n + 1) = cs := by rw [← List.tail_drop, h, List.tail_cons]
    have hplain := ne_backslash hescape hlast
    rw [utf8_cons, stringBytes_plain hquote hplain, ← reverse_utf8_reverse_cons, ih htail,
      stringBody_cons hquote hplain]
  | case6 front n => rfl

/-- A text that is made of the bytes that a string stands for, if they are the bytes of a text at
all, and the bytes behind the string. -/
def stringFromBytes (bs : List UInt8) : Option (Option String × List UInt8) :=
  (stringBytes [] bs).map fun r ↦ (String.fromUTF8? r.1.toByteArray, r.2)

/-- **The bytes of a string are those of a text**, the one that the scanner gives. -/
theorem stringFromBytes_utf8 (cs : List Char) :
    stringFromBytes (utf8 cs) =
      (stringBody [] 0 cs).toOption.map fun r ↦ (some r.1, utf8 (cs.drop r.2)) := by
  have hbytes := @stringBytes_utf8 cs [] 0 cs List.drop_zero
  rw [List.reverse_nil, utf8_nil, List.reverse_nil] at hbytes
  rw [stringFromBytes, hbytes, Option.map_map]
  simp only [Function.comp_def, fromUTF8?_utf8]

/-- **Every encoding of a text is scanned to it, whatever is scanned to a text is an encoding of
it**, and a reader of bytes finds the same strings. -/
theorem string_literals :
    (∀ v text : String, Encodes v.toList text.toList →
      scan (inQuotes text) = .ok [⟨.literal (.str v), inQuotes text, .start⟩,
        ⟨.endOfInput, "", Position.start.afterAll (inQuotes text).toList⟩]) ∧
    (∀ (source : String) (ts : List Token), scan source = .ok ts → ∀ t ∈ ts, ∀ v : String,
      t.kind = .literal (.str v) →
        ∃ text, t.lexeme = inQuotes text ∧ Encodes v.toList text.toList) ∧
    ∀ cs : List Char, stringFromBytes (utf8 cs) =
      (stringBody [] 0 cs).toOption.map fun r ↦ (some r.1, utf8 (cs.drop r.2)) :=
  ⟨fun _ _ ↦ scan_inQuotes, fun _ _ h _ ht _ hv ↦ encodes_of_mem_scan h ht hv,
    stringFromBytes_utf8⟩

end SafariScript
