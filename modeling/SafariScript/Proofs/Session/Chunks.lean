import SafariScript.Proofs.Grammar.Joined
import SafariScript.Session.Interactive

/-!
# Chunks of lines

The lines of an interactive session are gathered into chunks (`Interactive.chunks`). Nothing is lost
in this: when no line is left over, the chunks joined by line feeds are the lines joined by line
feeds (`Interactive.intercalate_chunks`).

A chunk that can be scanned is no command, since no token begins with a colon, and if it is blank
then it holds no token (`Interactive.chunk_of_scan`). If each chunk is read as a program, then the
chunks joined by line feeds are read as one program: that of the chunks one after the other, up to
places (`readAs_intercalate`).
-/

namespace SafariScript

open Token

/-! ### Gathering lines -/

namespace Interactive

/-- What is pending with a further line. -/
def gather (pending text : String) : String :=
  if pending.isEmpty then text else pending ++ "\n" ++ text

/-- The chunks that are complete when lines come to what is pending, and what is pending then. -/
def chunks : (pending : String) → List String → List String × String
  | pending, [] => ([], pending)
  | pending, text :: texts =>
    let text := gather pending text
    if isComplete text then (text :: (chunks "" texts).1, (chunks "" texts).2)
    else chunks text texts

theorem line_eq (text : String) (i : Interactive) :
    i.line text = if isComplete (gather i.pending text)
      then chunk (gather i.pending text) { i with pending := "" }
      else (true, { i with pending := gather i.pending text }) := rfl

/-- What is not complete is not empty. -/
theorem isEmpty_of_not_isComplete {text : String} (h : ¬ isComplete text = true) :
    text.isEmpty = false := by
  rw [Bool.eq_false_iff]
  intro hempty
  rw [String.isEmpty_iff.1 hempty] at h
  exact h (by decide)

/-- What is pending, as a line before the others. -/
def lead (pending : String) (texts : List String) : List String :=
  if pending.isEmpty then texts else pending :: texts

theorem intercalate_lead (pending text : String) (texts : List String) :
    "\n".intercalate (lead pending (text :: texts)) =
      "\n".intercalate (gather pending text :: texts) := by
  unfold lead gather
  split
  · rfl
  · cases texts with
    | nil => rw [String.intercalate_cons_cons, String.intercalate_singleton,
        String.intercalate_singleton]
    | cons next texts => simp only [String.intercalate_cons_cons, String.append_assoc]

theorem lead_eq_nil_of_chunks {pending : String} {texts : List String}
    (h : chunks pending texts = ([], "")) : lead pending texts = [] := by
  induction texts generalizing pending with
  | nil =>
    cases h
    rfl
  | cons text texts ih =>
    rw [chunks] at h
    split at h
    · cases h
    · next hopen =>
      have hlead := ih h
      rw [lead, isEmpty_of_not_isComplete hopen] at hlead
      cases hlead

/-- When no line is left over, no line is lost. -/
theorem intercalate_chunks {pending : String} {texts cs : List String}
    (h : chunks pending texts = (cs, "")) :
    "\n".intercalate (lead pending texts) = "\n".intercalate cs := by
  induction texts generalizing pending cs with
  | nil =>
    cases h
    rfl
  | cons text texts ih =>
    rw [intercalate_lead]
    rw [chunks] at h
    split at h
    · obtain ⟨hcs, hrest⟩ := Prod.mk.inj h
      have hchunks : chunks "" texts = ((chunks "" texts).1, "") := Prod.ext rfl hrest
      have hjoin : "\n".intercalate texts = "\n".intercalate (chunks "" texts).1 := ih hchunks
      rw [← hcs]
      cases texts with
      | nil => rfl
      | cons next texts =>
        cases hc : (chunks "" (next :: texts)).1 with
        | nil =>
          rw [hc] at hchunks
          -- Lines that are left belong to some chunk.
          cases lead_eq_nil_of_chunks hchunks
        | cons c cs' =>
          rw [hc] at hjoin
          rw [String.intercalate_cons_cons, String.intercalate_cons_cons, hjoin]
    · next hopen =>
      have hlead : lead (gather pending text) texts = gather pending text :: texts := by
        rw [lead, isEmpty_of_not_isComplete hopen]
        rfl
      rw [← hlead]
      exact ih h

end Interactive

/-! ### Blank chunks and commands -/

/-- No number and no word begins with a blank character. -/
theorem isBlank_of_isWordPart {c : Char} (h : isWordPart c = true) : Text.isBlank c = false := by
  rw [Bool.eq_false_iff]
  intro hblank
  have hdigits : '0'.val.toNat = 48 ∧ '9'.val.toNat = 57 := by decide
  have hletters : ('a'.val.toNat = 97 ∧ 'z'.val.toNat = 122) ∧
      'A'.val.toNat = 65 ∧ 'Z'.val.toNat = 90 := by decide
  have htoNat : c.toNat = c.val.toNat := rfl
  simp only [isWordPart, isWordStart, Text.isDigit, Text.isBlank, Bool.or_eq_true,
    Bool.and_eq_true, decide_eq_true_eq, beq_iff_eq, Char.le_def, UInt32.le_iff_toNat_le]
    at h hblank
  obtain ((hsmall | hcapital) | rfl) | hdigit := h
  · omega
  · omega
  · revert hblank
    decide
  · omega

/-- No symbol begins with a blank character. -/
theorem isBlank_of_symbol {c : Char} {cs : List Char} {r : Piece × Nat}
    (h : symbol c cs = .ok r) : Text.isBlank c = false := by
  unfold symbol at h
  split at h
  · next s hpair =>
    obtain ⟨d, -, hd⟩ := Option.bind_eq_some_iff.1 hpair
    unfold pair? at hd
    split at hd <;> first | rfl | cases hd
  · next hpair =>
    split at h
    · next s hsingle =>
      unfold single? at hsingle
      split at hsingle <;> first | rfl | cases hsingle
    · split at h <;> cases h

/-- A blank character is skipped by the scanner or refused. -/
theorem isSpace_of_isBlank {c : Char} {cs : List Char} {r : Piece × Nat}
    (hc : Text.isBlank c = true) (h : piece c cs = .ok r) : isSpace c = true := by
  have hpiece := pieceAt_iff.2 h
  generalize hr : (.ok r : Except Flaw (Piece × Nat)) = x at hpiece
  cases hpiece with
  | space hspace => exact hspace
  | lineComment | blockComment | openComment | string | badString => cases hc
  | number hdigit =>
    have hpart : isWordPart c = true := by rw [isWordPart, hdigit, Bool.or_true]
    rw [isBlank_of_isWordPart hpart] at hc
    cases hc
  | word hword =>
    have hpart : isWordPart c = true := by rw [isWordPart, hword, Bool.true_or]
    rw [isBlank_of_isWordPart hpart] at hc
    cases hc
  | symbol =>
    rw [isBlank_of_symbol hr.symm] at hc
    cases hc

theorem piece_colon (cs : List Char) :
    piece ':' cs = .error (.atFront (.unexpectedCharacter ':') 1) := by
  cases cs <;> rfl

/-- Blank characters at the front of a text that can be scanned are skipped. -/
theorem isSpace_of_scanFrom {found : List Token} {p : Position} {blanks cs : List Char}
    {ts : List Token} (hblanks : ∀ c ∈ blanks, Text.isBlank c = true)
    (h : scanFrom found p (blanks ++ cs) = .ok ts) : ∀ c ∈ blanks, isSpace c = true := by
  induction blanks generalizing p with
  | nil => exact nofun
  | cons c blanks ih =>
    obtain ⟨hc, hrest⟩ := List.forall_mem_cons.1 hblanks
    have hspace : isSpace c = true := by
      cases hp : piece c (blanks ++ cs) with
      | ok r => exact isSpace_of_isBlank hc hp
      | error flaw =>
        rw [List.cons_append, scanFrom, hp] at h
        cases h
    rw [List.cons_append, scanFrom_space found p hspace] at h
    exact List.forall_mem_cons.2 ⟨hspace, ih hrest h⟩

/-- What is left of a text behind the blank characters at its front begins as the trimmed text. -/
theorem trimChars_prefix (cs : List Char) : Text.trimChars cs <+: cs.dropWhile Text.isBlank := by
  have hsuffix : (cs.dropWhile Text.isBlank).reverse.dropWhile Text.isBlank <:+
      (cs.dropWhile Text.isBlank).reverse := List.dropWhile_suffix _
  have h := List.reverse_prefix.2 hsuffix
  rwa [List.reverse_reverse] at h

theorem forall_of_dropWhile_eq_nil {p : Char → Bool} {cs : List Char} (h : cs.dropWhile p = []) :
    ∀ c ∈ cs, p c = true := by
  have hcs := List.takeWhile_append_dropWhile (p := p) (l := cs)
  rw [h, List.append_nil] at hcs
  rw [← hcs]
  exact List.all_eq_true.1 List.all_takeWhile

theorem isBlank_of_trimChars_eq_nil {cs : List Char} (h : Text.trimChars cs = []) :
    ∀ c ∈ cs, Text.isBlank c = true := by
  have hrest : ∀ c ∈ cs.dropWhile Text.isBlank, Text.isBlank c = true := by
    rw [Text.trimChars, List.reverse_eq_nil_iff] at h
    exact fun c hc ↦ forall_of_dropWhile_eq_nil h c (List.mem_reverse.2 hc)
  intro c hc
  rw [← List.takeWhile_append_dropWhile (p := Text.isBlank) (l := cs)] at hc
  obtain hc | hc := List.mem_append.1 hc
  · exact List.all_eq_true.1 List.all_takeWhile c hc
  · exact hrest c hc

/-- A blank text that can be scanned holds no token. -/
theorem scan_of_trimChars_eq_nil {source : String} {ts : List Token} (h : scan source = .ok ts)
    (htrim : Text.trimChars source.toList = []) : ∃ p, ts = [⟨.endOfInput, "", p⟩] := by
  have hblank := isBlank_of_trimChars_eq_nil htrim
  rw [scan, ← List.append_nil source.toList] at h
  rw [scanFrom_spaces [] _ (isSpace_of_scanFrom hblank h), scanFrom] at h
  cases h
  exact ⟨_, rfl⟩

/-- A text that can be scanned is no command. -/
theorem trimChars_ne_colon {source : String} {ts : List Token} (h : scan source = .ok ts)
    (cs : List Char) : Text.trimChars source.toList ≠ ':' :: cs := by
  intro htrim
  obtain ⟨more, hmore⟩ := trimChars_prefix source.toList
  rw [htrim, List.cons_append] at hmore
  have htext := List.takeWhile_append_dropWhile (p := Text.isBlank) (l := source.toList)
  have hblank : ∀ c ∈ source.toList.takeWhile Text.isBlank, Text.isBlank c = true :=
    List.all_eq_true.1 List.all_takeWhile
  rw [← hmore] at htext
  rw [scan, ← htext] at h
  rw [scanFrom_spaces [] _ (isSpace_of_scanFrom hblank h), scanFrom, piece_colon] at h
  cases h

/-- How a session handles a chunk that can be scanned: if it is blank then nothing happens, and it
has no token; otherwise it is a script. -/
theorem Interactive.chunk_of_scan {source : String} {ts : List Token} (h : scan source = .ok ts)
    (i : Interactive) :
    (i.chunk source = (true, i) ∧ ∃ p, ts = [⟨.endOfInput, "", p⟩]) ∨
      i.chunk source = (true, i.script source) := by
  unfold Interactive.chunk
  split
  · next htrim => exact .inl ⟨rfl, scan_of_trimChars_eq_nil h htrim⟩
  · next cs htrim => exact absurd htrim (trimChars_ne_colon h cs)
  · exact .inr rfl

/-! ### Reading chunks -/

/-- The source is read as the program. -/
def ReadAs (source : String) (program : Program) : Prop :=
  ∃ ts, scan source = .ok ts ∧ Program.ofTokens ts = .ok program

instance (source : String) : Decidable (∃ program, ReadAs source program) :=
  match hscan : scan source with
  | .error _ => .isFalse fun ⟨_, _, h, _⟩ ↦ nomatch hscan.symm.trans h
  | .ok ts =>
    match hparse : Program.ofTokens ts with
    | .ok program => .isTrue ⟨program, ts, hscan, hparse⟩
    | .error _ => .isFalse fun ⟨_, ts', h, h'⟩ ↦ by
      cases hscan.symm.trans h
      cases hparse.symm.trans h'

/-- The tokens before the mark of the end are those that are read. -/
theorem readAs_iff {source : String} {program : Program} : ReadAs source program ↔
    ∃ init last, scan source = .ok (init ++ [last]) ∧ (∀ t ∈ init, t.kind ≠ .endOfInput) ∧
      last.kind = .endOfInput ∧ Program.Derives init program := by
  constructor
  · rintro ⟨ts, hscan, hparse⟩
    obtain ⟨init, last, rfl, hinit, hlast⟩ := ended_of_scan hscan
    rw [Program.ofTokens_eq_ok_iff, takeWhile_not_isEnd hinit hlast] at hparse
    exact ⟨init, last, hscan, hinit, hlast, hparse⟩
  · rintro ⟨init, last, hscan, hinit, hlast, hderives⟩
    refine ⟨_, hscan, ?_⟩
    rwa [Program.ofTokens_eq_ok_iff, takeWhile_not_isEnd hinit hlast]

/-- A source without tokens is the program without statements. -/
theorem ReadAs.eq_nil {source : String} {program : Program} {p : Position}
    (h : ReadAs source program) (hscan : scan source = .ok [⟨.endOfInput, "", p⟩]) :
    program = [] := by
  obtain ⟨ts, hts, hparse⟩ := h
  cases hscan.symm.trans hts
  have hnone : Program.ofTokens [⟨.endOfInput, "", p⟩] = .ok [] :=
    Program.ofTokens_eq_ok_iff.2 .nil
  exact (Except.ok.inj (hnone.symm.trans hparse)).symm

/-- Behind another source, a source is read as before up to places. -/
theorem ReadAs.joined {s₁ s₂ : String} {p₁ p₂ : Program} (h₁ : ReadAs s₁ p₁) (h₂ : ReadAs s₂ p₂) :
    ∃ p₂', ReadAs (s₁ ++ "\n" ++ s₂) (p₁ ++ p₂') ∧ p₂'.map Stmt.bare = p₂.map Stmt.bare := by
  obtain ⟨init₁, last₁, hscan₁, hinit₁, -, hderives₁⟩ := readAs_iff.1 h₁
  obtain ⟨init₂, last₂, hscan₂, hinit₂, hlast₂, hderives₂⟩ := readAs_iff.1 h₂
  have hscan := scan_append_newline hscan₁ hscan₂
  have hmoved := relocates_moved (s₁.toList.count '\n' + 1) (s₁.utf8ByteSize + 1)
  rw [List.dropLast_concat, List.map_append, ← List.append_assoc] at hscan
  refine ⟨_, readAs_iff.2 ⟨_, _, hscan, ?_, (hmoved.kind last₂).trans hlast₂,
    hderives₁.append (hderives₂.map hmoved)⟩, ?_⟩
  · intro t ht
    obtain ht | ht := List.mem_append.1 ht
    · exact hinit₁ t ht
    · obtain ⟨u, hu, rfl⟩ := List.mem_map.1 ht
      exact hinit₂ u hu
  · rw [List.map_map]
    exact List.map_congr_left fun s _ ↦ s.bare_mapSpans _

/-- The program is that of the sources one after the other, up to places. -/
inductive ReadInTurn : List String → Program → Prop
  | nil : ReadInTurn [] []
  | cons {source : String} {sources : List String} {p p' q : Program} : ReadAs source p →
    p'.map Stmt.bare = p.map Stmt.bare → ReadInTurn sources q →
    ReadInTurn (source :: sources) (p' ++ q)

theorem ReadInTurn.of_bare_eq {sources : List String} {q q' : Program} (h : ReadInTurn sources q)
    (hq : q'.map Stmt.bare = q.map Stmt.bare) : ReadInTurn sources q' := by
  induction h generalizing q' with
  | nil =>
    rw [List.map_nil, List.map_eq_nil_iff] at hq
    subst hq
    exact .nil
  | cons hp hbare hrest ih =>
    rw [List.map_append, List.map_eq_append_iff] at hq
    obtain ⟨p₁, q₁, rfl, hp₁, hq₁⟩ := hq
    exact .cons hp (hp₁.trans hbare) (ih hq₁)

/-- **Chunks are read in turn.** If sources are each read as a program, then all of them joined by
line feeds are read as the program of the one after the other, up to places. -/
theorem readAs_intercalate {sources : List String} (h : ∀ s ∈ sources, ∃ p, ReadAs s p) :
    ∃ q, ReadAs ("\n".intercalate sources) q ∧ ReadInTurn sources q := by
  induction sources with
  | nil =>
    have hscan : scan "" = .ok [⟨.endOfInput, "", .start⟩] := by with_unfolding_all rfl
    exact ⟨[], ⟨_, hscan, Program.ofTokens_eq_ok_iff.2 .nil⟩, .nil⟩
  | cons s sources ih =>
    obtain ⟨⟨p, hp⟩, hsources⟩ := List.forall_mem_cons.1 h
    obtain ⟨q, hq, hturn⟩ := ih hsources
    cases sources with
    | nil =>
      rw [String.intercalate_singleton]
      exact ⟨p, hp, by simpa using ReadInTurn.cons hp rfl .nil⟩
    | cons next sources =>
      obtain ⟨q', hjoined, hbare⟩ := hp.joined hq
      rw [String.intercalate_cons_cons]
      exact ⟨p ++ q', hjoined, .cons hp rfl (hturn.of_bare_eq hbare)⟩

end SafariScript
