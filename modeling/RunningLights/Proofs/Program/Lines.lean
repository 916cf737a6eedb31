import RunningLights.Proofs.Program.Lookahead

/-!
# Programs set out in lines

A program is set out from its pieces, with blanks between them.  A statement ends with a semicolon or with its line.

* `IsStatement`, `IsHead`, `IsInner` — what may be written as a statement, a head or the group of a header;
* `SetOut` — the texts of pieces;
* `IsStatement.shows_semicolon`, `IsStatement.shows_line`, `IsStatement.shows_lost`, `IsInner.shows`, `IsHead.shows` —
  the reader finds each piece where it is written.
-/

namespace RunningLights

open Procedure Text

namespace Procedure

/-! ### Texts in front of others -/

section Append

variable {cs rest : List Char}

theorem trimLeft_append (h : trimLeft cs ≠ []) (rest : List Char) : trimLeft (cs ++ rest) = trimLeft cs ++ rest := by
  have hempty : ¬ (cs.dropWhile isBlank).isEmpty = true := by rwa [List.isEmpty_iff]
  rw [trimLeft, List.dropWhile_append, if_neg hempty, trimLeft]

/-- A text starts with a keyword also in front of a text that does not go on with its last word. -/
theorem comesNext_append {k : String} (hk : ∀ c ∈ k.toList, Token.isNameChar c = true) (hne : trimLeft cs ≠ [])
    (hrest : Token.startsWith Token.isNameChar rest = false) : comesNext k (cs ++ rest) = comesNext k cs := by
  rw [Bool.eq_iff_iff, comesNext_iff, comesNext_iff, trimLeft_append hne]
  constructor
  · rintro ⟨ds, hds, hend⟩
    rcases List.append_eq_append_iff.1 hds with ⟨es, hword, hes⟩ | ⟨es, hcs, rfl⟩
    · cases es with
      | nil => exact ⟨[], by simpa using hword.symm, rfl⟩
      | cons c es =>
        have hc : Token.isNameChar c = true := hk c (by simp [hword])
        rw [hes, List.cons_append, Token.startsWith, hc] at hrest
        cases hrest
    · refine ⟨es, hcs, ?_⟩
      cases es with
      | nil => rfl
      | cons c es => exact hend
  · rintro ⟨ds, hds, hend⟩
    refine ⟨ds ++ rest, by rw [hds, List.append_assoc], ?_⟩
    cases ds with
    | nil => exact hrest
    | cons c ds => exact hend

theorem chars_of_mem_blockWords : ∀ k ∈ blockWords, ∀ c ∈ k.toList, Token.isNameChar c = true := by decide

theorem Plain.ne_nil (h : Plain cs) : trimLeft cs ≠ [] := by
  obtain ⟨c, ds, hcs, -⟩ := h.head
  simp [hcs]

theorem Plain.append (h : Plain cs) (hrest : Token.startsWith Token.isNameChar rest = false) : Plain (cs ++ rest) where
  head := by
    obtain ⟨c, ds, hcs, hc⟩ := h.head
    exact ⟨c, ds ++ rest, by rw [trimLeft_append h.ne_nil, hcs, List.cons_append], hc⟩
  words := fun k hk => by
    rw [comesNext_append (chars_of_mem_blockWords k hk) h.ne_nil hrest]
    exact h.words k hk

/-- A text that starts with a word that starts no block. -/
theorem plain_of_headed {w : String} (h : Headed w (cs ++ rest)) (hw : w ∉ blockWords) (hs : Solid cs)
    (hrest : Token.startsWith Token.isNameChar rest = false) : Plain cs := by
  obtain ⟨c, ds, hcs, hc⟩ := h.head
  obtain ⟨d, es, rfl, hd⟩ := hs.head
  obtain ⟨rfl, -⟩ := List.cons.inj hcs
  have htrim : trimLeft (d :: es) = d :: es := trimLeft_cons hd es
  refine ⟨⟨d, es, htrim, not_mem_of_class (by decide) hc⟩, fun k hk => ?_⟩
  rw [← comesNext_append (chars_of_mem_blockWords k hk) (by simp [htrim]) hrest]
  exact h.comesNext (chars_of_mem_blockWords k hk) fun heq => hw (heq ▸ hk)

end Append

/-! ### What pieces are written as -/

/-- The text of a statement, without its semicolon. -/
structure IsStatement (cs : List Char) : Prop where
  solid : Solid cs
  plain : Plain cs
  passes : passesStatement cs
  /-- There is no brace outside of parentheses but that of a value. -/
  value : passesHead cs ∨ opensValue cs

/-- The text of a head before its brace. -/
structure IsHead (cs : List Char) : Prop where
  solid : Solid cs
  plain : Plain cs
  passes : passesHead cs
  closed : endsOpen cs = false

/-- The text between the parentheses of a header. -/
structure IsInner (cs : List Char) : Prop where
  ends : splitGroup 0 (cs ++ [')']) = some (cs, [])
  passes : passesHead ('(' :: (cs ++ [')']))

/-- The text is set out from the pieces.  A statement that ends with its line has to look complete. -/
inductive SetOut : List Piece → List Char → Prop
  | nil : SetOut [] []
  | blank {ps : List Piece} {c : Char} {rest : List Char} : isBlank c = true → SetOut ps rest → SetOut ps (c :: rest)
  | ended {ps : List Piece} {cs rest : List Char} : IsStatement cs → SetOut ps rest →
      SetOut (.statement cs true :: ps) (cs ++ ';' :: rest)
  | line {ps : List Piece} {cs rest : List Char} : IsStatement cs → isComplete cs.reverse → endsLine rest →
      SetOut ps rest → SetOut (.statement cs false :: ps) (cs ++ rest)
  | header {ps : List Piece} {w : HeaderWord} {blanks inner rest : List Char} : (∀ c ∈ blanks, isBlank c = true) →
      IsInner inner → SetOut ps rest →
      SetOut (.header w inner :: ps) (w.text.toList ++ (blanks ++ '(' :: (inner ++ ')' :: rest)))
  | alternative {ps : List Piece} {c : Char} {rest : List Char} : isCalleeChar c = false → SetOut ps (c :: rest) →
      SetOut (.alternative :: ps) ("else".toList ++ c :: rest)
  | doStart {ps : List Piece} {c : Char} {rest : List Char} : isCalleeChar c = false → SetOut ps (c :: rest) →
      SetOut (.doStart :: ps) ("do".toList ++ c :: rest)
  | named {ps : List Piece} {head blanks rest : List Char} : IsHead head → (∀ c ∈ blanks, isBlank c = true) →
      SetOut ps rest → SetOut (.named head :: ps) (head ++ (blanks ++ '\x7b' :: rest))
  | opening {ps : List Piece} {rest : List Char} : SetOut ps rest → SetOut (.opening :: ps) ('\x7b' :: rest)
  | closing {ps : List Piece} {rest : List Char} : SetOut ps rest → SetOut (.closing :: ps) ('\x7d' :: rest)
  | semicolon {ps : List Piece} {rest : List Char} : SetOut ps rest → SetOut (.semicolon :: ps) (';' :: rest)

theorem SetOut.of_isQuiet {ps : List Piece} {source : String} (h : SetOut ps source.toList)
    (hq : isQuiet source.toList) : SetOut ps (blankComments source.toList) := by
  rwa [blankComments_of_isQuiet hq]

theorem IsInner.of_nested {p : Char → Prop} {cs : List Char} (h : Nested p cs) : IsInner cs where
  ends := splitGroup_of_nested h []
  passes := by
    have hparens : Nested (· ∉ stops) ('(' :: cs ++ ')' :: []) := .parens (h.mono fun _ _ _ => trivial) .nil
    exact hparens.passesHead fun _ => Reader.endsHead_eq_false (by decide)

end Procedure

section Written

variable {cs : List Char}

/-- A text without semicolons, braces and line ends outside of brackets is a statement, a declaration say. -/
theorem Procedure.IsStatement.of_tame {w : String} (hw : Headed w (cs ++ [';'])) (hword : w ∉ blockWords)
    (hs : Solid cs) (ht : Tame (· ∉ stops) cs) : IsStatement cs where
  solid := hs
  plain := plain_of_headed hw hword hs rfl
  passes := ht.nested.passesStatement fun _ => endsStatement_eq_false (by decide)
  value := .inl (ht.nested.passesHead fun _ => Reader.endsHead_eq_false (by decide))

theorem Phrase.isStatement {commands : List Command} (h : Phrase cs commands) : IsStatement cs := by
  obtain ⟨w, hw, hword⟩ := h.headed
  exact .of_tame hw hword h.solid h.tame

theorem HeadPhrase.isHead {opener : Command} (h : HeadPhrase cs opener) : IsHead cs where
  solid := h.solid
  plain := by
    obtain ⟨w, hw, hword⟩ := h.headed
    rw [← List.append_nil cs] at hw
    exact plain_of_headed hw hword h.solid rfl
  passes := h.tame.nested.passesHead fun _ => Reader.endsHead_eq_false (by decide)
  closed := by
    rcases h.reads with ⟨l, hl, -⟩ | ⟨-, f, hf, -⟩
    · exact endsOpen_of_lambdaHead hl
    · exact endsOpen_of_functionHead hf

end Written

namespace Procedure

/-! ### The text shows its pieces -/

section Pieces

variable {ps : List Piece} {cs rest : List Char}

theorem IsHead.clear (h : IsHead cs) : Clear cs := ⟨h.passes, h.closed⟩

theorem HeaderWord.chars (w : HeaderWord) : ∀ c ∈ w.text.toList, Token.isNameChar c = true := by
  cases w <;> decide

theorem IsInner.clear (h : IsInner cs) : Clear ('(' :: (cs ++ [')'])) where
  passes := h.passes
  ends := by
    have happend : '(' :: (cs ++ [')']) = ('(' :: cs) ++ [')'] := rfl
    rw [happend, endsOpen, lastInk_append]
    rfl

theorem isNameChar_of_isBlank {c : Char} (h : isBlank c = true) : Token.isNameChar c = false := by
  have hc := Reader.isCalleeChar_of_isBlank h
  rw [isCalleeChar, Bool.or_eq_false_iff] at hc
  exact hc.1

/-- A line that ends goes on with no word. -/
theorem startsWith_of_endsLine (h : endsLine rest) : Token.startsWith Token.isNameChar rest = false := by
  cases rest with
  | nil => rfl
  | cons c rest =>
    have hblank : isBlank c = true := by
      rw [endsLine, Bool.or_eq_true, Bool.and_eq_true, beq_iff_eq] at h
      rcases h with rfl | h
      · decide
      · exact h.1
    exact isNameChar_of_isBlank hblank

theorem length_lt_of_solid (h : Solid cs) (rest : List Char) : rest.length < (trimLeft (cs ++ rest)).length := by
  have hpos : 0 < cs.length := List.length_pos_of_ne_nil h.ne_nil
  rw [h.trimLeft, List.length_append]
  omega

/-- From a statement with a semicolon no brace is found. -/
theorem IsStatement.behindHead?_semicolon (h : IsStatement cs) (rest : List Char) :
    behindHead? (cs ++ ';' :: rest) = none := by
  rcases h.value with hpass | hvalue
  · exact behindHead?_of_ends hpass rfl (by decide) rest
  · exact behindHead?_of_opensValue hvalue _

theorem IsStatement.shows_semicolon (h : IsStatement cs) (ended : Bool) (hs : Shows ps rest) :
    Shows (.statement cs ended :: ps) (cs ++ ';' :: rest) := by
  have hlt := length_lt_of_solid h.solid (';' :: rest)
  rw [List.length_cons] at hlt
  refine .statement (h.plain.append rfl) (by omega) (fun blocks before => ?_) hs
  rw [h.solid.trimLeft, Reader.readPlain_of_statement (h.behindHead?_semicolon rest),
    Reader.readStatement_of_semicolon h.solid h.passes]

/-- A statement that ends with its line, if no brace is found from there. -/
theorem IsStatement.shows_line (h : IsStatement cs) (hc : isComplete cs.reverse) (hl : endsLine rest)
    (hnone : behindHead? (cs ++ rest) = none) (hs : Shows ps rest) :
    Shows (.statement cs false :: ps) (cs ++ rest) := by
  have hlt := length_lt_of_solid h.solid rest
  obtain ⟨rest', htrim, hlen, hread⟩ := Reader.exists_readStatement_of_line h.solid h.passes hc hl
  refine .statement (h.plain.append (startsWith_of_endsLine hl)) (Nat.lt_of_le_of_lt hlen hlt) (fun blocks before => ?_)
    (hs.congr htrim.symm)
  rw [h.solid.trimLeft, Reader.readPlain_of_statement hnone, hread]

/-- A statement from which a brace is found is part of a head. -/
theorem IsStatement.shows_lost (h : IsStatement cs) (hl : endsLine rest) {inside : List Char}
    (hsome : behindHead? (cs ++ rest) = some inside) (hs : Shows ps inside) :
    ∃ head, Shows (.named head :: ps) (cs ++ rest) := by
  obtain ⟨head, hsplit, hends⟩ := behindHead?_eq_some hsome
  have hplain := h.plain.append (startsWith_of_endsLine hl)
  have htrim := h.solid.trimLeft rest
  have htext : head ++ '\x7b' :: inside = cs ++ rest := by
    have heq := splitHead_eq 0 (cs ++ rest)
    rwa [hsplit] at heq
  have hvalue : Reader.isOpenValue (trim head) = false := by
    obtain ⟨c, ds, hcs, hc⟩ := hplain.head
    rw [htrim, ← htext] at hcs
    cases head with
    | nil =>
      obtain ⟨rfl, -⟩ := List.cons.inj hcs
      exact absurd (by decide) hc
    | cons d head =>
      have hd : isBlank d = false := by
        obtain ⟨e, es, hes, he⟩ := h.solid.head
        rw [hes] at htext
        exact (List.cons.inj htext).1 ▸ he
      exact (isOpenValue_trim_eq_false List.mem_cons_self hd).2 hends
  refine ⟨head, .named hplain ?_ (fun blocks before => ?_) hs⟩
  · rw [htrim, ← htext, List.length_append, List.length_cons]
    omega
  · rw [htrim, Reader.readPlain_of_brace hsplit hvalue]

theorem IsInner.taken (h : IsInner cs) (rest : List Char) : splitGroup 0 (cs ++ ')' :: rest) = some (cs, rest) := by
  have happend := splitGroup_append h.ends rest
  rwa [List.append_assoc] at happend

theorem IsInner.shows (h : IsInner cs) (w : HeaderWord) {blanks : List Char} (hb : ∀ c ∈ blanks, isBlank c = true)
    (hs : Shows ps rest) :
    Shows (.header w cs :: ps) (w.text.toList ++ (blanks ++ '(' :: (cs ++ ')' :: rest))) := by
  have hheaded : Headed w.text (w.text.toList ++ (blanks ++ '(' :: (cs ++ ')' :: rest))) := by
    refine ⟨w.chars, by cases w <;> decide, ?_⟩
    cases blanks with
    | nil => exact ⟨'(', _, rfl, by decide⟩
    | cons c bs => exact ⟨c, _, rfl, Reader.isCalleeChar_of_isBlank (hb c List.mem_cons_self)⟩
  have hgroup : group (blanks ++ '(' :: (cs ++ ')' :: rest)) = (some cs, rest) := by
    have htrim : trimLeft (blanks ++ '(' :: (cs ++ ')' :: rest)) = '(' :: (cs ++ ')' :: rest) :=
      trimLeft_append_of_blank hb _
    rw [group, htrim]
    simp only [h.taken]
  refine .header (hheaded.trimLeft.symm ▸ hheaded) ?_ ?_ hs
  · rw [Reader.dropKeyword_append hheaded, hgroup]
  · rw [hheaded.trimLeft]
    simp only [List.length_append, List.length_cons]
    omega

theorem IsHead.shows (h : IsHead cs) {blanks : List Char} (hb : ∀ c ∈ blanks, isBlank c = true) (hs : Shows ps rest) :
    Shows (.named cs :: ps) (cs ++ (blanks ++ '\x7b' :: rest)) := by
  have htrim := h.solid.trimLeft (blanks ++ '\x7b' :: rest)
  have hclear := h.clear.append (Clear.blanks hb)
  have hsplit : splitHead 0 (cs ++ (blanks ++ '\x7b' :: rest)) = (cs ++ blanks, '\x7b' :: rest) := by
    rw [← List.append_assoc, splitHead_append hclear.passes, splitHead_of_ends rfl, List.append_nil]
  have hvalue : Reader.isOpenValue (trim (cs ++ blanks)) = false := by
    obtain ⟨c, ds, hcs, hc⟩ := h.solid.head
    exact (isOpenValue_trim_eq_false (by simp [hcs]) hc).2 hclear.ends
  have hblock : headBlock (cs ++ blanks) = headBlock cs := by
    rw [headBlock, h.solid.trim_append hb, headBlock, h.solid.trim]
  refine .named (h.plain.append ?_) ?_ (fun blocks before => ?_) hs
  · cases blanks with
    | nil => exact rfl
    | cons c bs => exact isNameChar_of_isBlank (hb c List.mem_cons_self)
  · rw [htrim]
    simp only [List.length_append, List.length_cons]
    omega
  · rw [htrim, Reader.readPlain_of_brace hsplit hvalue, hblock]

/-- A keyword in front of what its block shows. -/
theorem shows_keyword {k : String} (hk : ∀ c ∈ k.toList, Token.isNameChar c = true) (hne : k.toList ≠ []) {c : Char}
    (hc : isCalleeChar c = false) (hs : Shows ps (c :: rest)) : Headed k (trimLeft (k.toList ++ c :: rest)) ∧
      Shows ps (dropKeyword k (k.toList ++ c :: rest)) := by
  have hheaded : Headed k (k.toList ++ c :: rest) := ⟨hk, hne, c, rest, rfl, hc⟩
  rw [Reader.dropKeyword_append hheaded, hheaded.trimLeft]
  exact ⟨hheaded, hs⟩

end Pieces

end Procedure

end RunningLights
