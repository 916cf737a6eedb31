import RunningLights.Proofs.Script.Phrases

/-!
# Where violations point

A violation points at the place where a rule first finds its phrase.  That is where the keyword of the phrase stands,
but for the words that load and publish modules: their phrase begins with the white space in front of them.

* `Position.offset_after` — line and column lead back to the place that they are the line and the column of;
* `Violation.atByte_byteLength` — and so do bytes;
* `FirstOffence` — the first place that the keyword of a rule stands at, and where its phrase begins;
* `Policy.violation?_eq_some_iff` — a rule reports where its phrase begins;
* `Policy.place_of_violation` — so all violations point at keywords but one, which may point in front of its keyword;
* `Policy.module_word_misplaced` — where there is white space, it points at that.
-/

namespace RunningLights.Script

/-! ### Lines and columns -/

namespace Position

/-- The number of characters in front of a line, counted from zero. -/
def lineStart : Nat → List Char → Nat
  | 0, _ => 0
  | _, [] => 0
  | n + 1, c :: cs => lineStart (if c = '\n' then n else n + 1) cs + 1

/-- The number of characters in front of a place of a text. -/
def offset (p : Position) (text : List Char) : Nat := lineStart (p.line - 1) text + (p.column - 1)

theorem lineStart_count {lines : List Char} (h : ∀ c ∈ lines.getLast?, c = '\n') (rest : List Char) :
    lineStart (lines.count '\n') (lines ++ rest) = lines.length := by
  induction lines with
  | nil => simp [lineStart]
  | cons c cs ih =>
    have hcs : ∀ d ∈ cs.getLast?, d = '\n' := by
      intro d hd
      refine h d ?_
      rw [List.getLast?_cons, Option.mem_def.1 hd]
      rfl
    by_cases hc : c = '\n'
    · rw [hc, List.count_cons_self, List.cons_append, lineStart, if_pos rfl, ih hcs, List.length_cons]
    · -- The line of the character is not the last, as the lines end.
      have hpos : 0 < cs.count '\n' := by
        cases hlast : cs.getLast? with
        | none => exact absurd (h c (by rw [List.getLast?_cons, hlast]; rfl)) hc
        | some d => exact List.count_pos_iff.2 (hcs d hlast ▸ List.mem_of_getLast? hlast)
      obtain ⟨n, hn⟩ := Nat.exists_eq_add_one.2 hpos
      have hrest := ih hcs
      rw [List.count_cons_of_ne hc, hn, List.cons_append, lineStart, if_neg hc, ← hn, hrest, List.length_cons]

/-- What stands in front of a place on its line, and the lines before. -/
theorem exists_lines (before : List Char) :
    ∃ lines tail, before = lines ++ tail ∧ (∀ c ∈ lines.getLast?, c = '\n') ∧
      after before = ⟨lines.count '\n' + 1, tail.length + 1⟩ := by
  let tail := before.reverse.takeWhile (· ≠ '\n')
  let lines := before.reverse.dropWhile (· ≠ '\n')
  have hsplit : before = lines.reverse ++ tail.reverse := by
    rw [← List.reverse_append, List.takeWhile_append_dropWhile, List.reverse_reverse]
  have htail : tail.reverse.count '\n' = 0 := by
    refine List.count_eq_zero.2 fun hmem => ?_
    simpa using List.all_eq_true.1 List.all_takeWhile _ (List.mem_reverse.1 hmem)
  refine ⟨lines.reverse, tail.reverse, hsplit, fun c hc => ?_, ?_⟩
  · rw [List.getLast?_reverse] at hc
    have hhead := List.head?_dropWhile_not (· ≠ '\n') before.reverse
    rw [Option.mem_def.1 hc] at hhead
    simpa using hhead
  · have hcount : before.count '\n' = lines.reverse.count '\n' := by
      rw [hsplit, List.count_append, htail, Nat.add_zero]
    rw [after, hcount, List.length_reverse]

/-- The line and the column of a place lead back to it. -/
theorem offset_after (before rest : List Char) : (after before).offset (before ++ rest) = before.length := by
  obtain ⟨lines, tail, rfl, hlines, hafter⟩ := exists_lines before
  rw [hafter, offset, Nat.add_sub_cancel, Nat.add_sub_cancel, List.append_assoc, lineStart_count hlines,
    List.length_append]

end Position

namespace Violation

/-- Violations at places are alike only if their messages and places are. -/
theorem atPlace_inj {m m' : String} {p p' : Position} : atPlace m p = atPlace m' p' ↔ m = m' ∧ p = p' := by
  cases p
  cases p'
  simp [atPlace]

def byteLength (text : List Char) : Nat := (text.map Char.utf8Size).sum

theorem beforeByte_byteLength (before rest : List Char) : beforeByte (byteLength before) (before ++ rest) = before := by
  induction before with
  | nil => simp [byteLength, beforeByte]
  | cons c cs ih =>
    obtain ⟨n, hn⟩ := Nat.exists_eq_add_one.2 (Char.utf8Size_pos c)
    have hlength : byteLength (c :: cs) = n + byteLength cs + 1 := by
      simp only [byteLength, List.map_cons, List.sum_cons, hn]
      omega
    have hleft : n + byteLength cs + 1 - c.utf8Size = byteLength cs := by omega
    rw [hlength, List.cons_append, beforeByte, hleft, ih]

/-- A violation at the bytes in front of a place is one at the place. -/
theorem atByte_byteLength (message : String) {source : String} {before rest : List Char}
    (h : source.toList = before ++ rest) :
    atByte message source (byteLength before) = atPlace message (.after before) := by
  rw [atByte, h, beforeByte_byteLength]

end Violation

/-! ### Keywords -/

/-- The place where a phrase may begin, and what it takes in front of its keyword: a word begins where no other ends,
and a line with white space. -/
inductive Anchor.Approach : Anchor → List Char → List Char → Prop
  | word {start : List Char} (h : ∀ c ∈ start.getLast?, Text.isWord c = false) : Approach .word start []
  | line {start gap : List Char} (h : ∀ c ∈ start.getLast?, c = '\n') (hgap : ∀ c ∈ gap, Text.isBlank c) :
      Approach .line start gap

theorem Anchor.Approach.blank {anchor : Anchor} {start gap : List Char} (h : anchor.Approach start gap) :
    ∀ c ∈ gap, Text.isBlank c := by
  cases h with
  | word => exact List.forall_mem_nil _
  | line _ hgap => exact hgap

/-- What a phrase takes in front of its keyword. -/
def Anchor.lead : Anchor → List Piece
  | word => []
  | line => [.blanks]

namespace Rule

/-- The phrase of a rule from its keyword on. -/
def keyPhrase (r : Rule) : List Piece := r.phrase.drop r.anchor.lead.length

/-- The words with which a rule is broken. -/
def keywords (r : Rule) : List String :=
  match r.keyPhrase with
  | .oneOf words :: _ => words
  | _ => []

/-- The phrase of the rule is what its anchor takes and then a keyword, and it can be read in one way only. -/
structure WellFormed (r : Rule) : Prop where
  phrase : r.phrase = r.anchor.lead ++ r.keyPhrase
  firm : Piece.firm r.phrase
  keyed : r.keyPhrase = .oneOf r.keywords :: r.keyPhrase.tail
  visible : ∀ word ∈ r.keywords, word.toList.head?.any (!Text.isBlank ·)

end Rule

/-- A keyword of a rule stands in a text and breaks it: in front of the keyword is what its phrase takes. -/
structure Offence (r : Rule) (text start gap after : List Char) : Prop where
  split : text = start ++ gap ++ after
  approach : r.anchor.Approach start gap
  reads : Piece.Reads r.keyPhrase after

/-- No keyword stands in front of that, and the phrase begins as far in front of the keyword as it can. -/
structure FirstOffence (r : Rule) (text start gap after : List Char) : Prop extends
    Offence r text start gap after where
  first : ∀ s g a, Offence r text s g a → (start ++ gap).length ≤ (s ++ g).length
  longest : ∀ s g, start ++ gap = s ++ g → r.anchor.Approach s g → start.length ≤ s.length

namespace Rule.WellFormed

variable {r : Rule} {text : List Char}

theorem exists_keyword (h : r.WellFormed) {after : List Char} (hreads : Piece.Reads r.keyPhrase after) :
    ∃ word ∈ r.keywords, word.toList <+: after := by
  rw [h.keyed, Piece.reads_cons] at hreads
  obtain ⟨rest, hskips, -⟩ := hreads
  obtain ⟨word, hword, rfl⟩ := Piece.skips_oneOf.1 hskips
  exact ⟨word, hword, rest, rfl⟩

theorem exists_visible (h : r.WellFormed) {after : List Char} (hreads : Piece.Reads r.keyPhrase after) :
    ∃ c rest, after = c :: rest ∧ Text.isBlank c = false := by
  obtain ⟨word, hword, rest, rfl⟩ := h.exists_keyword hreads
  have hhead := h.visible word hword
  cases hcs : word.toList with
  | nil => simp [hcs] at hhead
  | cons c cs => exact ⟨c, cs ++ rest, rfl, by simpa [hcs] using hhead⟩

/-- The phrase begins where its anchor holds and its keyword stands behind what it takes. -/
theorem begin_iff (h : r.WellFormed) {pre post : List Char} :
    r.anchor.holds pre.getLast? ∧ Piece.begin r.phrase post ↔
      ∃ gap after, post = gap ++ after ∧ r.anchor.Approach pre gap ∧ Piece.Reads r.keyPhrase after := by
  rw [Piece.begin_iff_reads h.firm, h.phrase]
  cases r.anchor with
  | word =>
    rw [Anchor.holds_word]
    constructor
    · rintro ⟨hstart, hreads⟩
      exact ⟨[], post, rfl, .word hstart, hreads⟩
    · rintro ⟨gap, after, rfl, hword, hreads⟩
      cases hword with
      | word hstart => exact ⟨hstart, hreads⟩
  | line =>
    rw [Anchor.holds_line]
    constructor
    · rintro ⟨hstart, hreads⟩
      obtain ⟨after, hskips, hrest⟩ := Piece.reads_cons.1 hreads
      obtain ⟨gap, hgap, rfl⟩ := Piece.skips_blanks.1 hskips
      exact ⟨gap, after, rfl, .line hstart hgap, hrest⟩
    · rintro ⟨gap, after, rfl, hline, hreads⟩
      cases hline with
      | line hstart hgap => exact ⟨hstart, .cons (.blanks hgap) hreads⟩

end Rule.WellFormed

theorem mem_of_between {start gap after b a : List Char} {c : Char} (h : start ++ gap ++ after = b ++ c :: a)
    (hstart : start.length ≤ b.length) (hgap : b.length < (start ++ gap).length) : c ∈ gap := by
  have hat : (start ++ gap ++ after)[b.length]? = some c := by simp [h]
  rw [List.getElem?_append_left hgap, List.getElem?_append_right hstart] at hat
  exact List.mem_of_getElem? hat

namespace FirstOffence

variable {r : Rule} {text start gap after : List Char}

/-- There is one first offence only. -/
theorem start_eq (h : FirstOffence r text start gap after) {start' gap' after' : List Char}
    (h' : FirstOffence r text start' gap' after') : start = start' := by
  have hlength : (start ++ gap).length = (start' ++ gap').length :=
    Nat.le_antisymm (h.first _ _ _ h'.toOffence) (h'.first _ _ _ h.toOffence)
  have hsame : start ++ gap = start' ++ gap' := (List.append_inj (h.split.symm.trans h'.split) hlength).1
  have hstart : start.length = start'.length :=
    Nat.le_antisymm (h.longest _ _ hsame h'.approach) (h'.longest _ _ hsame.symm h.approach)
  exact (List.append_inj hsame hstart).1

end FirstOffence

namespace Policy

variable {r : Rule} {text : List Char}

/-- The place where a phrase is found is that in front of the first keyword that breaks the rule. -/
theorem exists_firstOffence (h : r.WellFormed) {n : Nat} (hn : offset? r.anchor r.phrase none text = some n) :
    ∃ start gap after, FirstOffence r text start gap after ∧ start.length = n := by
  obtain ⟨⟨start, post, hsplit, hlength, hfound⟩, hleast⟩ := offset?_eq_some hn
  simp only [Option.or_none] at hfound hleast
  obtain ⟨gap, after, rfl, happroach, hreads⟩ := h.begin_iff.1 hfound
  have hoffence : Offence r text start gap after :=
    ⟨by rw [hsplit, List.append_assoc], happroach, hreads⟩
  have hearly (s g a : List Char) (ho : Offence r text s g a) : start.length ≤ s.length := by
    obtain ⟨hanchor, hbegin⟩ := h.begin_iff.2 ⟨g, a, rfl, ho.approach, ho.reads⟩
    rw [hlength]
    exact hleast s (g ++ a) (by rw [ho.split, List.append_assoc]) hanchor hbegin
  refine ⟨start, gap, after, ⟨hoffence, fun s g a ho => ?_, fun s g hsame hs => ?_⟩, hlength⟩
  · -- A keyword in front of this one would stand in the white space that leads to it.
    by_contra hbefore
    obtain ⟨c, rest, rfl, hc⟩ := h.exists_visible ho.reads
    have hstart := hearly s g _ ho
    have hmem : c ∈ gap :=
      mem_of_between (hoffence.split.symm.trans ho.split) (by rw [List.length_append]; omega) (by omega)
    exact absurd (happroach.blank c hmem) (by simp [hc])
  · exact hearly s g after ⟨by rw [hoffence.split, hsame], hs, hreads⟩

/-- A rule reports where its phrase begins in front of the first keyword that breaks it. -/
theorem violation?_eq_some_iff (h : r.WellFormed) {v : Violation} :
    violation? text r = some v ↔
      ∃ start gap after, FirstOffence r text start gap after ∧ v = .atPlace r.message (.after start) := by
  have hplace {start gap after : List Char} (ho : FirstOffence r text start gap after) :
      text.take start.length = start := by
    rw [ho.split, List.append_assoc, List.take_left]
  rw [violation?, Option.map_eq_some_iff]
  constructor
  · rintro ⟨n, hn, rfl⟩
    obtain ⟨start, gap, after, ho, rfl⟩ := exists_firstOffence h hn
    exact ⟨start, gap, after, ho, by rw [hplace ho]⟩
  · rintro ⟨start, gap, after, ho, rfl⟩
    have hsome : (offset? r.anchor r.phrase none text).isSome := by
      refine isSome_offset?.2 ⟨start, gap ++ after, by rw [ho.split, List.append_assoc], ?_⟩
      rw [Option.or_none]
      exact h.begin_iff.2 ⟨gap, after, rfl, ho.approach, ho.reads⟩
    obtain ⟨n, hn⟩ := Option.isSome_iff_exists.1 hsome
    obtain ⟨start', gap', after', ho', rfl⟩ := exists_firstOffence h hn
    exact ⟨_, hn, by rw [← ho'.start_eq ho, hplace ho']⟩

/-! ### Rules in force -/

def loopRule : Rule := ⟨.word, bareLoop, "Infinite loop without break detected"⟩

/-- The word that ends a loop from within stands in the text. -/
def HasBreak (text : List Char) : Prop :=
  ∃ before after, text = before ++ after ∧ Anchor.word.Approach before [] ∧ Piece.Reads breakWord after

/-- The rules that a text has to keep: the one against loops only if nothing ends one. -/
def InForce (text : List Char) (r : Rule) : Prop := r ∈ rules ∨ r = loopRule ∧ ¬ HasBreak text

theorem wellFormed_loopRule : loopRule.WellFormed := ⟨rfl, by decide, rfl, by decide⟩

/-- Every rule passes its own check. -/
theorem wellFormed_of_mem (h : r ∈ rules) : r.WellFormed := by
  simp only [rules, List.mem_cons, List.not_mem_nil, or_false] at h
  rcases h with rfl | rfl | rfl | rfl | rfl | rfl | rfl <;> exact ⟨rfl, by decide, rfl, by decide⟩

theorem wellFormed_of_inForce (h : InForce text r) : r.WellFormed := by
  rcases h with hmem | ⟨rfl, -⟩
  · exact wellFormed_of_mem hmem
  · exact wellFormed_loopRule

/-- Every rule but the one against modules takes nothing in front of its keyword. -/
theorem anchor_of_inForce (h : InForce text r) (hne : r ≠ moduleRule) : r.anchor = .word := by
  rcases h with hmem | ⟨rfl, -⟩
  · simp only [rules, List.mem_cons, List.not_mem_nil, or_false] at hmem
    rcases hmem with rfl | rfl | rfl | rfl | rfl | rfl | rfl
    all_goals first | rfl | exact absurd rfl hne
  · rfl

theorem isSome_offset?_breakWord : (offset? .word breakWord none text).isSome ↔ HasBreak text := by
  simp only [isSome_offset?, Option.or_none, Anchor.holds_word, Piece.begin_iff_reads (by decide : Piece.firm breakWord)]
  constructor
  · rintro ⟨pre, post, hsplit, hpre, hreads⟩
    exact ⟨pre, post, hsplit, .word hpre, hreads⟩
  · rintro ⟨pre, post, hsplit, hword, hreads⟩
    cases hword with
    | word hpre => exact ⟨pre, post, hsplit, hpre, hreads⟩

theorem loopViolation?_eq_some_iff {v : Violation} :
    loopViolation? text = some v ↔ ¬ HasBreak text ∧ violation? text loopRule = some v := by
  rw [loopViolation?, ← isSome_offset?_breakWord]
  split
  · rename_i hbreak
    exact iff_of_false nofun fun h => h.1 hbreak
  · rename_i hbreak
    exact (and_iff_right hbreak).symm

theorem mem_violations_iff {source : String} (hsource : source.toList.all Text.isBlank = false) {v : Violation} :
    v ∈ violations source ↔ ∃ r, InForce source.toList r ∧ violation? source.toList r = some v := by
  simp only [violations, hsource, Bool.false_eq_true, if_false, List.mem_append, List.mem_filterMap, Option.mem_toList,
    loopViolation?_eq_some_iff]
  constructor
  · rintro (⟨r, hr, hv⟩ | ⟨hbreak, hv⟩)
    · exact ⟨r, .inl hr, hv⟩
    · exact ⟨loopRule, .inr ⟨rfl, hbreak⟩, hv⟩
  · rintro ⟨r, hr | ⟨rfl, hbreak⟩, hv⟩
    · exact .inl ⟨r, hr, hv⟩
    · exact .inr ⟨hbreak, hv⟩

/-- **Where violations point.**  What a script that is not blank is reported for are the rules in force whose keyword
stands in it, each where its phrase begins in front of the first of them.  Line and column lead back to that place, and
so do its bytes.  It is that of the keyword, unless the phrase begins with white space, which only the phrase of the
rule against modules does: it begins as far in front of the word as there is nothing else, on lines before it too. -/
theorem place_of_violation (source : String) (hsource : source.toList.all Text.isBlank = false) :
    let text := source.toList
    (∀ v, v ∈ violations source ↔
      ∃ r start gap after, InForce text r ∧ FirstOffence r text start gap after ∧
        v = .atPlace r.message (.after start)) ∧
    ∀ r start gap after, InForce text r → FirstOffence r text start gap after →
      (∃ word ∈ r.keywords, word.toList <+: after) ∧
      (Position.after start).offset text = start.length ∧
      (Position.after (start ++ gap)).offset text = (start ++ gap).length ∧
      (Position.after start = Position.after (start ++ gap) ↔ gap = []) ∧
      (r ≠ moduleRule → gap = []) ∧
      Violation.atByte r.message source (Violation.byteLength start) = .atPlace r.message (.after start) := by
  intro text
  refine ⟨fun v => ?_, fun r start gap after hr ho => ?_⟩
  · rw [mem_violations_iff hsource]
    constructor
    · rintro ⟨r, hr, hv⟩
      obtain ⟨start, gap, after, ho, rfl⟩ := (violation?_eq_some_iff (wellFormed_of_inForce hr)).1 hv
      exact ⟨r, start, gap, after, hr, ho, rfl⟩
    · rintro ⟨r, start, gap, after, hr, ho, rfl⟩
      exact ⟨r, hr, (violation?_eq_some_iff (wellFormed_of_inForce hr)).2 ⟨start, gap, after, ho, rfl⟩⟩
  · have hsplit : text = start ++ (gap ++ after) := by rw [ho.split, List.append_assoc]
    have hstart : (Position.after start).offset text = start.length := by rw [hsplit, Position.offset_after]
    have hword : (Position.after (start ++ gap)).offset text = (start ++ gap).length := by
      rw [ho.split, Position.offset_after]
    refine ⟨(wellFormed_of_inForce hr).exists_keyword ho.reads, hstart, hword, ⟨fun hsame => ?_, ?_⟩, fun hne => ?_,
      Violation.atByte_byteLength r.message hsplit⟩
    · rw [hsame, hword, List.length_append] at hstart
      exact List.length_eq_zero_iff.1 (by omega)
    · rintro rfl
      rw [List.append_nil]
    · have happroach := ho.approach
      rw [anchor_of_inForce hr hne] at happroach
      cases happroach
      rfl

/-- A script whose first line has a letter of two bytes. -/
def evalIndented : String := "let ä = 1;\n  eval(\"2\");"

/-- Behind a line with such a letter the keyword is found in line 2, column 3. -/
theorem place_of_evalIndented :
    evalIndented.toList.all Text.isBlank = false ∧
      ∃ r start after, InForce evalIndented.toList r ∧ FirstOffence r evalIndented.toList start [] after ∧
        (∃ word ∈ r.keywords, word.toList <+: after) ∧ Position.after start = ⟨2, 3⟩ ∧
        (⟨2, 3⟩ : Position).offset evalIndented.toList = start.length := by
  have hsource : evalIndented.toList.all Text.isBlank = false := by decide
  have hviolations : violations evalIndented = [.atPlace "eval() is not allowed" ⟨2, 3⟩] := by decide +kernel
  obtain ⟨hreported, hplaces⟩ := place_of_violation evalIndented hsource
  obtain ⟨r, start, gap, after, hr, ho, hv⟩ := (hreported _).1 (hviolations ▸ List.mem_singleton_self _)
  obtain ⟨hmessage, hplace⟩ := Violation.atPlace_inj.1 hv
  obtain ⟨hword, hoffset, -, -, hgap, -⟩ := hplaces r start gap after hr ho
  have hne : r ≠ moduleRule := by
    rintro rfl
    exact absurd hmessage (by decide)
  cases hgap hne
  exact ⟨hsource, r, start, after, hr, ho, hword, hplace.symm, hplace ▸ hoffset⟩

/-- A script that loads a module behind an empty line and white space. -/
def moduleIndented : String := "on();\n\n  import \"x\";"

/-- The only word that loads a module stands in line 3, column 3, and is reported at the empty line before. -/
theorem module_word_misplaced :
    violations moduleIndented = [.atPlace moduleRule.message ⟨2, 1⟩] ∧
      ModuleWord moduleIndented.toList "on();\n\n  ".toList " \"x\";".toList ∧
      (∀ before after, ModuleWord moduleIndented.toList before after → Position.after before = ⟨3, 3⟩) ∧
      (⟨2, 1⟩ : Position).offset moduleIndented.toList = 6 ∧ (⟨3, 3⟩ : Position).offset moduleIndented.toList = 9 := by
  refine ⟨by decide +kernel, ⟨"import", by simp, by decide, by decide⟩, fun before after hword => ?_, by decide,
    by decide⟩
  obtain ⟨word, hmem, hsplit, -⟩ := hword
  have hwhere : ∀ k ≤ moduleIndented.toList.length, ∀ word ∈ ["import", "export"],
      word.toList.isPrefixOf (moduleIndented.toList.drop k) → k = 9 := by decide
  have hlength : before.length = 9 := by
    refine hwhere _ (by simp [hsplit]) word hmem (List.isPrefixOf_iff_prefix.2 ⟨after, ?_⟩)
    rw [hsplit, List.append_assoc, List.drop_left]
  have hbefore : before = moduleIndented.toList.take 9 := by
    rw [hsplit, List.append_assoc, ← hlength, List.take_left]
  rw [hbefore]
  decide

end Policy

end RunningLights.Script
