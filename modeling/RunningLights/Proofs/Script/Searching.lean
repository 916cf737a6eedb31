import Mathlib
import RunningLights.Script.Policy

/-!
# What phrases mean

The pieces of a phrase are tried one after another, and each is tried in one way only: white space is skipped as far
as it goes, and what may be missing is skipped if it is there.  Read as a pattern, a phrase may skip less.  It does not
matter for the phrases of the policy:

* `Piece.Skips`, `Piece.Reads` — a text begins with a piece or with pieces, in one way or another;
* `Piece.firm` — in no other way than that which is tried;
* `Piece.begin_iff_reads` — a firm phrase begins a text exactly if it can be read there;
* `Policy.offset?_eq_some` — of all places that a phrase begins at the first is found;
* `Policy.isSome_offset?` — and one is if there is any.
-/

namespace RunningLights.Script

namespace Piece

/-! ### Reading -/

theorem skipWord_eq_some {word text rest : List Char} : skipWord word text = some rest ↔ text = word ++ rest := by
  induction word generalizing text with
  | nil => simp [skipWord]
  | cons w ws ih =>
    cases text with
    | nil => simp [skipWord]
    | cons c cs =>
      by_cases h : w = c
      · subst h
        simp [skipWord, ih]
      · simp [skipWord, h, Ne.symm h]

theorem begin_cons {p : Piece} {ps : List Piece} {text : List Char} :
    begin (p :: ps) text ↔ ∃ rest, p.skip text = some rest ∧ begin ps rest := by
  rw [begin]
  cases p.skip text <;> simp

/-- What a piece may leave of a text that begins with it. -/
inductive Skips : Piece → List Char → List Char → Prop
  | oneOf {words : List String} {word : String} {rest : List Char} (h : word ∈ words) :
      Skips (.oneOf words) (word.toList ++ rest) rest
  | char {c : Char} {rest : List Char} : Skips (.char c) (c :: rest) rest
  | taken {c : Char} {rest : List Char} : Skips (.optional c) (c :: rest) rest
  | missing {c : Char} {rest : List Char} : Skips (.optional c) rest rest
  | blanks {gap rest : List Char} (h : ∀ c ∈ gap, Text.isBlank c) : Skips .blanks (gap ++ rest) rest
  | edge {rest : List Char} (h : Text.startsWord rest = false) : Skips .edge rest rest

/-- The text begins with the pieces. -/
inductive Reads : List Piece → List Char → Prop
  | nil {text : List Char} : Reads [] text
  | cons {p : Piece} {ps : List Piece} {text rest : List Char} (h : Skips p text rest) (hrest : Reads ps rest) :
      Reads (p :: ps) text

theorem reads_cons {p : Piece} {ps : List Piece} {text : List Char} :
    Reads (p :: ps) text ↔ ∃ rest, Skips p text rest ∧ Reads ps rest := by
  constructor
  · rintro (_ | ⟨h, hrest⟩)
    exact ⟨_, h, hrest⟩
  · rintro ⟨rest, h, hrest⟩
    exact .cons h hrest

theorem skips_oneOf {words : List String} {text rest : List Char} :
    Skips (.oneOf words) text rest ↔ ∃ word ∈ words, text = word.toList ++ rest := by
  constructor
  · intro h
    cases h with
    | oneOf hword => exact ⟨_, hword, rfl⟩
  · rintro ⟨word, h, rfl⟩
    exact .oneOf h

theorem skips_blanks {text rest : List Char} :
    Skips .blanks text rest ↔ ∃ gap, (∀ c ∈ gap, Text.isBlank c) ∧ text = gap ++ rest := by
  constructor
  · intro h
    cases h with
    | blanks hgap => exact ⟨_, hgap, rfl⟩
  · rintro ⟨gap, h, rfl⟩
    exact .blanks h

theorem reads_edge {text : List Char} : Reads [.edge] text ↔ Text.startsWord text = false := by
  rw [reads_cons]
  constructor
  · rintro ⟨rest, hskips, -⟩
    cases hskips with
    | edge h => exact h
  · intro h
    exact ⟨text, .edge h, .nil⟩

theorem Skips.noBlanks {text : List Char} : Skips .blanks text text := @blanks [] text (List.forall_mem_nil _)

theorem Skips.of_skip {p : Piece} {text rest : List Char} (h : p.skip text = some rest) : Skips p text rest := by
  cases p with
  | oneOf words =>
    obtain ⟨word, hword, hskip⟩ := List.exists_of_findSome?_eq_some h
    exact skipWord_eq_some.1 hskip ▸ .oneOf hword
  | char c =>
    cases text with
    | nil => cases h
    | cons d more =>
      by_cases hd : d = c <;> simp only [skip, hd, if_true, if_false] at h <;> cases h
      exact hd ▸ .char
  | optional c =>
    cases text with
    | nil =>
      cases h
      exact .missing
    | cons d more =>
      by_cases hd : d = c <;> simp only [skip, hd, if_true, if_false] at h <;> cases h
      · exact hd ▸ .taken
      · exact .missing
  | blanks =>
    cases h
    have hgap : ∀ c ∈ text.takeWhile Text.isBlank, Text.isBlank c := List.all_eq_true.1 List.all_takeWhile
    have hskips : Skips .blanks (text.takeWhile Text.isBlank ++ text.dropWhile Text.isBlank) _ := .blanks hgap
    rwa [List.takeWhile_append_dropWhile] at hskips
  | edge =>
    by_cases hedge : Text.startsWord text <;> simp only [skip, hedge, if_true] at h <;> cases h
    exact .edge (by simpa using hedge)

theorem Reads.of_begin {ps : List Piece} {text : List Char} (h : begin ps text) : Reads ps text := by
  induction ps generalizing text with
  | nil => exact .nil
  | cons p ps ih =>
    obtain ⟨rest, hskip, hrest⟩ := begin_cons.1 h
    exact .cons (.of_skip hskip) (ih hrest)

/-! ### Phrases that can be read in one way only -/

/-- No text that begins with the character begins with the pieces. -/
def shuns (c : Char) : List Piece → Bool
  | [] => false
  | .oneOf words :: _ => words.all fun word => word.toList.head?.any (· != c)
  | .char d :: _ => d != c
  | .optional d :: ps => d != c && shuns c ps
  | .blanks :: ps => !Text.isBlank c && shuns c ps
  | .edge :: ps => shuns c ps

/-- White space in front of a text that begins with the pieces does not matter. -/
def absorbs : List Piece → Bool
  | [] => true
  | .oneOf words :: _ => words.all fun word => word.toList.head?.any (!Text.isBlank ·)
  | .char d :: _ => !Text.isBlank d
  | .optional d :: ps => !Text.isBlank d && absorbs ps
  | .blanks :: ps => absorbs ps
  | .edge :: _ => false

/-- No word begins another. -/
def prefixFree (words : List String) : Bool :=
  words.all fun v => words.all fun w => v == w || !v.toList.isPrefixOf w.toList

/-- Where there is a choice, what follows it can be read in one way only. -/
def firm : List Piece → Bool
  | [] => true
  | .oneOf words :: ps => prefixFree words && firm ps
  | .char _ :: ps => firm ps
  | .optional c :: ps => shuns c ps && firm ps
  | .blanks :: ps => absorbs ps && firm ps
  | .edge :: ps => firm ps

/-- The character that begins a word begins every text that begins with it. -/
theorem of_head?_any {word : String} {p : Char → Bool} (h : word.toList.head?.any p) {c : Char}
    {text rest : List Char} (htext : c :: text = word.toList ++ rest) : p c := by
  cases hword : word.toList with
  | nil => simp [hword] at h
  | cons d ds =>
    rw [hword, List.cons_append] at htext
    cases htext
    simpa [hword] using h

theorem not_reads_of_shuns {c : Char} {ps : List Piece} (h : shuns c ps) {text : List Char} :
    ¬ Reads ps (c :: text) := by
  intro hreads
  generalize hwhole : c :: text = whole at hreads
  induction hreads with
  | nil => cases h
  | @cons p ps _ rest hskip hrest ih =>
    cases hskip with
    | @oneOf words word _ hword =>
      have hhead := of_head?_any (List.all_eq_true.1 h word hword) hwhole
      simp at hhead
    | char =>
      cases hwhole
      simp [shuns] at h
    | taken =>
      cases hwhole
      simp [shuns] at h
    | missing => exact ih (Bool.and_elim_right h) hwhole
    | @blanks gap _ hgap =>
      obtain ⟨hblank, hps⟩ := Bool.and_eq_true_iff.1 h
      cases gap with
      | nil => exact ih hps hwhole
      | cons d gap =>
        cases hwhole
        simp [hgap c List.mem_cons_self] at hblank
    | edge hedge => exact ih h hwhole

theorem reads_of_absorbs {ps : List Piece} (h : absorbs ps) {b : Char} (hb : Text.isBlank b) {text : List Char}
    (hreads : Reads ps (b :: text)) : Reads ps text := by
  generalize hwhole : b :: text = whole at hreads
  induction hreads with
  | nil => exact .nil
  | @cons p ps _ rest hskip hrest ih =>
    cases hskip with
    | @oneOf words word _ hword =>
      have hhead := of_head?_any (List.all_eq_true.1 h word hword) hwhole
      simp [hb] at hhead
    | char =>
      cases hwhole
      simp [absorbs, hb] at h
    | taken =>
      cases hwhole
      simp [absorbs, hb] at h
    | missing => exact .cons .missing (ih (Bool.and_elim_right h) hwhole)
    | @blanks gap _ hgap =>
      cases gap with
      | nil => exact .cons .noBlanks (ih h hwhole)
      | cons d gap =>
        cases hwhole
        exact .cons (.blanks fun c hc => hgap c (List.mem_cons_of_mem _ hc)) hrest
    | edge => cases h

theorem reads_dropWhile {ps : List Piece} (h : absorbs ps) {text : List Char} (hreads : Reads ps text) :
    Reads ps (text.dropWhile Text.isBlank) := by
  induction text with
  | nil => exact hreads
  | cons c cs ih =>
    by_cases hc : Text.isBlank c
    · rw [List.dropWhile_cons_of_pos hc]
      exact ih (reads_of_absorbs h hc hreads)
    · rwa [List.dropWhile_cons_of_neg hc]

/-- Of words of which none begins another at most one begins a text. -/
theorem eq_of_prefixFree {words : List String} (h : prefixFree words) {v w : String} (hv : v ∈ words)
    (hw : w ∈ words) {text rest rest' : List Char} (htext : text = v.toList ++ rest)
    (htext' : text = w.toList ++ rest') : rest = rest' := by
  have hfree (x y : String) (hx : x ∈ words) (hy : y ∈ words) (hxy : x.toList <+: y.toList) : x = y := by
    have hpair := List.all_eq_true.1 (List.all_eq_true.1 h x hx) y hy
    simpa [List.isPrefixOf_iff_prefix.2 hxy] using hpair
  have hbegins : v.toList <+: text := ⟨rest, htext.symm⟩
  have hbegins' : w.toList <+: text := ⟨rest', htext'.symm⟩
  have hsame : v = w := by
    rcases List.prefix_or_prefix_of_prefix hbegins hbegins' with hvw | hwv
    · exact hfree v w hv hw hvw
    · exact (hfree w v hw hv hwv).symm
  subst hsame
  exact List.append_cancel_left (htext.symm.trans htext')

/-- If there is a way to go on behind a piece, then there is one behind what is skipped. -/
theorem exists_skip_of_reads {p : Piece} {ps : List Piece} (h : firm (p :: ps)) {text rest : List Char}
    (hskips : Skips p text rest) (hrest : Reads ps rest) : ∃ rest', p.skip text = some rest' ∧ Reads ps rest' := by
  cases hskips with
  | @oneOf words word _ hword =>
    cases hskip : skip (.oneOf words) (word.toList ++ rest) with
    | none =>
      have hnone := List.findSome?_eq_none_iff.1 hskip word hword
      cases (skipWord_eq_some.2 rfl).symm.trans hnone
    | some rest' =>
      obtain ⟨w, hw, hfound⟩ := List.exists_of_findSome?_eq_some hskip
      have hsame := eq_of_prefixFree (Bool.and_elim_left h) hword hw rfl (skipWord_eq_some.1 hfound)
      exact ⟨rest', rfl, hsame ▸ hrest⟩
  | char => exact ⟨rest, by simp [skip], hrest⟩
  | taken => exact ⟨rest, by simp [skip], hrest⟩
  | @missing c _ =>
    cases text with
    | nil => exact ⟨[], rfl, hrest⟩
    | cons d more =>
      have hd : d ≠ c := by
        rintro rfl
        exact not_reads_of_shuns (Bool.and_elim_left h) hrest
      exact ⟨d :: more, by simp [skip, hd], hrest⟩
  | blanks hgap =>
    refine ⟨rest.dropWhile Text.isBlank, ?_, reads_dropWhile (Bool.and_elim_left h) hrest⟩
    rw [skip, List.dropWhile_append_of_pos hgap]
  | edge hedge => exact ⟨text, by simp [skip, hedge], hrest⟩

theorem firm_of_cons {p : Piece} {ps : List Piece} (h : firm (p :: ps)) : firm ps := by
  cases p with
  | oneOf words => exact Bool.and_elim_right h
  | char c => exact h
  | optional c => exact Bool.and_elim_right h
  | blanks => exact Bool.and_elim_right h
  | edge => exact h

/-- A firm phrase begins a text exactly if it can be read there. -/
theorem begin_iff_reads {ps : List Piece} (h : firm ps) {text : List Char} : begin ps text ↔ Reads ps text := by
  refine ⟨.of_begin, fun hreads => ?_⟩
  induction ps generalizing text with
  | nil => rfl
  | cons p ps ih =>
    cases hreads with
    | cons hskips hrest =>
      obtain ⟨rest, hskip, hrest⟩ := exists_skip_of_reads h hskips hrest
      exact begin_cons.2 ⟨rest, hskip, ih (firm_of_cons h) hrest⟩

end Piece

/-! ### Places -/

theorem Anchor.holds_word {before : Option Char} :
    Anchor.word.holds before ↔ ∀ c ∈ before, Text.isWord c = false := by
  cases before with
  | none => simp [Anchor.holds]
  | some c => simp [Anchor.holds]

theorem Anchor.holds_line {before : Option Char} : Anchor.line.holds before ↔ ∀ c ∈ before, c = '\n' := by
  cases before with
  | none => simp [Anchor.holds]
  | some c => simp [Anchor.holds]

namespace Policy

theorem getLast?_cons_or (before : Option Char) (c : Char) (pre : List Char) :
    (c :: pre).getLast?.or before = pre.getLast?.or (some c) := by
  rw [List.getLast?_cons]
  cases pre.getLast? <;> rfl

theorem offset?_eq_some {anchor : Anchor} {phrase : List Piece} {before : Option Char} {text : List Char} {n : Nat}
    (h : offset? anchor phrase before text = some n) :
    (∃ pre post, text = pre ++ post ∧ pre.length = n ∧ anchor.holds (pre.getLast?.or before) ∧
        Piece.begin phrase post) ∧
      ∀ pre post, text = pre ++ post → anchor.holds (pre.getLast?.or before) → Piece.begin phrase post →
        n ≤ pre.length := by
  induction text generalizing before n with
  | nil =>
    rw [offset?, Option.ite_none_right_eq_some] at h
    obtain ⟨hhere, hn⟩ := h
    cases hn
    exact ⟨⟨[], [], rfl, rfl, by simpa using hhere⟩, fun _ _ _ _ _ => Nat.zero_le _⟩
  | cons c cs ih =>
    unfold offset? at h
    split at h
    · rename_i hhere
      cases h
      exact ⟨⟨[], c :: cs, rfl, rfl, by simpa using hhere⟩, fun _ _ _ _ _ => Nat.zero_le _⟩
    · rename_i hhere
      obtain ⟨m, hm, rfl⟩ := Option.map_eq_some_iff.1 h
      obtain ⟨⟨pre, post, hsplit, hlength, hanchor, hbegin⟩, hfirst⟩ := ih hm
      refine ⟨⟨c :: pre, post, by rw [hsplit, List.cons_append], by rw [List.length_cons, hlength],
        getLast?_cons_or _ c pre ▸ hanchor, hbegin⟩, ?_⟩
      intro pre' post' hsplit' hanchor' hbegin'
      obtain ⟨rfl, rfl⟩ | ⟨more, rfl, hmore⟩ := List.cons_eq_append_iff.1 hsplit'
      · exact absurd (by simpa using ⟨hanchor', hbegin'⟩) hhere
      · have hle := hfirst more post' hmore (getLast?_cons_or _ c more ▸ hanchor') hbegin'
        rw [List.length_cons]
        omega

/-- A phrase is found exactly if it begins at some place where its anchor holds. -/
theorem isSome_offset? {anchor : Anchor} {phrase : List Piece} {before : Option Char} {text : List Char} :
    (offset? anchor phrase before text).isSome ↔
      ∃ pre post, text = pre ++ post ∧ anchor.holds (pre.getLast?.or before) ∧ Piece.begin phrase post := by
  constructor
  · intro h
    obtain ⟨n, hn⟩ := Option.isSome_iff_exists.1 h
    obtain ⟨⟨pre, post, hsplit, -, hanchor, hbegin⟩, -⟩ := offset?_eq_some hn
    exact ⟨pre, post, hsplit, hanchor, hbegin⟩
  · rintro ⟨pre, post, rfl, hanchor, hbegin⟩
    induction pre generalizing before with
    | nil =>
      have hhere : anchor.holds before && Piece.begin phrase post := by simpa using ⟨hanchor, hbegin⟩
      cases post <;> simp [offset?, hhere]
    | cons c pre ih =>
      rw [List.cons_append, offset?]
      split
      · rfl
      · rw [Option.isSome_map]
        exact ih (getLast?_cons_or _ c pre ▸ hanchor)

end Policy

end RunningLights.Script
