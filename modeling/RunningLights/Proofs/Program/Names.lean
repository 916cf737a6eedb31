import RunningLights.Procedure.Reader
import RunningLights.Proofs.Program.Source

/-!
# Names at the start of a text

What the recognisers of phrases make of a name:

* `leadingWord?_none`, `isPrefixOf?_word` — a name is never taken for a word that it only starts with;
* `bracketGroups_cons` — an index ends at the first closing bracket;
* `Identifier.name?`, `Identifier.return?`, `Identifier.declaration?`, `Identifier.counting?`,
  `Identifier.assignment?` — a statement that starts with a name is none that starts with a keyword or a type, and
  what stands behind the name decides about the rest;
* `Headed` — text that starts with a word, by which the reader of a program decides.
-/

namespace RunningLights

open Procedure Text

/-! ### Words at the start of a text -/

section Span

variable {p : Char → Bool} {cs : List Char} {d : Char}

theorem takeWhile_append_cons (hcs : ∀ c ∈ cs, p c = true) (hd : p d = false) (rest : List Char) :
    (cs ++ d :: rest).takeWhile p = cs := by
  rw [List.takeWhile_append_of_pos hcs, List.takeWhile_cons_of_neg (by simp [hd]), List.append_nil]

theorem dropWhile_append_cons (hcs : ∀ c ∈ cs, p c = true) (hd : p d = false) (rest : List Char) :
    (cs ++ d :: rest).dropWhile p = d :: rest := by
  rw [List.dropWhile_append_of_pos hcs, List.dropWhile_cons_of_neg (by simp [hd])]

end Span

theorem isWord_of_isNameChar {c : Char} (h : Token.isNameChar c = true) : isWord c = true := by
  have hc := (Token.toNat_of_isNameChar h).2
  rw [isWord, if_pos hc]
  exact h

theorem isPrefixOf?_cons (a b : Char) (as bs : List Char) :
    (a :: as).isPrefixOf? (b :: bs) = if a == b then as.isPrefixOf? bs else none := rfl

/-- A word of name characters is not found in another one, unless that goes on behind it. -/
theorem isPrefixOf?_word {k w : List Char} (hk : ∀ c ∈ k, Token.isNameChar c = true)
    (hw : ∀ c ∈ w, Token.isNameChar c = true) (hne : w ≠ k) {d : Char} (hd : Token.isNameChar d = false)
    (rest : List Char) : k.isPrefixOf? (w ++ d :: rest) = none ∨
      ∃ c ds, k.isPrefixOf? (w ++ d :: rest) = some (c :: ds) ∧ Token.isNameChar c = true := by
  induction k generalizing w with
  | nil =>
    cases w with
    | nil => exact absurd rfl hne
    | cons c w => exact .inr ⟨c, _, rfl, hw c List.mem_cons_self⟩
  | cons a k ih =>
    obtain ⟨ha, hk⟩ := List.forall_mem_cons.1 hk
    cases w with
    | nil =>
      have had : a ≠ d := by
        rintro rfl
        rw [ha] at hd
        cases hd
      exact .inl (by rw [List.nil_append, isPrefixOf?_cons, if_neg (by simpa using had)])
    | cons b w =>
      by_cases hab : a = b
      · subst hab
        rw [List.cons_append, isPrefixOf?_cons, if_pos (beq_self_eq_true a)]
        exact ih hk (List.forall_mem_cons.1 hw).2 (fun h => hne (by rw [h]))
      · exact .inl (by rw [List.cons_append, isPrefixOf?_cons, if_neg (by simpa using hab)])

/-- A word that is not in a list is no leading word of the list. -/
theorem leadingWord?_none {words : List String} (hwords : ∀ w ∈ words, ∀ c ∈ w.toList, Token.isNameChar c = true)
    {w : String} (hw : ∀ c ∈ w.toList, Token.isNameChar c = true) (hfree : w ∉ words) {d : Char}
    (hd : Token.isNameChar d = false) (rest : List Char) : leadingWord? words (w.toList ++ d :: rest) = none := by
  have hblank : ∀ c ∈ w.toList, (!isBlank c) = true := fun c hc => by
    rw [Token.isBlank_of_isNameChar (hw c hc)]
    rfl
  unfold leadingWord?
  simp only
  rw [if_neg]
  rw [List.contains_iff_mem, List.takeWhile_append_of_pos hblank]
  intro hm
  cases hb : isBlank d with
  | true =>
    rw [List.takeWhile_cons_of_neg (by simp [hb]), List.append_nil, String.ofList_toList] at hm
    exact hfree hm
  | false =>
    -- the word of the list would have `d` in it
    have hc := hwords _ hm d (by simp [hb])
    rw [hd] at hc
    cases hc

theorem leadingWords_of_none {words : List String} {cs : List Char} (h : leadingWord? words cs = none) :
    leadingWords words cs = [([], cs)] := by
  rw [leadingWords]
  split
  · rfl
  · rename_i hsome
    rw [h] at hsome
    cases hsome

theorem leadingWords_of_some {words : List String} {cs rest : List Char} {w : String}
    (h : leadingWord? words cs = some (w, rest)) :
    leadingWords words cs = (leadingWords words rest).map (fun (ws, r) => (w :: ws, r)) ++ [([], cs)] := by
  rw [leadingWords]
  split
  · rename_i hnone
    rw [h] at hnone
    cases hnone
  · rename_i hsome
    rw [h] at hsome
    cases hsome
    rfl

/-! ### Indices -/

theorem bracketGroups_of_ne {c : Char} (h : c ≠ '[') (cs : List Char) : bracketGroups (c :: cs) = ([], c :: cs) := by
  rw [bracketGroups]
  rintro _ hcons
  exact h (List.cons.inj hcons).1

theorem bracketGroups_cons {inner : List Char} (h : ']' ∉ inner) (behind : List Char) :
    bracketGroups ('[' :: (inner ++ ']' :: behind)) =
      (inner :: (bracketGroups (trimLeft behind)).1, (bracketGroups (trimLeft behind)).2) := by
  have hinner : ∀ c ∈ inner, (c != ']') = true := fun c hc => by
    rw [bne_iff_ne]
    rintro rfl
    exact h hc
  have htake := takeWhile_append_cons hinner (d := ']') rfl behind
  have hdrop := dropWhile_append_cons hinner (d := ']') rfl behind
  rw [bracketGroups]
  split
  · rename_i hnil
    rw [hdrop] at hnil
    cases hnil
  · rename_i hcons
    rw [hdrop] at hcons
    cases hcons
    rw [htake]

/-! ### Names -/

namespace Identifier

variable {name : String} (h : Identifier name)
include h

theorem head : ∃ c cs, name.toList = c :: cs ∧ Token.isNameStart c = true := by
  have hs := h.start
  cases hcs : name.toList with
  | nil =>
    rw [hcs] at hs
    cases hs
  | cons c cs =>
    rw [hcs] at hs
    exact ⟨c, cs, rfl, hs⟩

theorem isBlank {c : Char} (hc : c ∈ name.toList) : Text.isBlank c = false := Token.isBlank_of_isNameChar (h.chars c hc)

theorem solid : Solid name.toList := by
  obtain ⟨c, cs, hcs, -⟩ := h.head
  exact .of_forall (by simp [hcs]) fun _ => h.isBlank

variable {d : Char} (rest : List Char)

theorem trimLeft_space : trimLeft (' ' :: (name.toList ++ rest)) = name.toList ++ rest :=
  (List.dropWhile_cons_of_pos (by rfl)).trans (h.solid.trimLeft rest)

theorem afterBlanks?_space : afterBlanks? (' ' :: (name.toList ++ rest)) = some (name.toList ++ rest) := by
  rw [afterBlanks?, if_pos (by rfl), h.trimLeft_space]

theorem name? (hd : isWord d = false) : name? (name.toList ++ d :: rest) = some (name.toList, d :: rest) := by
  obtain ⟨c, cs, hcs, hc⟩ := h.head
  have hw : ∀ c ∈ cs, isWord c = true := fun c hc => isWord_of_isNameChar (h.chars c (by simp [hcs, hc]))
  rw [hcs, List.cons_append, Procedure.name?, if_pos hc, takeWhile_append_cons hw hd, dropWhile_append_cons hw hd]

theorem after? {k : String} (hk : ∀ c ∈ k.toList, Token.isNameChar c = true) (hne : name ≠ k)
    (hd : Token.isNameChar d = false) : after? k (name.toList ++ d :: rest) = none ∨
      ∃ c ds, after? k (name.toList ++ d :: rest) = some (c :: ds) ∧ Token.isNameChar c = true :=
  isPrefixOf?_word hk h.chars (fun he => hne (String.toList_inj.1 he)) hd rest

/-! ### The starts of statements -/

theorem return? (hd : Token.isNameChar d = false) : return? (name.toList ++ d :: rest) = none := by
  have hne : name ≠ "return" := by
    rintro rfl
    exact h.free (by decide)
  unfold Procedure.return?
  rcases h.after? rest (k := "return") (by decide) hne hd with ha | ⟨c, ds, ha, hc⟩
  · rw [ha]
  · have hp : c ≠ '(' := by
      rintro rfl
      cases hc
    simp [ha, Token.isBlank_of_isNameChar hc, hp]

theorem declaration? (hd : Token.isNameChar d = false) : declaration? (name.toList ++ d :: rest) = none := by
  have hm : name ∉ variableModifiers := fun hm => h.free (by simp [keywords, hm])
  have ht : name ∉ variableTypes := fun ht => h.free (by simp [keywords, ht])
  simp [Procedure.declaration?, leadingWords_of_none (leadingWord?_none (by decide) h.chars hm hd rest),
    leadingWord?_none (by decide) h.chars ht hd rest]

theorem counting? (hd : isWord d = false) : counting? (name.toList ++ d :: rest) =
    if trimLeft (d :: rest) = ['+', '+'] then some (name.toList, true)
    else if trimLeft (d :: rest) = ['-', '-'] then some (name.toList, false)
    else none := by
  have hn := h.name? rest hd
  obtain ⟨c, cs, hcs, hc⟩ := h.head
  unfold Procedure.counting?
  simp only
  split
  · rename_i up behind hsign
    rw [hcs] at hsign
    split at hsign
    · rename_i hcons
      obtain ⟨rfl, -⟩ := List.cons.inj hcons
      cases hc
    · rename_i hcons
      obtain ⟨rfl, -⟩ := List.cons.inj hcons
      cases hc
    · cases hsign
  · rw [hn]
    simp only [Option.bind_eq_bind, Option.bind_some]
    generalize trimLeft (d :: rest) = ts
    split
    · rename_i up hsign
      split at hsign <;> cases hsign <;> rfl
    · rename_i hsign
      rw [if_neg, if_neg]
      · rintro rfl
        exact hsign false rfl
      · rintro rfl
        exact hsign true rfl

/-- What stands behind a name and its indices decides whether the text is an assignment to it. -/
theorem assignment? (hd : isWord d = false) {indices : List (List Char)} {behind : List Char}
    (hb : bracketGroups (trimLeft (d :: rest)) = (indices, behind)) : assignment? (name.toList ++ d :: rest) =
      (assignOperator? behind).bind fun x =>
        (nonempty? (trimLeft x.2)).map fun value => ⟨name.toList, indices, x.1, value⟩ := by
  simp only [Procedure.assignment?, h.name? rest hd, hb, Option.bind_eq_bind, Option.bind_some, Option.pure_def,
    Option.map_eq_bind]
  rfl

/-- A name is not counted if a space comes later. -/
theorem counting?_none (hd : isWord d = false) (hs : ' ' ∈ trimLeft (d :: rest)) :
    Procedure.counting? (name.toList ++ d :: rest) = none := by
  rw [h.counting? rest hd, if_neg, if_neg]
  all_goals
    intro hsign
    rw [hsign] at hs
    exact absurd hs (by decide)

end Identifier

/-! ### Texts that start with a word -/

/-- The text starts with a word, and goes on with another character. -/
structure Headed (w : String) (cs : List Char) : Prop where
  chars : ∀ c ∈ w.toList, Token.isNameChar c = true
  ne_empty : w.toList ≠ []
  next : ∃ d rest, cs = w.toList ++ d :: rest ∧ isCalleeChar d = false

namespace Headed

variable {w : String} {cs : List Char} (h : Headed w cs)
include h

theorem append (rest : List Char) : Headed w (cs ++ rest) := by
  obtain ⟨d, ds, rfl, hd⟩ := h.next
  exact ⟨h.chars, h.ne_empty, d, ds ++ rest, by simp, hd⟩

theorem head : ∃ c ds, cs = c :: ds ∧ Token.isNameChar c = true := by
  obtain ⟨d, ds, rfl, -⟩ := h.next
  cases hw : w.toList with
  | nil => exact absurd hw h.ne_empty
  | cons c w' => exact ⟨c, _, rfl, h.chars c (by simp [hw])⟩

theorem word : word cs = w.toList := by
  obtain ⟨d, ds, rfl, hd⟩ := h.next
  exact takeWhile_append_cons (fun c hc => by simp [isCalleeChar, h.chars c hc]) hd ds

theorem trimLeft : trimLeft cs = cs := by
  obtain ⟨c, ds, rfl, hc⟩ := h.head
  exact trimLeft_cons (Token.isBlank_of_isNameChar hc) ds

theorem comesNext {k : String} (hk : ∀ c ∈ k.toList, Token.isNameChar c = true) (hne : w ≠ k) :
    comesNext k cs = false := by
  rw [Procedure.comesNext, h.trimLeft]
  obtain ⟨d, ds, rfl, hd⟩ := h.next
  have hd : Token.isNameChar d = false := by
    rw [isCalleeChar, Bool.or_eq_false_iff] at hd
    exact hd.1
  rcases isPrefixOf?_word hk h.chars (fun he => hne (String.toList_inj.1 he)) hd ds with ha | ⟨c, ds', ha, hc⟩
  · rw [after?, ha]
  · rw [after?, ha]
    simp [Token.startsWith, hc]

theorem comesNext_self : Procedure.comesNext w cs = true := by
  rw [Procedure.comesNext, h.trimLeft]
  obtain ⟨d, ds, rfl, hd⟩ := h.next
  rw [isCalleeChar, Bool.or_eq_false_iff] at hd
  have hafter : after? w (w.toList ++ d :: ds) = some (d :: ds) := by
    rw [after?]
    induction w.toList with
    | nil => rfl
    | cons c w ih => rwa [List.cons_append, isPrefixOf?_cons, if_pos (beq_self_eq_true c)]
  rw [hafter]
  simp [Token.startsWith, hd.1]

end Headed

def blockWords : List String := ["for", "if", "else", "do", "while", "switch"]

theorem Identifier.headed {name : String} (h : Identifier name) {d : Char} (hd : isCalleeChar d = false)
    (rest : List Char) : Headed name (name.toList ++ d :: rest) :=
  ⟨h.chars, h.solid.ne_nil, d, rest, rfl, hd⟩

theorem Identifier.not_mem_blockWords {name : String} (h : Identifier name) : name ∉ blockWords := fun hm =>
  h.free ((by decide : ∀ w ∈ blockWords, w ∈ keywords) name hm)

end RunningLights
