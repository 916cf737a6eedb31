import Mathlib.Data.List.Basic
import Mathlib.Data.List.TakeWhile
import RunningLights.Proofs.Program.Operands

/-!
# How the texts before braces end

A brace may belong to a value, as that of an initial list does; then the text before it ends open, with an equals sign,
a comma or an opening bracket.

* `lastInk` — the last character of a text that is no blank;
* `endsOpen` — the text ends as the text before a value in braces does;
* `endsOpen_of_lambdaHead`, `endsOpen_of_functionHead` — no head of a lambda or a function ends so.
-/

namespace RunningLights

open Procedure Text

namespace Procedure

/-! ### The last characters of texts -/

/-- The last character that is no blank. -/
def lastInk (cs : List Char) : Option Char := (trimLeft cs.reverse).head?

/-- A value in braces may stand behind the character. -/
def opensBrace (c : Char) : Bool := ['=', ',', '(', '['].contains c

/-- The text ends as the text before a value in braces does. -/
def endsOpen (cs : List Char) : Bool := (lastInk cs).any opensBrace

theorem opensBrace_eq_false {ds : List Char} (hds : ∀ d ∈ ['=', ',', '(', '['], d ∈ ds) {c : Char} (h : c ∉ ds) :
    opensBrace c = false := by
  have hc : c ∉ ['=', ',', '(', '['] := fun hm => h (hds c hm)
  simpa [opensBrace] using hc

section LastInk

variable {cs : List Char}

theorem lastInk_append (cs ds : List Char) : lastInk (cs ++ ds) = (lastInk ds).or (lastInk cs) := by
  rw [lastInk, trimLeft, List.reverse_append, List.dropWhile_append]
  cases h : ds.reverse.dropWhile isBlank with
  | nil => simp [lastInk, trimLeft, h]
  | cons c rest => simp [lastInk, trimLeft, h]

theorem lastInk_of_blank (h : ∀ c ∈ cs, isBlank c = true) : lastInk cs = none := by
  have hdrop : cs.reverse.dropWhile isBlank = [] := List.dropWhile_eq_nil_iff.2 (by simpa using h)
  rw [lastInk, trimLeft, hdrop]
  rfl

theorem lastInk_trimLeft (cs : List Char) : lastInk (trimLeft cs) = lastInk cs := by
  have hblank : lastInk (cs.takeWhile isBlank) = none :=
    lastInk_of_blank fun _ hc => List.mem_takeWhile_imp hc
  have happend := lastInk_append (cs.takeWhile isBlank) (trimLeft cs)
  rw [trimLeft, List.takeWhile_append_dropWhile] at happend
  rw [happend, hblank, Option.or_none]
  rfl

theorem lastInk_trim (cs : List Char) : lastInk (trim cs) = lastInk cs := by
  rw [trim, trimRight, lastInk, List.reverse_reverse]
  show (trimLeft (trimLeft (trimLeft cs).reverse)).head? = _
  rw [trimLeft_trimLeft, ← lastInk, lastInk_trimLeft]

theorem mem_of_lastInk {c : Char} (h : lastInk cs = some c) : c ∈ cs := by
  have hmem := List.mem_of_mem_head? h
  exact List.mem_reverse.1 ((List.dropWhile_sublist isBlank).mem hmem)

theorem isOpenValue_trim (cs : List Char) : Reader.isOpenValue (trim cs) = (lastInk cs).all opensBrace := by
  have hlast : (trim cs).getLast? = lastInk cs := by
    rw [trim, trimRight, List.getLast?_reverse]
    exact lastInk_trimLeft cs
  rw [Reader.isOpenValue, hlast]
  cases lastInk cs <;> rfl

/-- A text that is no blank is the text before a value in braces if it ends open. -/
theorem isOpenValue_trim_eq_false {c : Char} (hc : c ∈ cs) (hink : isBlank c = false) :
    Reader.isOpenValue (trim cs) = false ↔ endsOpen cs = false := by
  rw [isOpenValue_trim, endsOpen]
  cases hlast : lastInk cs with
  | none =>
    have hnil : cs.reverse.dropWhile isBlank = [] := List.head?_eq_none_iff.1 hlast
    have hblank := List.dropWhile_eq_nil_iff.1 hnil c (List.mem_reverse.2 hc)
    rw [hink] at hblank
    cases hblank
  | some d => rfl

theorem endsOpen_trimLeft (cs : List Char) : endsOpen (trimLeft cs) = endsOpen cs := by
  rw [endsOpen, lastInk_trimLeft, endsOpen]

theorem endsOpen_of_forall (h : ∀ c ∈ cs, opensBrace c = false) : endsOpen cs = false := by
  rw [endsOpen]
  cases hc : lastInk cs with
  | none => rfl
  | some c => exact h c (mem_of_lastInk hc)

/-- Text that is not open is not opened by text that is not open. -/
theorem endsOpen_append (h : endsOpen cs = false) (ds : List Char) : endsOpen (cs ++ ds) = endsOpen ds := by
  rw [endsOpen, lastInk_append, endsOpen]
  cases hds : lastInk ds with
  | none => exact h
  | some c => rfl

theorem lastInk_cons {c : Char} (h : isBlank c = false) (cs : List Char) :
    lastInk (c :: cs) = (lastInk cs).or (some c) := by
  have hc : lastInk [c] = some c := by
    rw [lastInk, List.reverse_singleton, trimLeft_cons h]
    rfl
  rw [← hc, ← lastInk_append]
  rfl

end LastInk

/-! ### Heads of blocks do not end open -/

section Suffixes

variable {k : String} {cs rest : List Char}

theorem trimLeft_suffix (cs : List Char) : trimLeft cs <:+ cs := List.dropWhile_suffix _

theorem after?_suffix (h : after? k cs = some rest) : rest <:+ cs :=
  ⟨k.toList, List.isPrefixOf?_eq_some_iff_append_eq.1 h⟩

theorem afterBlanks?_suffix (h : afterBlanks? cs = some rest) : rest <:+ cs := by
  rw [afterBlanks?] at h
  split at h
  · exact Option.some.inj h ▸ trimLeft_suffix cs
  · cases h

theorem name?_suffix {name : List Char} (h : name? cs = some (name, rest)) : rest <:+ cs := by
  cases cs with
  | nil => cases h
  | cons c cs =>
    rw [name?] at h
    split at h
    · obtain ⟨-, rfl⟩ := Prod.mk.inj (Option.some.inj h)
      exact (List.dropWhile_suffix _).trans (List.suffix_cons c cs)
    · cases h

theorem between?_suffix {opening closing : Char} {inner : List Char}
    (h : between? opening closing cs = some (inner, rest)) : closing :: rest <:+ cs := by
  cases cs with
  | nil => cases h
  | cons c cs =>
    rw [between?] at h
    split at h
    · cases hdrop : cs.dropWhile (· != closing) with
      | nil => simp only [hdrop, reduceCtorEq] at h
      | cons d ds =>
        simp only [hdrop, Option.some.injEq, Prod.mk.injEq] at h
        obtain ⟨-, rfl⟩ := h
        have hd : d = closing := by
          have hhead := List.head?_dropWhile_not (· != closing) cs
          simpa [hdrop] using hhead
        have hsuffix : d :: ds <:+ cs := hdrop ▸ List.dropWhile_suffix _
        exact hd ▸ hsuffix.trans (List.suffix_cons c cs)
    · cases h

theorem leadingWord?_suffix {words : List String} {w : String} (h : leadingWord? words cs = some (w, rest)) :
    rest <:+ cs := by
  simp only [leadingWord?] at h
  split at h
  · obtain ⟨ds, hds, heq⟩ := Option.map_eq_some_iff.1 h
    obtain ⟨-, rfl⟩ := Prod.mk.inj heq
    exact (afterBlanks?_suffix hds).trans (List.dropWhile_suffix _)
  · cases h

theorem leadingWords_suffix {words ws : List String} (h : (ws, rest) ∈ leadingWords words cs) : rest <:+ cs := by
  fun_induction leadingWords words cs generalizing ws with
  | case1 cs hnone =>
    obtain ⟨-, rfl⟩ := Prod.mk.inj (List.mem_singleton.1 h)
    exact List.suffix_rfl
  | case2 cs w ds hsome hlt ih =>
    rcases List.mem_append.1 h with hm | hm
    · obtain ⟨⟨vs, r⟩, hr, heq⟩ := List.mem_map.1 hm
      obtain ⟨-, rfl⟩ := Prod.mk.inj heq
      exact (ih hr).trans (leadingWord?_suffix hsome)
    · obtain ⟨-, rfl⟩ := Prod.mk.inj (List.mem_singleton.1 hm)
      exact List.suffix_rfl

theorem afterResultType_suffix (h : rest ∈ afterResultType cs) : rest <:+ cs := by
  have hword : cs.dropWhile isAsciiWord <:+ cs := List.dropWhile_suffix _
  simp only [afterResultType] at h
  split at h
  · split at h
    · split at h
      · rename_i longer hlonger
        obtain ⟨ds, hds, hint⟩ := Option.bind_eq_some_iff.1 hlonger
        rcases List.mem_cons.1 h with rfl | h
        · exact ((after?_suffix hint).trans (afterBlanks?_suffix hds)).trans hword
        · exact List.mem_singleton.1 h ▸ hword
      · exact List.mem_singleton.1 h ▸ hword
    · exact List.mem_singleton.1 h ▸ hword
  · cases h

theorem afterTypeGap?_suffix (h : afterTypeGap? cs = some rest) : rest <:+ cs := by
  have hmark {c : Char} {ds : List Char} (hcs : trimLeft cs = c :: ds) (hds : afterBlanks? ds = some rest) :
      rest <:+ cs :=
    (afterBlanks?_suffix hds).trans ((List.suffix_cons c ds).trans (hcs ▸ trimLeft_suffix cs))
  rw [afterTypeGap?] at h
  split at h
  · rename_i hcs
    exact hmark hcs h
  · rename_i hcs
    exact hmark hcs h
  · exact afterBlanks?_suffix h

end Suffixes

section Tails

variable {k : String} {cs rest : List Char}

theorem endsOpen_of_after (hk : ∀ c ∈ k.toList, opensBrace c = false) (h : after? k cs = some rest) :
    endsOpen cs = endsOpen rest := by
  obtain rfl := List.isPrefixOf?_eq_some_iff_append_eq.1 h
  exact endsOpen_append (endsOpen_of_forall hk) rest

/-- The text behind a word that it may start with, and behind the blanks there. -/
def dropWord (k : String) (cs : List Char) : List Char :=
  match after? k cs with
  | some rest => trimLeft rest
  | none => cs

theorem endsOpen_dropWord (hk : ∀ c ∈ k.toList, opensBrace c = false) (cs : List Char) :
    endsOpen (dropWord k cs) = endsOpen cs := by
  unfold dropWord
  split
  · rename_i rest hafter
    rw [endsOpen_trimLeft, endsOpen_of_after hk hafter]
  · rfl

theorem endsOpen_of_isLambdaTail (h : isLambdaTail cs) : endsOpen cs = false := by
  rw [← endsOpen_trimLeft, ← endsOpen_dropWord (k := "mutable") (by decide)]
  have htail : (match after? "->" (dropWord "mutable" (trimLeft cs)) with
      | some rest => Token.startsWith isTypeChar (trimLeft rest) &&
        (trimLeft ((trimLeft rest).dropWhile isTypeChar)).isEmpty
      | none => (dropWord "mutable" (trimLeft cs)).isEmpty) = true := h
  split at htail
  · rename_i rest harrow
    rw [Bool.and_eq_true, List.isEmpty_iff] at htail
    have htype : endsOpen ((trimLeft rest).takeWhile isTypeChar) = false := endsOpen_of_forall fun c hc =>
      opensBrace_eq_false (fun _ => id) (not_mem_of_class (by decide) (List.mem_takeWhile_imp hc))
    have hbehind : endsOpen ((trimLeft rest).dropWhile isTypeChar) = false := by
      rw [← endsOpen_trimLeft, htail.2]
      rfl
    have hrest := endsOpen_append htype ((trimLeft rest).dropWhile isTypeChar)
    rw [List.takeWhile_append_dropWhile, endsOpen_trimLeft] at hrest
    rw [endsOpen_of_after (by decide) harrow, hrest, hbehind]
  · rw [List.isEmpty_iff.1 htail]
    rfl

theorem endsOpen_of_isFunctionTail (h : isFunctionTail cs) : endsOpen cs = false := by
  rw [← endsOpen_trimLeft, ← endsOpen_dropWord (k := "const") (by decide),
    ← endsOpen_dropWord (k := "override") (by decide)]
  have htail : (dropWord "override" (dropWord "const" (trimLeft cs))).isEmpty = true := h
  rw [List.isEmpty_iff.1 htail]
  rfl

theorem endsOpen_of_suffix (h : ')' :: rest <:+ cs) (hrest : endsOpen rest = false) : endsOpen cs = false := by
  obtain ⟨before, rfl⟩ := h
  rw [endsOpen, lastInk_append, lastInk_cons (by decide)]
  rw [endsOpen] at hrest
  cases hlast : lastInk rest with
  | none => rfl
  | some c => rwa [hlast] at hrest

theorem endsOpen_of_lambdaHead {l : LambdaHead} (h : lambdaHead? cs = some l) : endsOpen cs = false := by
  simp only [lambdaHead?, Option.bind_eq_bind, Option.bind_eq_some_iff, Prod.exists] at h
  obtain ⟨c₁, h₁, c₂, h₂, name, c₃, h₃, c₄, h₄, capture, c₅, h₅, params, c₆, h₆, h⟩ := h
  have hname : c₃ <:+ cs := (name?_suffix h₃).trans ((afterBlanks?_suffix h₂).trans (after?_suffix h₁))
  have hcapture : c₅ <:+ c₃ := (List.suffix_cons _ _).trans <| (between?_suffix h₅).trans <|
    (trimLeft_suffix _).trans <| (after?_suffix h₄).trans (trimLeft_suffix _)
  have hparams : ')' :: c₆ <:+ c₅ := (between?_suffix h₆).trans (trimLeft_suffix _)
  split at h
  · rename_i htail
    exact endsOpen_of_suffix (hparams.trans (hcapture.trans hname)) (endsOpen_of_isLambdaTail htail)
  · cases h

theorem namedParams?_suffix {f : FunctionHead} (h : namedParams? cs = some f) :
    ∃ rest, ')' :: rest <:+ cs ∧ isFunctionTail rest := by
  simp only [namedParams?, Option.bind_eq_bind] at h
  split at h
  · cases h
  · obtain ⟨⟨params, rest⟩, hparams, h⟩ := Option.bind_eq_some_iff.1 h
    have hsuffix := (between?_suffix hparams).trans ((trimLeft_suffix _).trans (List.dropWhile_suffix _))
    split at h
    · cases h
    · split at h
      · rename_i htail
        exact ⟨rest, hsuffix, htail⟩
      · cases h

theorem endsOpen_of_functionHead {f : FunctionHead} (h : functionHead? cs = some f) : endsOpen cs = false := by
  obtain ⟨⟨ws, c₁⟩, h₁, h⟩ := List.exists_of_findSome?_eq_some h
  obtain ⟨c₂, h₂, h⟩ := List.exists_of_findSome?_eq_some h
  obtain ⟨c₃, h₃, h⟩ := Option.bind_eq_some_iff.1 h
  obtain ⟨rest, hrest, htail⟩ := namedParams?_suffix h
  have htype := (afterTypeGap?_suffix h₃).trans ((afterResultType_suffix h₂).trans (leadingWords_suffix h₁))
  exact endsOpen_of_suffix (hrest.trans htype) (endsOpen_of_isFunctionTail htail)

end Tails

end Procedure

end RunningLights
