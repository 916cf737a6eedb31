import RunningLights.Procedure.Reader

/-!
# Text that scanners pass over

The scanners of program text count brackets and look for an end outside of them:

* `Nested` — text in which every parenthesis and square bracket is closed;
* `Scanner` — what the scanners have in common, so that `Nested.scanned` is about all of them;
* `Nested.splitGroup`, `Nested.splitAtDepth`, `Nested.splitHead`, `Nested.splitStatement` — no scanner ends inside of
  such a text, unless at a character outside of its brackets;
* `isQuiet` — text in which no comment and no quote starts, which is left alone when comments are blanked.
-/

namespace RunningLights.Procedure

/-- A property of some characters is decided by a look at each of them, and not at every character that there is. -/
instance decidableForallMem {p : Char → Prop} [DecidablePred p] (cs : List Char) : Decidable (∀ c ∈ cs, p c) :=
  List.decidableBAll p cs

/-! ### Nested text -/

/-- Every parenthesis and square bracket is closed, there are no braces, and every character outside of brackets
satisfies `p`. -/
inductive Nested : (Char → Prop) → List Char → Prop
  | nil {p : Char → Prop} : Nested p []
  | char {p : Char → Prop} {c : Char} {cs : List Char} :
      bracketStep c = 0 → p c → Nested p cs → Nested p (c :: cs)
  | parens {p : Char → Prop} {inner cs : List Char} :
      Nested (fun _ => True) inner → Nested p cs → Nested p ('(' :: inner ++ ')' :: cs)
  | brackets {p : Char → Prop} {inner cs : List Char} :
      Nested (fun _ => True) inner → Nested p cs → Nested p ('[' :: inner ++ ']' :: cs)

namespace Nested

variable {p q : Char → Prop} {cs ds : List Char}

theorem append (h : Nested p cs) (h' : Nested p ds) : Nested p (cs ++ ds) := by
  induction h with
  | nil => exact h'
  | char hc hp _ ih => exact .char hc hp (ih h')
  | parens hi _ _ ih =>
    rw [List.append_assoc, List.cons_append]
    exact .parens hi (ih h')
  | brackets hi _ _ ih =>
    rw [List.append_assoc, List.cons_append]
    exact .brackets hi (ih h')

theorem of_forall (h : ∀ c ∈ cs, bracketStep c = 0 ∧ p c) : Nested p cs := by
  induction cs with
  | nil => exact .nil
  | cons c cs ih =>
    obtain ⟨hc, hcs⟩ := List.forall_mem_cons.1 h
    exact .char hc.1 hc.2 (ih hcs)

theorem mono (h : Nested p cs) (hpq : ∀ c ∈ cs, p c → q c) : Nested q cs := by
  induction h with
  | nil => exact .nil
  | char hc hp _ ih => exact .char hc (hpq _ List.mem_cons_self hp) (ih fun c h => hpq c (List.mem_cons_of_mem _ h))
  | parens hi _ _ ih => exact .parens hi (ih fun c h => hpq c (by simp [h]))
  | brackets hi _ _ ih => exact .brackets hi (ih fun c h => hpq c (by simp [h]))

end Nested

theorem nestStep_of_bracketStep {c : Char} (h : bracketStep c = 0) : nestStep c = 0 := by
  unfold bracketStep at h
  unfold nestStep
  split at h
  · cases h
  · split at h
    · cases h
    · simp_all

theorem bracketStep_eq_zero {c : Char} (h : c ∉ ['(', ')', '[', ']', '\x7b', '\x7d']) : bracketStep c = 0 := by
  simp only [List.mem_cons, List.not_mem_nil, or_false, not_or] at h
  simp [bracketStep, h]

theorem ne_of_bracketStep {c d : Char} (hc : bracketStep c = 0) (hd : bracketStep d ≠ 0) : c ≠ d := by
  rintro rfl
  exact hd hc

/-! ### Groups in parentheses -/

section SplitGroup

variable (depth : Nat) (cs : List Char)

theorem splitGroup_other {c : Char} (ho : c ≠ '(') (hc : c ≠ ')') :
    splitGroup depth (c :: cs) = (splitGroup depth cs).map fun x => (c :: x.1, x.2) := by
  rw [splitGroup]
  · simp [ho, hc]
  · exact fun _ h => hc h

theorem splitGroup_open :
    splitGroup depth ('(' :: cs) = (splitGroup (depth + 1) cs).map fun x => ('(' :: x.1, x.2) := by
  rw [splitGroup]
  · simp
  · exact fun _ h => absurd h (by decide)

theorem splitGroup_close :
    splitGroup (depth + 1) (')' :: cs) = (splitGroup depth cs).map fun x => (')' :: x.1, x.2) := by
  rw [splitGroup]
  · simp
  · exact fun h _ => absurd h (Nat.succ_ne_zero depth)

end SplitGroup

/-- Nested text belongs to the group that it stands in. -/
theorem Nested.splitGroup {p : Char → Prop} {cs : List Char} (h : Nested p cs) (depth : Nat) (rest : List Char) :
    splitGroup depth (cs ++ rest) = (splitGroup depth rest).map fun x => (cs ++ x.1, x.2) := by
  induction h generalizing depth rest with
  | nil => simp
  | char hc _ _ ih =>
    rw [List.cons_append, splitGroup_other _ _ (ne_of_bracketStep hc (by decide)) (ne_of_bracketStep hc (by decide)),
      ih, Option.map_map]
    rfl
  | parens _ _ ihi ih =>
    simp only [List.cons_append, List.append_assoc]
    rw [splitGroup_open, ihi, splitGroup_close, ih]
    simp [Option.map_map, Function.comp_def]
  | brackets _ _ ihi ih =>
    simp only [List.cons_append, List.append_assoc]
    rw [splitGroup_other _ _ (by decide) (by decide), ihi, splitGroup_other _ _ (by decide) (by decide), ih]
    simp [Option.map_map, Function.comp_def]

theorem splitGroup_of_nested {p : Char → Prop} {cs : List Char} (h : Nested p cs) (rest : List Char) :
    Procedure.splitGroup 0 (cs ++ ')' :: rest) = some (cs, rest) := by
  rw [h.splitGroup, Procedure.splitGroup]
  simp

/-! ### Scanners that count brackets -/

/-- A scanner with a depth of brackets and the reversed text that it has read.  Outside of brackets it looks at the
characters that satisfy `stop`, and it takes every other one with `take`. -/
structure Scanner {β : Type} (scan : Int → List Char → List Char → β) (take : Char → β → β) (step : Char → Int)
    (stop : Char → Prop) : Prop where
  pass {depth : Int} {c : Char} (before cs : List Char) : (depth ≤ 0 → ¬ stop c) →
    scan depth before (c :: cs) = take c (scan (depth + step c) (c :: before) cs)
  other {c : Char} : bracketStep c = 0 → step c = 0
  opening : ∀ c ∈ ['(', '['], step c = 1 ∧ ¬ stop c
  closing : ∀ c ∈ [')', ']'], step c = -1 ∧ ¬ stop c

section Scanner

variable {β : Type} {scan : Int → List Char → List Char → β} {take : Char → β → β} {step : Char → Int}
  {stop : Char → Prop} (hs : Scanner scan take step stop) {p : Char → Prop} {cs : List Char}
include hs

/-- A scanner takes nested text, if it looks at nothing outside of its brackets. -/
theorem Nested.scanned (h : Nested p cs) {depth : Int} (hd : 0 ≤ depth) (hp : depth ≤ 0 → ∀ c, p c → ¬ stop c)
    (before rest : List Char) :
    scan depth before (cs ++ rest) = cs.foldr take (scan depth (cs.reverse ++ before) rest) := by
  have hopen {c : Char} (hc : c ∈ ['(', '[']) {depth : Int} (before cs : List Char) :
      scan depth before (c :: cs) = take c (scan (depth + 1) (c :: before) cs) := by
    rw [hs.pass _ _ fun _ => (hs.opening _ hc).2, (hs.opening _ hc).1]
  have hclose {c : Char} (hc : c ∈ [')', ']']) {depth : Int} (before cs : List Char) :
      scan (depth + 1) before (c :: cs) = take c (scan depth (c :: before) cs) := by
    rw [hs.pass _ _ fun _ => (hs.closing _ hc).2, (hs.closing _ hc).1, Int.add_neg_cancel_right]
  induction h generalizing depth before rest with
  | nil => rfl
  | char hc hpc _ ih =>
    rw [List.cons_append, hs.pass _ _ fun hle => hp hle _ hpc, hs.other hc, Int.add_zero, ih hd hp]
    simp
  | parens _ _ ihi ih =>
    simp only [List.cons_append, List.append_assoc]
    rw [hopen (by simp), ihi (by omega) (by omega), hclose (by simp), ih hd hp]
    simp
  | brackets _ _ ihi ih =>
    simp only [List.cons_append, List.append_assoc]
    rw [hopen (by simp), ihi (by omega) (by omega), hclose (by simp), ih hd hp]
    simp

end Scanner

/-! ### Separators -/

/-- The parts of a text that begins with `cs` and goes on with the given parts. -/
def prepend (cs : List Char) : List (List Char) → List (List Char)
  | [] => [cs]
  | part :: parts => (cs ++ part) :: parts

theorem foldr_prepend (cs part : List Char) (parts : List (List Char)) :
    cs.foldr (fun c => prepend [c]) (part :: parts) = (cs ++ part) :: parts := by
  induction cs with
  | nil => rfl
  | cons c cs ih =>
    rw [List.foldr_cons, ih]
    rfl

/-- The marks that texts are split at. -/
theorem splitAtDepth_scanner {separator : Char} (hsep : separator = ',' ∨ separator = ';') :
    Scanner (fun depth _ => splitAtDepth separator depth) (fun c => prepend [c]) bracketStep (· = separator) where
  pass {depth c} _ cs h := by
    rw [splitAtDepth, if_neg]
    · cases splitAtDepth separator (depth + bracketStep c) cs <;> rfl
    · simp only [Bool.and_eq_true, beq_iff_eq, decide_eq_true_eq]
      exact fun hc => h hc.2 hc.1
  other h := h
  opening := by rcases hsep with rfl | rfl <;> decide
  closing := by rcases hsep with rfl | rfl <;> decide

/-- Nested text belongs to one part, if no separator stands outside of its brackets. -/
theorem Nested.splitAtDepth {p : Char → Prop} {cs : List Char} (h : Nested p cs) {separator : Char}
    (hsep : separator = ',' ∨ separator = ';') (hp : ∀ c, p c → c ≠ separator) {rest part : List Char}
    {parts : List (List Char)} (hrest : splitAtDepth separator 0 rest = part :: parts) :
    splitAtDepth separator 0 (cs ++ rest) = (cs ++ part) :: parts := by
  rw [h.scanned (splitAtDepth_scanner hsep) (Int.le_refl 0) (fun _ => hp) [] rest, hrest, foldr_prepend]

theorem Nested.splitAtDepth_end {p : Char → Prop} {cs : List Char} (h : Nested p cs) {separator : Char}
    (hsep : separator = ',' ∨ separator = ';') (hp : ∀ c, p c → c ≠ separator) :
    Procedure.splitAtDepth separator 0 cs = [cs] := by
  have hempty : Procedure.splitAtDepth separator 0 [] = [[]] := rfl
  simpa using h.splitAtDepth hsep hp hempty

/-- The parts behind a separator and a space. -/
theorem splitAtDepth_separator {separator : Char} (hsep : separator = ',' ∨ separator = ';') {cs part : List Char}
    {parts : List (List Char)} (h : splitAtDepth separator 0 cs = part :: parts) :
    splitAtDepth separator 0 (separator :: ' ' :: cs) = [] :: (' ' :: part) :: parts := by
  have hspace : Nested (· = ' ') [' '] := .char rfl rfl .nil
  have hne : ' ' ≠ separator := by rcases hsep with rfl | rfl <;> decide
  have hs := hspace.splitAtDepth hsep (fun c hc => hc ▸ hne) h
  rw [List.singleton_append, List.singleton_append] at hs
  rw [Procedure.splitAtDepth, if_pos (by simp), hs]

/-! ### The ends of heads and statements -/

theorem foldr_pair {α : Type} (cs ds : List Char) (a : α) :
    cs.foldr (fun c (x : List Char × α) => (c :: x.1, x.2)) (ds, a) = (cs ++ ds, a) := by
  induction cs with
  | nil => rfl
  | cons c cs ih => rw [List.foldr_cons, ih]; rfl

theorem splitHead_scanner :
    Scanner (fun depth _ => splitHead depth) (fun c x => (c :: x.1, x.2)) nestStep (fun c => endsHead c = true) where
  pass {depth c} _ cs h := by
    rw [splitHead, if_neg]
    simp only [Bool.and_eq_true, decide_eq_true_eq]
    exact fun hc => h hc.2 hc.1
  other := nestStep_of_bracketStep
  opening := by decide
  closing := by decide

theorem splitStatement_scanner :
    Scanner splitStatement (fun c x => (c :: x.1, x.2)) bracketStep (fun c => c ∈ ['\x7d', ';', '\n']) where
  pass {depth c} before cs h := by
    simp only [List.mem_cons, List.not_mem_nil, or_false, not_or] at h
    rw [splitStatement, if_neg, if_neg, if_neg]
    all_goals
      simp only [Bool.and_eq_true, beq_iff_eq, decide_eq_true_eq]
      intro hc
    · exact (h hc.1.2).2.2 hc.1.1
    · exact (h hc.2).2.1 hc.1
    · exact (h hc.2).1 hc.1
  other h := h
  opening := by decide
  closing := by decide

theorem Nested.splitHead {p : Char → Prop} {cs : List Char} (h : Nested p cs) (hp : ∀ c, p c → endsHead c = false)
    {c : Char} (hc : endsHead c = true) (rest : List Char) : splitHead 0 (cs ++ c :: rest) = (cs, c :: rest) := by
  have hstop : Procedure.splitHead 0 (c :: rest) = ([], c :: rest) := by
    rw [Procedure.splitHead, if_pos (by simp [hc])]
  rw [h.scanned splitHead_scanner (Int.le_refl 0) (fun _ c hpc => by simp [hp c hpc]) [] _, hstop, foldr_pair,
    List.append_nil]

theorem Nested.splitStatement {p : Char → Prop} {cs : List Char} (h : Nested p cs)
    (hp : ∀ c, p c → c ∉ ['\x7d', ';', '\n']) (rest : List Char) :
    splitStatement 0 [] (cs ++ ';' :: rest) = (cs, rest) := by
  have hstop (before : List Char) : Procedure.splitStatement 0 before (';' :: rest) = ([], rest) := by
    rw [Procedure.splitStatement, if_neg (by simp), if_pos (by simp)]
  rw [h.scanned splitStatement_scanner (Int.le_refl 0) (fun _ => hp) [] _, hstop, foldr_pair, List.append_nil]

/-! ### Comments -/

/-- Behind a slash the text begins no comment. -/
def divides : List Char → Bool
  | c :: _ => c != '/' && c != '*'
  | [] => false

/-- No comment, no directive and no quote starts in the text, nor with its last character. -/
def isQuiet : List Char → Bool
  | [] => true
  | c :: cs => !(['"', '\'', '#'].contains c) && (c != '/' || divides cs) && isQuiet cs

theorem isQuiet_cons {c : Char} {cs : List Char} :
    isQuiet (c :: cs) ↔ c ∉ ['"', '\'', '#'] ∧ (c = '/' → divides cs) ∧ isQuiet cs := by
  simp only [isQuiet, Bool.and_eq_true, Bool.or_eq_true, bne_iff_ne, Bool.not_eq_true', List.contains_eq_mem,
    decide_eq_false_iff_not, and_assoc, ne_eq, Decidable.imp_iff_not_or]

theorem divides_append {cs : List Char} (h : divides cs) (ds : List Char) : divides (cs ++ ds) := by
  cases cs with
  | nil => cases h
  | cons c cs => exact h

theorem isQuiet_append {cs ds : List Char} (hc : isQuiet cs) (hd : isQuiet ds) : isQuiet (cs ++ ds) := by
  induction cs with
  | nil => exact hd
  | cons c cs ih =>
    obtain ⟨hmark, hslash, hcs⟩ := isQuiet_cons.1 hc
    exact isQuiet_cons.2 ⟨hmark, fun h => divides_append (hslash h) ds, ih hcs⟩

theorem isQuiet_slash {cs : List Char} (h : isQuiet cs) (hd : divides cs) : isQuiet ('/' :: cs) :=
  isQuiet_cons.2 ⟨by decide, fun _ => hd, h⟩

theorem isQuiet_of_forall {cs : List Char} (h : ∀ c ∈ cs, c ∉ ['"', '\'', '#', '/']) : isQuiet cs := by
  induction cs with
  | nil => rfl
  | cons c cs ih =>
    obtain ⟨hc, hcs⟩ := List.forall_mem_cons.1 h
    simp only [List.mem_cons, List.not_mem_nil, or_false, not_or] at hc
    exact isQuiet_cons.2 ⟨by simp [hc], fun hs => absurd hs hc.2.2.2, ih hcs⟩

/-- Blanking comments leaves quiet text alone. -/
theorem blankFrom_of_isQuiet {cs : List Char} (h : isQuiet cs) (fresh : Bool) : blankFrom (.code fresh) cs = cs := by
  induction cs generalizing fresh with
  | nil => rw [blankFrom]
  | cons c cs ih =>
    obtain ⟨hmark, hslash, hcs⟩ := isQuiet_cons.1 h
    rw [blankFrom]
    · simp only [List.mem_cons, List.not_mem_nil, or_false, not_or] at hmark
      simp [hmark, ih hcs]
    · rintro ds rfl rfl
      simpa [divides] using hslash rfl
    · rintro ds rfl rfl
      simpa [divides] using hslash rfl

theorem blankComments_of_isQuiet {cs : List Char} (h : isQuiet cs) : blankComments cs = cs :=
  blankFrom_of_isQuiet h true

end RunningLights.Procedure
