import RunningLights.Proofs.Program.Endings
import RunningLights.Proofs.Program.Pieces

/-!
# Looking ahead for the head of a block

Where no keyword comes next, the reader of a program looks for a brace first, with one scanner, and only if it finds
none that a head stands before, it reads a statement, with another scanner.

* `passes` — text that a scanner comes through;
* `behindHead?` — the text behind the brace that the reader finds, and `behindHead?_append` — text that it comes through
  changes nothing about it;
* `readPlain_of_head`, `readPlain_of_statement` — the reader reads a head or a statement accordingly;
* `exists_readStatement` — a statement ends with its line.
-/

namespace RunningLights

open Procedure Text

namespace Procedure

/-! ### Texts that scanners come through -/

/-- A scanner that counts brackets by `step` stops at no character of the text, and behind it all brackets are
closed. -/
def passes (step : Char → Int) (stop : Char → Bool) : (depth : Int) → List Char → Bool
  | depth, [] => depth == 0
  | depth, c :: cs => !(stop c && decide (depth ≤ 0)) && passes step stop (depth + step c) cs

section Passes

variable {step : Char → Int} {stop : Char → Bool} {depth : Int} {cs ds : List Char}

theorem passes_cons {c : Char} : passes step stop depth (c :: cs) ↔
    (depth ≤ 0 → stop c = false) ∧ passes step stop (depth + step c) cs := by
  rw [passes, Bool.and_eq_true]
  refine and_congr_left fun _ => ?_
  cases stop c <;> simp

theorem passes_append (h : passes step stop depth cs) (h' : passes step stop 0 ds) :
    passes step stop depth (cs ++ ds) := by
  induction cs generalizing depth with
  | nil =>
    obtain rfl : depth = 0 := by simpa [passes] using h
    exact h'
  | cons c cs ih =>
    obtain ⟨hc, hcs⟩ := passes_cons.1 h
    exact passes_cons.2 ⟨hc, ih hcs⟩

/-- A scanner takes a text that it comes through. -/
theorem Scanner.scanned {β : Type} {scan : Int → List Char → List Char → β} {take : Char → β → β}
    {stops : Char → Prop} (hs : Scanner scan take step stops) (hstop : ∀ c, stops c → stop c = true)
    (h : passes step stop depth cs) (before rest : List Char) :
    scan depth before (cs ++ rest) = cs.foldr take (scan 0 (cs.reverse ++ before) rest) := by
  induction cs generalizing depth before with
  | nil =>
    obtain rfl : depth = 0 := by simpa [passes] using h
    rfl
  | cons c cs ih =>
    obtain ⟨hc, hcs⟩ := passes_cons.1 h
    rw [List.cons_append, hs.pass _ _ fun hle hm => ?_, ih hcs, List.foldr_cons, List.reverse_cons, List.append_assoc]
    · rfl
    · have hstops := hstop c hm
      rw [hc hle] at hstops
      cases hstops

/-- Coming through a text is scanning it. -/
theorem passes_scanner (hopen : ∀ c ∈ ['(', '['], step c = 1 ∧ ¬ stop c = true)
    (hclose : ∀ c ∈ [')', ']'], step c = -1 ∧ ¬ stop c = true) (hother : ∀ c, bracketStep c = 0 → step c = 0) :
    Scanner (fun depth _ => passes step stop depth) (fun _ b => b) step (fun c => stop c = true) where
  pass {depth c} _ cs h := by
    have hc : (stop c && decide (depth ≤ 0)) = false := by
      rw [Bool.and_eq_false_iff, decide_eq_false_iff_not]
      by_cases hle : depth ≤ 0
      · exact .inl (Bool.eq_false_iff.2 (h hle))
      · exact .inr hle
    rw [passes, hc]
    rfl
  other := hother _
  opening := hopen
  closing := hclose

end Passes

/-- The scanner for the head of a block comes through the text. -/
def passesHead (cs : List Char) : Bool := passes nestStep endsHead 0 cs

/-- The character ends a statement, or may end it. -/
def endsStatement (c : Char) : Bool := c == '\x7d' || c == ';' || c == '\n'

theorem endsStatement_eq_false {ds : List Char} (hds : ∀ d ∈ ['\x7d', ';', '\n'], d ∈ ds) {c : Char} (h : c ∉ ds) :
    endsStatement c = false := by
  have hc : c ∉ ['\x7d', ';', '\n'] := fun hm => h (hds c hm)
  simpa [endsStatement, and_assoc] using hc

/-- The scanner for the end of a statement comes through the text. -/
def passesStatement (cs : List Char) : Bool := passes bracketStep endsStatement 0 cs

theorem splitHead_append {cs : List Char} (h : passesHead cs) (rest : List Char) :
    splitHead 0 (cs ++ rest) = (cs ++ (splitHead 0 rest).1, (splitHead 0 rest).2) :=
  (Scanner.scanned splitHead_scanner (fun _ => id) h [] rest).trans (foldr_pair cs _ _)

theorem splitStatement_append {cs : List Char} (h : passesStatement cs) (before rest : List Char) :
    splitStatement 0 before (cs ++ rest) = (cs ++ (splitStatement 0 (cs.reverse ++ before) rest).1,
      (splitStatement 0 (cs.reverse ++ before) rest).2) := by
  have hstop : ∀ c, c ∈ ['\x7d', ';', '\n'] → endsStatement c = true := by decide
  exact (Scanner.scanned splitStatement_scanner hstop h before rest).trans (foldr_pair cs _ _)

theorem splitHead_of_ends {c : Char} (h : endsHead c = true) (cs : List Char) :
    splitHead 0 (c :: cs) = ([], c :: cs) := by
  rw [splitHead, if_pos (by simp [h])]

theorem splitHead_eq (depth : Int) (cs : List Char) : (splitHead depth cs).1 ++ (splitHead depth cs).2 = cs := by
  induction cs generalizing depth with
  | nil => rfl
  | cons c cs ih =>
    rw [splitHead]
    split
    · rfl
    · exact congrArg (c :: ·) (ih _)

/-- A head that ends before the end of the text ends there in a longer text too. -/
theorem splitHead_append_of_cons {depth : Int} {cs head behind : List Char} {c : Char}
    (h : splitHead depth cs = (head, c :: behind)) (rest : List Char) :
    splitHead depth (cs ++ rest) = (head, c :: (behind ++ rest)) := by
  induction cs generalizing depth head with
  | nil => cases h
  | cons d cs ih =>
    rw [List.cons_append, splitHead]
    rw [splitHead] at h
    split at h
    · rename_i hd
      obtain ⟨rfl, hcs⟩ := Prod.mk.inj h
      obtain ⟨rfl, rfl⟩ := List.cons.inj hcs
      rw [if_pos hd]
    · rename_i hd
      obtain ⟨rfl, hbehind⟩ := Prod.mk.inj h
      rw [if_neg hd, ih (Prod.ext rfl hbehind)]

/-- A group that ends with the text ends there in a longer text too. -/
theorem splitGroup_append {depth : Nat} {cs inner behind : List Char}
    (h : splitGroup depth cs = some (inner, behind)) (rest : List Char) :
    splitGroup depth (cs ++ rest) = some (inner, behind ++ rest) := by
  fun_induction splitGroup depth cs generalizing inner behind with
  | case1 => cases h
  | case2 cs =>
    obtain ⟨rfl, rfl⟩ := Prod.mk.inj (Option.some.inj h)
    rw [List.cons_append, splitGroup]
  | case3 depth c cs hne =>
    rename_i ih
    obtain ⟨⟨inner', behind'⟩, hsplit, heq⟩ := Option.map_eq_some_iff.1 h
    obtain ⟨rfl, rfl⟩ := Prod.mk.inj heq
    rw [List.cons_append, splitGroup]
    · rw [ih hsplit]
      rfl
    · exact hne

section Nested

variable {p : Char → Prop} {cs : List Char} (h : Nested p cs)
include h

theorem Nested.passes {step : Char → Int} {stop : Char → Bool}
    (hs : Scanner (fun depth _ => passes step stop depth) (fun _ b => b) step (fun c => stop c = true))
    (hp : ∀ c, p c → stop c = false) : passes step stop 0 cs := by
  have hscan := h.scanned hs (Int.le_refl 0) (fun _ c hc => by simp [hp c hc]) [] []
  rw [List.append_nil] at hscan
  rw [hscan]
  clear h hscan
  induction cs with
  | nil => rfl
  | cons c cs ih => exact ih

theorem Nested.passesHead (hp : ∀ c, p c → endsHead c = false) : passesHead cs :=
  h.passes (passes_scanner (by decide) (by decide) fun _ => nestStep_of_bracketStep) hp

theorem Nested.passesStatement (hp : ∀ c, p c → endsStatement c = false) : passesStatement cs :=
  h.passes (passes_scanner (by decide) (by decide) fun _ => id) hp

end Nested

/-! ### Looking for a brace -/

/-- The text behind the first brace outside of parentheses, if no semicolon and no closing brace comes before it and
the text before it does not end open. -/
def behindHead? (cs : List Char) : Option (List Char) :=
  match splitHead 0 cs with
  | (head, '\x7b' :: rest) => if endsOpen head then none else some rest
  | _ => none

section BehindHead

variable {cs head rest : List Char}

theorem behindHead?_of_brace (h : splitHead 0 cs = (head, '\x7b' :: rest)) :
    behindHead? cs = if endsOpen head then none else some rest := by
  rw [behindHead?]
  simp only [h]

theorem behindHead?_of_ne (h : splitHead 0 cs = (head, rest)) (hne : ∀ ds, rest ≠ '\x7b' :: ds) :
    behindHead? cs = none := by
  rw [behindHead?, h]
  split
  · rename_i heq
    exact absurd (Prod.mk.inj heq).2 (hne _)
  · rfl

theorem behindHead?_eq_some (h : behindHead? cs = some rest) :
    ∃ head, splitHead 0 cs = (head, '\x7b' :: rest) ∧ endsOpen head = false := by
  rw [behindHead?] at h
  split at h
  · rename_i head behind hsplit
    split at h
    · cases h
    · rename_i hopen
      exact ⟨head, Option.some.inj h ▸ hsplit, Bool.eq_false_iff.2 hopen⟩
  · cases h

end BehindHead

/-- Text that the scanner comes through and behind which no value in braces may stand. -/
structure Clear (cs : List Char) : Prop where
  passes : passesHead cs
  ends : endsOpen cs = false

namespace Clear

variable {cs ds : List Char}

theorem append (h : Clear cs) (h' : Clear ds) : Clear (cs ++ ds) where
  passes := passes_append h.passes h'.passes
  ends := by rw [endsOpen_append h.ends, h'.ends]

theorem of_forall (h : ∀ c ∈ cs, c ∉ '=' :: marks) : Clear cs where
  passes := by
    have hmarks : ∀ c ∈ cs, c ∉ marks := fun c hc hm => h c hc (List.mem_cons_of_mem _ hm)
    exact (Tame.of_marks hmarks).nested.passesHead fun _ => Reader.endsHead_eq_false (by decide)
  ends := endsOpen_of_forall fun c hc => opensBrace_eq_false (by decide) (h c hc)

theorem blank {c : Char} (h : isBlank c = true) : Clear [c] :=
  .of_forall fun d hd => by
    obtain rfl := List.mem_singleton.1 hd
    exact not_mem_of_class (by decide) h

theorem blanks {bs : List Char} (h : ∀ c ∈ bs, isBlank c = true) : Clear bs :=
  .of_forall fun c hc => not_mem_of_class (by decide) (h c hc)

theorem keyword {k : String} (h : ∀ c ∈ k.toList, Token.isNameChar c = true) : Clear k.toList :=
  .of_forall fun c hc => not_mem_of_class (by decide) (h c hc)

/-- Clear text changes nothing about the brace that is found. -/
theorem behindHead?_append (h : Clear cs) (rest : List Char) : behindHead? (cs ++ rest) = behindHead? rest := by
  have hsplit := splitHead_append h.passes rest
  generalize hrest : splitHead 0 rest = found at hsplit
  obtain ⟨head, behind⟩ := found
  by_cases hbrace : ∃ ds, behind = '\x7b' :: ds
  · obtain ⟨ds, rfl⟩ := hbrace
    rw [behindHead?_of_brace hsplit, behindHead?_of_brace hrest, endsOpen_append h.ends]
  · have hne : ∀ ds, behind ≠ '\x7b' :: ds := fun ds heq => hbrace ⟨ds, heq⟩
    rw [behindHead?_of_ne hsplit hne, behindHead?_of_ne hrest hne]

end Clear

/-- The text starts with a value in braces that something stands before, as an initial value does. -/
def opensValue (cs : List Char) : Bool :=
  match splitHead 0 cs with
  | (head, '\x7b' :: _) => endsOpen head
  | _ => false

theorem behindHead?_of_opensValue {cs : List Char} (h : opensValue cs) (rest : List Char) :
    behindHead? (cs ++ rest) = none := by
  rw [opensValue] at h
  split at h
  · rename_i head behind hsplit
    rw [behindHead?_of_brace (splitHead_append_of_cons hsplit rest), if_pos h]
  · cases h

theorem behindHead?_of_ends {cs : List Char} (h : passesHead cs) {c : Char} (hc : endsHead c = true)
    (hne : c ≠ '\x7b') (rest : List Char) : behindHead? (cs ++ c :: rest) = none := by
  have hsplit := splitHead_append h (c :: rest)
  rw [splitHead_of_ends hc] at hsplit
  refine behindHead?_of_ne hsplit ?_
  intro ds heq
  exact hne (List.cons.inj heq).1

theorem behindHead?_head {cs : List Char} (h : Clear cs) (rest : List Char) :
    behindHead? (cs ++ '\x7b' :: rest) = some rest := by
  have hsplit : splitHead 0 ('\x7b' :: rest) = ([], '\x7b' :: rest) := splitHead_of_ends rfl rest
  rw [h.behindHead?_append, behindHead?_of_brace hsplit]
  rfl

/-! ### Heads and statements -/

namespace Reader

variable {cs rest : List Char}

/-- The reader reads a head behind which a brace comes. -/
theorem readPlain_of_brace {head : List Char} (h : splitHead 0 cs = (head, '\x7b' :: rest))
    (hvalue : isOpenValue (trim head) = false) (blocks : List Block) (before : Array Command) :
    readPlain ⟨cs, blocks, before⟩ = ⟨rest, ⟨(headBlock head).1, true⟩ :: blocks, before ++ (headBlock head).2⟩ := by
  rw [readPlain]
  simp only [h, headBlock]
  cases hlambda : lambdaHead? (trim head) with
  | some l => rfl
  | none =>
    cases hfunction : functionHead? (trim head) with
    | some f => rfl
    | none =>
      simp only [hvalue]
      rfl

theorem readPlain_of_statement (h : behindHead? cs = none) (blocks : List Block) (before : Array Command) :
    readPlain ⟨cs, blocks, before⟩ = readStatement ⟨cs, blocks, before⟩ := by
  rw [readPlain]
  split
  · rename_i head behind hsplit
    rw [behindHead?_of_brace hsplit] at h
    have hopen : endsOpen head = true := by
      by_contra hopen
      rw [if_neg hopen] at h
      cases h
    have htrim : endsOpen (trim head) = true := by rw [endsOpen, lastInk_trim, ← endsOpen, hopen]
    have hlambda : lambdaHead? (trim head) = none := Option.eq_none_iff_forall_ne_some.2 fun l hl => by
      rw [endsOpen_of_lambdaHead hl] at htrim
      cases htrim
    have hfunction : functionHead? (trim head) = none := Option.eq_none_iff_forall_ne_some.2 fun f hf => by
      rw [endsOpen_of_functionHead hf] at htrim
      cases htrim
    have hvalue : isOpenValue (trim head) = true := by
      rw [isOpenValue_trim]
      rw [endsOpen] at hopen
      cases hlast : lastInk head with
      | none => rfl
      | some c => simpa [hlast] using hopen
    simp only [hlambda, hfunction, hvalue, if_true]
  · rfl

theorem readStatement_of_semicolon (hs : Solid cs) (h : passesStatement cs) (rest : List Char) (blocks : List Block)
    (before : Array Command) : readStatement ⟨cs ++ ';' :: rest, blocks, before⟩ =
      closeBare rest (before ++ Command.ofStatement cs) blocks := by
  have hend (read : List Char) : splitStatement 0 read (';' :: rest) = ([], rest) := by
    rw [splitStatement, if_neg (by simp), if_pos (by simp)]
  have hsplit := splitStatement_append h [] (';' :: rest)
  rw [hend, List.append_nil] at hsplit
  simp only [readStatement, hsplit, hs.trim]

end Reader

/-- A line ends behind blanks, or the text does. -/
def endsLine : List Char → Bool
  | [] => true
  | c :: cs => c == '\n' || (isBlank c && endsLine cs)

/-- Blanks behind a text do not decide whether its line may end. -/
theorem isComplete_of_blank {c : Char} (hc : isBlank c = true) (read : List Char) :
    isComplete (c :: read) = isComplete read := by
  rw [isComplete, List.dropWhile_cons_of_pos hc, isComplete]

/-- Behind a complete text, the statement ends with the line. -/
theorem exists_splitStatement_of_line {read cs : List Char} (h : isComplete read) (hl : endsLine cs) :
    ∃ bs rest, splitStatement 0 read cs = (bs, rest) ∧ (∀ c ∈ bs, isBlank c = true) ∧ trimLeft rest = trimLeft cs ∧
      rest.length ≤ cs.length := by
  induction cs generalizing read with
  | nil => exact ⟨[], [], rfl, by simp, rfl, Nat.le_refl _⟩
  | cons c cs ih =>
    by_cases hc : c = '\n'
    · obtain rfl := hc
      have htrim : trimLeft ('\n' :: cs) = trimLeft cs := List.dropWhile_cons_of_pos (by decide)
      refine ⟨[], cs, ?_, by simp, htrim.symm, by simp⟩
      rw [splitStatement, if_neg (by simp), if_neg (by simp), if_pos (by simp [h])]
    · have hblank : isBlank c = true ∧ endsLine cs := by simpa [endsLine, hc] using hl
      obtain ⟨bs, rest, hsplit, hbs, htrim, hlen⟩ := ih ((isComplete_of_blank hblank.1 read).trans h) hblank.2
      have hnot : c ∉ ['(', ')', '[', ']', '\x7b', '\x7d'] := not_mem_of_class (by decide) hblank.1
      have hends : c ∉ ['\x7d', ';'] := not_mem_of_class (by decide) hblank.1
      simp only [List.mem_cons, List.not_mem_nil, or_false, not_or] at hends
      refine ⟨c :: bs, rest, ?_, List.forall_mem_cons.2 ⟨hblank.1, hbs⟩, ?_, by simp only [List.length_cons]; omega⟩
      · rw [splitStatement, if_neg (by simp [hends]), if_neg (by simp [hends]), if_neg (by simp [hc]),
          bracketStep_eq_zero hnot, Int.add_zero, hsplit]
      · rw [htrim]
        exact (List.dropWhile_cons_of_pos hblank.1).symm

theorem Reader.exists_readStatement_of_line {cs rest : List Char} (hs : Solid cs) (h : passesStatement cs)
    (hc : isComplete cs.reverse) (hl : endsLine rest) : ∃ rest', trimLeft rest' = trimLeft rest ∧
      rest'.length ≤ rest.length ∧ ∀ blocks before, readStatement ⟨cs ++ rest, blocks, before⟩ =
        closeBare rest' (before ++ Command.ofStatement cs) blocks := by
  have hread : isComplete (cs.reverse ++ []) := by rwa [List.append_nil]
  obtain ⟨bs, rest', hsplit, hbs, htrim, hlen⟩ := exists_splitStatement_of_line hread hl
  refine ⟨rest', htrim, hlen, fun blocks before => ?_⟩
  have htext := splitStatement_append h [] rest
  rw [hsplit] at htext
  simp only [readStatement, htext, hs.trim_append hbs]

end Procedure

end RunningLights
