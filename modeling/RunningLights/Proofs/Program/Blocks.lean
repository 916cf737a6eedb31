import RunningLights.Proofs.Program.Heads
import RunningLights.Proofs.Program.Reading

/-!
# Single steps of the reader

What the reader of a program does where all open blocks have braces:

* `Reader.Reads` — it comes from one state to another;
* `Reader.step_of_phrase` — it reads a statement;
* `Reader.OpensBlock` — it opens a block behind a head;
* `Reader.step_brace`, `Reader.reads_else`, `Reader.close_doLoop` — it closes the innermost block, or goes on with its
  alternative or its condition;
* `Reader.Follows` — what may come behind a statement, so that the block before it is not kept open.
-/

namespace RunningLights

open Procedure Text

namespace Procedure

/-! ### Equal up to blanks -/

section Blanks

variable {rest rest' : List Char} (h : trimLeft rest = trimLeft rest')
include h

theorem comesNext_congr (k : String) : comesNext k rest = comesNext k rest' := by
  rw [comesNext, comesNext, h]

theorem Block.close_congr (b : Block) :
    (b.close rest).1 = (b.close rest').1 ∧ trimLeft (b.close rest).2 = trimLeft (b.close rest').2 := by
  obtain ⟨kind, braced⟩ := b
  cases kind with
  | doLoop =>
    have hdrop : dropKeyword "while" rest = dropKeyword "while" rest' := by rw [dropKeyword, dropKeyword, h]
    simp only [close, comesNext_congr h, hdrop]
    split
    · exact ⟨rfl, rfl⟩
    · exact ⟨rfl, h⟩
  | _ => exact ⟨rfl, h⟩

theorem closeAll_congr (before : Array Command) (blocks : List Block) :
    closeAll rest before blocks = closeAll rest' before blocks := by
  induction blocks generalizing rest rest' before with
  | nil => rfl
  | cons b bs ih =>
    obtain ⟨hclosers, hrest⟩ := b.close_congr h
    change closeAll (b.close rest).2 (before ++ (b.close rest).1) bs =
      closeAll (b.close rest').2 (before ++ (b.close rest').1) bs
    rw [hclosers]
    exact ih hrest _

/-- Blanks before the text do not matter to the reader. -/
theorem Reader.run_congr (fuel : Nat) (before : Array Command) (blocks : List Block) :
    run fuel ⟨rest, blocks, before⟩ = run fuel ⟨rest', blocks, before⟩ := by
  cases fuel with
  | zero => exact closeAll_congr h before blocks
  | succ fuel => simp only [run, h]

end Blanks

theorem append_append (before : Array Command) (cs ds : List Command) : before ++ cs ++ ds = before ++ (cs ++ ds) := by
  rw [← Array.toList_inj]
  simp

/-! ### Reading on -/

def Braced (blocks : List Block) : Prop := ∀ b ∈ blocks, b.braced = true

theorem Braced.cons {blocks : List Block} (h : Braced blocks) (kind : BlockKind) : Braced (⟨kind, true⟩ :: blocks) :=
  List.forall_mem_cons.2 ⟨rfl, h⟩

theorem closeBare_of_braced {blocks : List Block} (h : Braced blocks) (rest : List Char) (before : Array Command) :
    closeBare rest before blocks = ⟨rest, blocks, before⟩ := by
  cases blocks with
  | nil => rfl
  | cons b bs => rw [closeBare, if_pos (by simp [h b List.mem_cons_self])]

namespace Reader

/-- The reader comes from `r` to `r'`, with one piece for each character at most. -/
def Reads (r r' : Reader) : Prop :=
  ∃ k, k + r'.rest.length ≤ r.rest.length ∧ ∀ fuel, run (fuel + k) r = run fuel r'

variable {r r' r'' : Reader}

theorem Reads.refl (r : Reader) : Reads r r := ⟨0, by omega, fun _ => rfl⟩

theorem Reads.trans (h : Reads r r') (h' : Reads r' r'') : Reads r r'' := by
  obtain ⟨k, hk, hrun⟩ := h
  obtain ⟨k', hk', hrun'⟩ := h'
  refine ⟨k' + k, by omega, fun fuel => ?_⟩
  rw [← Nat.add_assoc, hrun, hrun']

/-- One piece of the text, behind blanks. -/
theorem reads_of_step {blanks cs behind rest : List Char} {c : Char} {blocks blocks' : List Block}
    {before after : Array Command} (hb : ∀ c ∈ blanks, isBlank c = true) (hc : isBlank c = false)
    (hstep : step ⟨c :: cs, blocks, before⟩ = ⟨behind, blocks', after⟩) (hbehind : trimLeft behind = trimLeft rest)
    (hlen : rest.length ≤ cs.length) : Reads ⟨blanks ++ c :: cs, blocks, before⟩ ⟨rest, blocks', after⟩ := by
  have htrim : trimLeft (blanks ++ c :: cs) = c :: cs := by
    rw [trimLeft_append_of_blank hb, trimLeft_cons hc]
  refine ⟨1, by simp only [List.length_append, List.length_cons]; omega, fun fuel => ?_⟩
  rw [run_of_piece (by simp [htrim])]
  simp only [htrim]
  rw [hstep, run_congr hbehind]

/-! ### Statements -/

section Statement

variable {w : String} {cs : List Char} {blocks : List Block} (before : Array Command)

/-- Where a word comes next, a block head or a statement is read. -/
theorem step_of_headed (h : Headed w cs) : step ⟨cs, blocks, before⟩ = readItem ⟨cs, blocks, before⟩ := by
  obtain ⟨c, ds, hcs, hc⟩ := h.head
  unfold step
  split
  case h_5 => rfl
  all_goals
    rename_i hrest
    simp only [hcs] at hrest
    first
      | exact absurd ((List.cons.inj hrest).1 ▸ hc) (by decide)
      | cases hrest

theorem readItem_of_headed (h : Headed w cs) (hw : w ∉ blockWords) :
    readItem ⟨cs, blocks, before⟩ = readPlain ⟨cs, blocks, before⟩ := by
  unfold readItem
  simp only [h.word, String.ofList_toList]
  split
  case h_7 => rfl
  all_goals exact absurd (by decide) hw

theorem endsHead_eq_false {ds : List Char} (hds : ∀ d ∈ ['\x7b', ';', '\x7d'], d ∈ ds) {c : Char} (h : c ∉ ds) :
    endsHead c = false := by
  have hc : c ∉ ['\x7b', ';', '\x7d'] := fun hm => h (hds c hm)
  simpa [endsHead, and_assoc] using hc

theorem step_of_phrase {more : List Command} (h : Phrase cs more) (hb : Braced blocks) (rest : List Char) :
    step ⟨cs ++ ';' :: rest, blocks, before⟩ = ⟨rest, blocks, before ++ more⟩ := by
  obtain ⟨w, hw, hword⟩ := h.headed
  have hw : Headed w (cs ++ ';' :: rest) := by simpa using hw.append rest
  have hhead : splitHead 0 (cs ++ ';' :: rest) = (cs, ';' :: rest) :=
    h.tame.nested.splitHead (fun _ => endsHead_eq_false (by decide)) rfl rest
  have hstatement : splitStatement 0 [] (cs ++ ';' :: rest) = (cs, rest) :=
    h.tame.nested.splitStatement (fun c hc hm => hc ((by decide : ∀ d ∈ ['\x7d', ';', '\n'], d ∈ stops) c hm)) rest
  rw [step_of_headed before hw, readItem_of_headed before hw hword, readPlain]
  simp only [hhead, readStatement, hstatement, h.solid.trim, h.reads, closeBare_of_braced hb]
  rfl

end Statement

/-! ### Heads of blocks -/

/-- A line is the head of a block, behind which a brace comes. -/
structure OpensBlock (line : String) (kind : BlockKind) (opener : List Command) : Prop where
  headed : ∃ w, w ≠ "else" ∧ ∀ {blanks : List Char}, (∀ c ∈ blanks, isBlank c = true) → ∀ rest,
    Headed w (line.toList ++ (blanks ++ '\x7b' :: rest))
  opens {blanks : List Char} : (∀ c ∈ blanks, isBlank c = true) → ∀ rest blocks before,
    step ⟨line.toList ++ (blanks ++ '\x7b' :: rest), blocks, before⟩ = ⟨rest, ⟨kind, true⟩ :: blocks, before ++ opener⟩
  quiet : isQuiet line.toList

theorem isCalleeChar_of_isBlank {c : Char} (h : isBlank c = true) : isCalleeChar c = false := by
  rw [isCalleeChar, Bool.or_eq_false_iff]
  constructor
  · cases hn : Token.isNameChar c with
    | false => rfl
    | true =>
      rw [Token.isBlank_of_isNameChar hn] at h
      cases h
  · rw [beq_eq_false_iff_ne]
    rintro rfl
    exact absurd h (by decide)

section Heads

variable {blanks : List Char} (hb : ∀ c ∈ blanks, isBlank c = true)
include hb

theorem beginBody_brace (kind : BlockKind) (rest : List Char) (blocks : List Block) (before : Array Command) :
    beginBody kind (blanks ++ '\x7b' :: rest) blocks before = ⟨rest, ⟨kind, true⟩ :: blocks, before⟩ := by
  have htrim : trimLeft (blanks ++ '\x7b' :: rest) = '\x7b' :: rest := trimLeft_append_of_blank hb _
  rw [beginBody, htrim]
  rfl

theorem openBlock_brace (r : Reader) (kind : BlockKind) (rest : List Char) (opener : List Command) :
    r.openBlock kind (blanks ++ '\x7b' :: rest) opener = ⟨rest, ⟨kind, true⟩ :: r.blocks, r.commands ++ opener⟩ :=
  beginBody_brace hb kind rest r.blocks _

theorem headed_brace {w : String} (hw : ∀ c ∈ w.toList, Token.isNameChar c = true) (hne : w.toList ≠ [])
    (rest : List Char) : Headed w (w.toList ++ (blanks ++ '\x7b' :: rest)) := by
  refine ⟨hw, hne, ?_⟩
  cases blanks with
  | nil => exact ⟨'\x7b', rest, rfl, by decide⟩
  | cons c cs => exact ⟨c, cs ++ '\x7b' :: rest, rfl, isCalleeChar_of_isBlank (hb c List.mem_cons_self)⟩

end Heads

theorem dropKeyword_append {k : String} {cs : List Char} (h : Headed k (k.toList ++ cs)) :
    dropKeyword k (k.toList ++ cs) = cs := by
  rw [dropKeyword, h.trimLeft, ← String.length_toList, List.drop_left]

theorem group_append {p : Char → Prop} {inner : List Char} (h : Nested p inner) (rest : List Char) :
    group (' ' :: '(' :: (inner ++ ')' :: rest)) = (some inner, rest) := by
  have htrim : trimLeft (' ' :: '(' :: (inner ++ ')' :: rest)) = '(' :: (inner ++ ')' :: rest) := rfl
  rw [group, htrim]
  simp only [splitGroup_of_nested h]

theorem toList_applied (name arg : String) :
    (applied name [arg]).toList = name.toList ++ '(' :: (arg.toList ++ [')']) := by
  simp [applied, listed]

theorem isQuiet_applied {k arg : String} (hk : ∀ c ∈ k.toList, Token.isNameChar c = true)
    (ht : Tame (fun _ => True) arg.toList) : isQuiet (applied (k ++ " ") [arg]).toList := by
  have hparens : Tame (fun _ => True) ('(' :: arg.toList ++ [')']) := ht.parens
  have hspace : isQuiet [' '] := rfl
  have hquiet := isQuiet_append (tame_of_name hk).quiet (isQuiet_append hspace hparens.quiet)
  simpa [toList_applied] using hquiet

/-- A keyword with a group in parentheses. -/
theorem OpensBlock.keyword {k : String} (hk : ∀ c ∈ k.toList, Token.isNameChar c = true) (hne : k.toList ≠ [])
    (helse : k ≠ "else") {arg : String} (ht : Tame (fun _ => True) arg.toList) {kind : BlockKind}
    {opener : List Command}
    (hread : ∀ rest blocks before, Headed k (k.toList ++ ' ' :: '(' :: (arg.toList ++ ')' :: rest)) →
      readItem ⟨k.toList ++ ' ' :: '(' :: (arg.toList ++ ')' :: rest), blocks, before⟩ =
        openBlock ⟨k.toList ++ ' ' :: '(' :: (arg.toList ++ ')' :: rest), blocks, before⟩ kind rest opener) :
    OpensBlock (applied (k ++ " ") [arg]) kind opener := by
  have hcs (rest : List Char) : (applied (k ++ " ") [arg]).toList ++ rest =
      k.toList ++ ' ' :: '(' :: (arg.toList ++ ')' :: rest) := by
    simp [toList_applied]
  have hheaded (rest : List Char) : Headed k (k.toList ++ ' ' :: '(' :: (arg.toList ++ ')' :: rest)) :=
    ⟨hk, hne, ' ', _, rfl, by decide⟩
  constructor
  · exact ⟨k, helse, fun _ rest => hcs _ ▸ hheaded _⟩
  · intro blanks hb rest blocks before
    rw [hcs, step_of_headed before (hheaded _), hread _ _ _ (hheaded _), openBlock_brace hb]
  · exact isQuiet_applied hk ht

theorem OpensBlock.loop {h : LoopHeader} (hw : h.Written) :
    OpensBlock (applied "for " [h.code]) .loop [.loopStart h] := by
  have ht := LoopHeader.tame_code hw
  refine .keyword (k := "for") (by decide) (by decide) (by decide) ht fun rest blocks before hh => ?_
  simp only [readItem, hh.word, String.ofList_toList, readFor, dropKeyword_append hh, group_append ht.nested,
    Option.getD_some, LoopHeader.ofChars?_code hw]

theorem OpensBlock.branch {o : Operand} (ho : o.Printed) :
    OpensBlock (applied "if " [o.text]) (.branch 1) [.ifStart o] := by
  have ht : Tame (fun _ => True) o.text.toList := ho.tame.mono fun _ _ _ => trivial
  refine .keyword (k := "if") (by decide) (by decide) (by decide) ht fun rest blocks before hh => ?_
  simp only [readItem, hh.word, String.ofList_toList, condition, dropKeyword_append hh, group_append ht.nested,
    Option.getD_some, ho.ofChars ho.trim]

theorem OpensBlock.doLoop : OpensBlock "do" .doLoop [.doStart] := by
  have hh {blanks : List Char} (hb : ∀ c ∈ blanks, isBlank c = true) (rest : List Char) :
      Headed "do" ("do".toList ++ (blanks ++ '\x7b' :: rest)) := headed_brace hb (by decide) (by decide) rest
  constructor
  · exact ⟨"do", by decide, fun hb rest => hh hb rest⟩
  · intro blanks hb rest blocks before
    rw [step_of_headed before (hh hb rest)]
    simp only [readItem, (hh hb rest).word, String.ofList_toList, dropKeyword_append (hh hb rest), openBlock_brace hb]
  · rfl

theorem OpensBlock.function {line : String} {opener : Command} (h : HeadPhrase line.toList opener) :
    OpensBlock line .function [opener] := by
  obtain ⟨w, hw, hword⟩ := h.headed
  constructor
  · exact ⟨w, fun he => hword (by rw [he]; decide), fun hb rest => hw.append _⟩
  · intro blanks hb rest blocks before
    have hblanks : Nested (fun c => endsHead c = false) blanks :=
      (tame_of_blank hb).nested.mono fun _ _ => endsHead_eq_false (by decide)
    have hhead : splitHead 0 (line.toList ++ (blanks ++ '\x7b' :: rest)) = (line.toList ++ blanks, '\x7b' :: rest) := by
      have hnested := (h.tame.nested.mono fun _ _ => endsHead_eq_false (by decide)).append hblanks
      rw [← List.append_assoc]
      exact hnested.splitHead (fun _ => id) rfl rest
    rw [step_of_headed before (hw.append _), readItem_of_headed before (hw.append _) hword, readPlain]
    simp only [hhead, h.solid.trim_append hb]
    rcases h.reads with ⟨l, hl, rfl⟩ | ⟨hl, f, hf, rfl⟩
    · simp only [hl, openBraced]
    · simp only [hl, hf, openBraced]
  · exact h.tame.quiet

theorem OpensBlock.reads {line : String} {kind : BlockKind} {opener : List Command} (h : OpensBlock line kind opener)
    {blanks blanks' : List Char} (hb : ∀ c ∈ blanks, isBlank c = true) (hb' : ∀ c ∈ blanks', isBlank c = true)
    (rest : List Char) (blocks : List Block) (before : Array Command) :
    Reads ⟨blanks ++ (line.toList ++ (blanks' ++ '\x7b' :: rest)), blocks, before⟩
      ⟨rest, ⟨kind, true⟩ :: blocks, before ++ opener⟩ := by
  obtain ⟨w, -, hheaded⟩ := h.headed
  obtain ⟨c, ds, hcs, hc⟩ := (hheaded hb' rest).head
  have hstep := h.opens hb' rest blocks before
  have hlen := congrArg List.length hcs
  simp only [List.length_append, List.length_cons] at hlen
  rw [hcs] at hstep ⊢
  exact reads_of_step hb (Token.isBlank_of_isNameChar hc) hstep rfl (by omega)

/-! ### What follows -/

/-- The text behind a statement: neither an alternative nor an empty statement. -/
structure Follows (cs : List Char) : Prop where
  noElse : comesNext "else" cs = false
  noSemicolon : (trimLeft cs).head? ≠ some ';'

namespace Follows

variable {cs : List Char}

theorem of_blank {blanks : List Char} (hb : ∀ c ∈ blanks, isBlank c = true) (h : Follows cs) :
    Follows (blanks ++ cs) := by
  have htrim := trimLeft_append_of_blank hb cs
  exact ⟨(comesNext_congr htrim "else").trans h.noElse, htrim ▸ h.noSemicolon⟩

theorem nil : Follows [] := ⟨rfl, by simp [trimLeft]⟩

theorem brace (cs : List Char) : Follows ('\x7d' :: cs) := by
  have htrim : trimLeft ('\x7d' :: cs) = '\x7d' :: cs := rfl
  exact ⟨by rw [comesNext, htrim]; rfl, by simp [htrim]⟩

theorem of_headed {w : String} (h : Headed w cs) (hw : w ≠ "else") : Follows cs := by
  refine ⟨h.comesNext (by decide) hw, ?_⟩
  rw [h.trimLeft]
  obtain ⟨c, ds, rfl, hc⟩ := h.head
  rintro ⟨⟩
  cases hc

theorem dropSemicolon (h : Follows cs) : dropSemicolon cs = trimLeft cs := by
  have hs := h.noSemicolon
  unfold Procedure.dropSemicolon
  split
  · rename_i hcons
    rw [hcons] at hs
    exact absurd rfl hs
  · rfl

end Follows

/-! ### Ends of blocks -/

section Brace

variable {blocks : List Block} (hb : Braced blocks) (kind : BlockKind) {behind : List Char} (before : Array Command)
include hb

theorem step_brace (hgoes : Block.goesOn ⟨kind, true⟩ behind = false) :
    step ⟨'\x7d' :: behind, ⟨kind, true⟩ :: blocks, before⟩ =
      ⟨dropSemicolon (Block.close ⟨kind, true⟩ behind).2, blocks, before ++ (Block.close ⟨kind, true⟩ behind).1⟩ := by
  simp only [step, closeBrace, afterStatement, closeBare_of_braced (hb.cons kind), hgoes, Bool.not_true, Bool.or_false,
    closeBare_of_braced hb]
  rfl

/-- A brace leaves a block open that goes on. -/
theorem step_brace_of_goesOn (hgoes : Block.goesOn ⟨kind, true⟩ behind = true) :
    step ⟨'\x7d' :: behind, ⟨kind, true⟩ :: blocks, before⟩ = ⟨behind, ⟨kind, true⟩ :: blocks, before⟩ := by
  simp only [step, closeBrace, afterStatement, closeBare_of_braced (hb.cons kind), hgoes, Bool.or_true, if_true]

end Brace

theorem close_doLoop {o : Operand} (ho : o.Printed) {blanks : List Char} (hb : ∀ c ∈ blanks, isBlank c = true)
    (rest : List Char) : Block.close ⟨.doLoop, true⟩ (blanks ++ ((applied "while " [o.text] ++ ";").toList ++ rest)) =
      ([.doEnd (some o)], rest) := by
  have hcs : (applied "while " [o.text] ++ ";").toList ++ rest =
      "while".toList ++ ' ' :: '(' :: (o.text.toList ++ ')' :: ';' :: rest) := by
    simp [toList_applied]
  have htrim := trimLeft_append_of_blank hb ("while".toList ++ ' ' :: '(' :: (o.text.toList ++ ')' :: ';' :: rest))
  rw [hcs]
  generalize hbehind : blanks ++ ("while".toList ++ ' ' :: '(' :: (o.text.toList ++ ')' :: ';' :: rest)) = behind
    at htrim
  have hnext : comesNext "while" behind = true := (comesNext_congr htrim "while").trans rfl
  have hdrop : dropKeyword "while" behind = ' ' :: '(' :: (o.text.toList ++ ')' :: ';' :: rest) := by
    rw [dropKeyword, htrim]
    rfl
  have hsemicolon : Procedure.dropSemicolon (';' :: rest) = rest := rfl
  simp only [Block.close, hnext, hdrop, group_append ho.tame.nested, hsemicolon, Option.map_some, ho.ofChars ho.trim,
    if_true]

theorem reads_else {blocks : List Block} (hb : Braced blocks) {b₁ b₂ b₃ : List Char}
    (hb₁ : ∀ c ∈ b₁, isBlank c = true) (hb₂ : ∀ c ∈ b₂, isBlank c = true) (hb₃ : ∀ c ∈ b₃, isBlank c = true)
    (rest : List Char) (before : Array Command) :
    Reads ⟨b₁ ++ '\x7d' :: (b₂ ++ ("else".toList ++ (b₃ ++ '\x7b' :: rest))), ⟨.branch 1, true⟩ :: blocks, before⟩
      ⟨rest, ⟨.branch 1, true⟩ :: blocks, before ++ [Command.elseMark]⟩ := by
  have hh : Headed "else" ("else".toList ++ (b₃ ++ '\x7b' :: rest)) := headed_brace hb₃ (by decide) (by decide) rest
  have hgoes : Block.goesOn ⟨.branch 1, true⟩ (b₂ ++ ("else".toList ++ (b₃ ++ '\x7b' :: rest))) = true :=
    (comesNext_congr (trimLeft_append_of_blank hb₂ _) "else").trans hh.comesNext_self
  have hif : comesNext "if" (b₃ ++ '\x7b' :: rest) = false :=
    (comesNext_congr (trimLeft_append_of_blank hb₃ ('\x7b' :: rest)) "if").trans rfl
  have hpush : before.push .elseMark = before ++ [Command.elseMark] := by
    rw [← Array.toList_inj]
    simp
  have helse : step ⟨"else".toList ++ (b₃ ++ '\x7b' :: rest), ⟨.branch 1, true⟩ :: blocks, before⟩ =
      ⟨rest, ⟨.branch 1, true⟩ :: blocks, before ++ [Command.elseMark]⟩ := by
    rw [step_of_headed before hh]
    simp only [readItem, hh.word, String.ofList_toList, dropKeyword_append hh, readElse, hif, beginBody_brace hb₃,
      hpush, Bool.false_eq_true, if_false]
  refine (reads_of_step hb₁ rfl (step_brace_of_goesOn hb _ before hgoes) rfl (Nat.le_refl _)).trans ?_
  have hlen : rest.length ≤ (['l', 's', 'e'] ++ (b₃ ++ '\x7b' :: rest)).length := by
    simp only [List.length_append, List.length_cons]
    omega
  exact reads_of_step (c := 'e') hb₂ rfl helse rfl hlen

end Reader

end Procedure

end RunningLights
