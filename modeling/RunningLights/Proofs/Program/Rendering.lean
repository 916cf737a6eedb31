import RunningLights.Proofs.Program.Blocks
import RunningLights.Proofs.Program.Flattening

/-!
# Programs are read from their source texts

* `Reader.ReadsAs` — lines are read as commands, whatever blocks are open around them;
* `Reader.ClosesBlock` — lines end a block;
* `Reader.ReadsAs.block` — the lines of a block, from its head, its body and its end;
* `Stmt.readsAs` — every statement is read as its commands;
* `Reader.ReadsAs.ofSource` — the commands of a text of such lines;
* `Program.ofCommands_ofSource` — a program is built again from its source text.
-/

namespace RunningLights

open Procedure Text

namespace Procedure.Reader

/-! ### Lines -/

/-- Lines are read as commands, whatever blocks with braces are open around them. -/
structure ReadsAs (lines : List String) (commands : List Command) : Prop where
  reads {cs rest : List Char} {blocks : List Block} : Laid lines cs → Follows rest → Braced blocks → ∀ before,
    Reads ⟨cs ++ rest, blocks, before⟩ ⟨rest, blocks, before ++ commands⟩
  follows {cs rest : List Char} : Laid lines cs → Follows rest → Follows (cs ++ rest)
  quiet : ∀ line ∈ lines, isQuiet line.toList

/-- Lines end a block, behind its body. -/
structure ClosesBlock (lines : List String) (kind : BlockKind) (closers : List Command) : Prop where
  reads {cs rest : List Char} {blocks : List Block} : Laid lines cs → Follows rest → Braced blocks → ∀ before,
    Reads ⟨cs ++ rest, ⟨kind, true⟩ :: blocks, before⟩ ⟨rest, blocks, before ++ closers⟩
  follows {cs : List Char} : Laid lines cs → ∀ rest, Follows (cs ++ rest)
  quiet : ∀ line ∈ lines, isQuiet line.toList

namespace ReadsAs

variable {lines lines' : List String} {commands commands' : List Command}

theorem nil : ReadsAs [] [] where
  reads hl _ _ before := by
    cases hl
    simpa using Reads.refl _
  follows hl hf := by
    cases hl
    exact hf
  quiet := nofun

theorem append (h : ReadsAs lines commands) (h' : ReadsAs lines' commands') :
    ReadsAs (lines ++ lines') (commands ++ commands') where
  reads hl hf hb before := by
    obtain ⟨cs₁, cs₂, rfl, h₁, h₂⟩ := hl.of_append
    rw [List.append_assoc, ← append_append]
    exact (h.reads h₁ (h'.follows h₂ hf) hb before).trans (h'.reads h₂ hf hb _)
  follows hl hf := by
    obtain ⟨cs₁, cs₂, rfl, h₁, h₂⟩ := hl.of_append
    rw [List.append_assoc]
    exact h.follows h₁ (h'.follows h₂ hf)
  quiet := List.forall_mem_append.2 ⟨h.quiet, h'.quiet⟩

theorem statement {line : String} (h : Phrase line.toList commands) : ReadsAs [line ++ ";"] commands where
  reads hl hf hb before := by
    rename_i rest blocks
    obtain ⟨blanks, hblanks, htext⟩ := hl.of_singleton
    obtain ⟨c, ds, hcs, hc⟩ := h.solid.head
    have hstep := step_of_phrase before h hb rest
    have hline : (line ++ ";").toList ++ rest = c :: (ds ++ ';' :: rest) := by simp [hcs]
    rw [hcs] at hstep
    rw [htext, hline]
    exact reads_of_step hblanks hc hstep rfl (by simp only [List.length_append, List.length_cons]; omega)
  follows hl hf := by
    rename_i rest
    obtain ⟨blanks, hblanks, htext⟩ := hl.of_singleton
    obtain ⟨w, hw, hword⟩ := h.headed
    rw [htext, String.toList_append]
    exact .of_blank hblanks (.of_headed (hw.append rest) fun he => hword (by rw [he]; decide))
  quiet := by
    have hsemicolon : isQuiet [';'] := rfl
    simpa using isQuiet_append h.tame.quiet hsemicolon

/-- A block: its head, its body in braces and its end. -/
theorem block {line : String} {kind : BlockKind} {opener closers : List Command} {stop : List String}
    (ho : OpensBlock line kind opener) (h : ReadsAs lines commands) (hc : ClosesBlock stop kind closers) :
    ReadsAs (line :: "\x7b" :: (lines ++ stop)) (opener ++ (commands ++ closers)) where
  reads hl hf hb before := by
    rename_i rest blocks
    obtain ⟨blanks, _, hblanks, hl, htext⟩ := hl.of_cons
    obtain ⟨blanks', _, hblanks', hl, hbrace⟩ := hl.of_cons
    obtain ⟨cs₁, cs₂, rfl, h₁, h₂⟩ := hl.of_append
    rw [htext, hbrace, List.append_assoc cs₁, ← append_append, ← append_append]
    have hbody := h.reads h₁ (hc.follows h₂ rest) (hb.cons kind) (before ++ opener)
    exact ((ho.reads hblanks hblanks' _ blocks before).trans hbody).trans (hc.reads h₂ hf hb _)
  follows hl hf := by
    obtain ⟨blanks, _, hblanks, hl, htext⟩ := hl.of_cons
    obtain ⟨blanks', _, hblanks', hl, hbrace⟩ := hl.of_cons
    obtain ⟨w, hw, hheaded⟩ := ho.headed
    rw [htext, hbrace]
    exact .of_blank hblanks (.of_headed (hheaded hblanks' _) hw)
  quiet := by
    refine List.forall_mem_cons.2 ⟨ho.quiet, List.forall_mem_cons.2 ⟨by rfl, ?_⟩⟩
    exact List.forall_mem_append.2 ⟨h.quiet, hc.quiet⟩

end ReadsAs

/-! ### Ends of blocks -/

namespace ClosesBlock

/-- Lines that start with a brace. -/
theorem follows_of_brace {behind : List Char} {line : String} {lines : List String}
    (hline : line.toList = '\x7d' :: behind) {cs : List Char} (hl : Laid (line :: lines) cs) (rest : List Char) :
    Follows (cs ++ rest) := by
  obtain ⟨blanks, ds, hblanks, -, htext⟩ := hl.of_cons
  rw [htext, hline]
  exact .of_blank hblanks (.brace _)

/-- A brace that nothing of the block comes behind. -/
theorem brace {kind : BlockKind} {closers : List Command}
    (hgoes : ∀ {rest}, Follows rest → Block.goesOn ⟨kind, true⟩ rest = false)
    (hclose : ∀ rest, Block.close ⟨kind, true⟩ rest = (closers, rest)) : ClosesBlock ["\x7d"] kind closers where
  reads hl hf hb before := by
    rename_i rest blocks
    obtain ⟨blanks, hblanks, htext⟩ := hl.of_singleton
    have hstep := step_brace hb kind before (hgoes hf)
    rw [hclose, hf.dropSemicolon] at hstep
    rw [htext]
    exact reads_of_step (c := '\x7d') hblanks rfl hstep (trimLeft_trimLeft rest) (Nat.le_refl _)
  follows := follows_of_brace rfl
  quiet := by decide

/-- The definition of a lambda ends with a semicolon. -/
theorem lambda : ClosesBlock ["\x7d;"] .function [.functionEnd] where
  reads hl hf hb before := by
    rename_i rest blocks
    obtain ⟨blanks, hblanks, htext⟩ := hl.of_singleton
    have hgoes : Block.goesOn ⟨.function, true⟩ (';' :: rest) = false := rfl
    have hstep := step_brace hb .function before hgoes
    rw [htext]
    exact reads_of_step (c := '\x7d') hblanks rfl hstep rfl (Nat.le_succ _)
  follows := follows_of_brace rfl
  quiet := by decide

/-- The condition of a loop that is tested at its end. -/
theorem doLoop {o : Operand} (ho : o.Printed) :
    ClosesBlock ["\x7d", applied "while " [o.text] ++ ";"] .doLoop [.doEnd (some o)] where
  reads hl hf hb before := by
    rename_i rest blocks
    obtain ⟨blanks, _, hblanks, hl, htext⟩ := hl.of_cons
    obtain ⟨blanks', hblanks', hwhile⟩ := hl.of_singleton
    have hgoes : Block.goesOn ⟨.doLoop, true⟩
        (blanks' ++ ((applied "while " [o.text] ++ ";").toList ++ rest)) = false := rfl
    have hstep := step_brace hb .doLoop before hgoes
    rw [close_doLoop ho hblanks', hf.dropSemicolon] at hstep
    rw [htext, hwhile]
    have hlen : rest.length ≤ (blanks' ++ ((applied "while " [o.text] ++ ";").toList ++ rest)).length := by
      simp only [List.length_append]
      omega
    exact reads_of_step (c := '\x7d') hblanks rfl hstep (trimLeft_trimLeft rest) hlen
  follows := follows_of_brace rfl
  quiet := by
    have hwhile := isQuiet_applied (k := "while") (by decide) (ho.tame.mono fun _ _ _ => trivial)
    have hsemicolon : isQuiet [';'] := rfl
    rw [List.forall_mem_cons, List.forall_mem_singleton]
    exact ⟨rfl, by simpa using isQuiet_append hwhile hsemicolon⟩

theorem alternative {lines : List String} {commands : List Command} (h : ReadsAs lines commands) :
    ClosesBlock ("\x7d" :: "else" :: "\x7b" :: (lines ++ ["\x7d"])) (.branch 1)
      (.elseMark :: (commands ++ [.ifEnd])) where
  reads hl hf hb before := by
    rename_i rest blocks
    obtain ⟨b₁, _, hb₁, hl, htext⟩ := hl.of_cons
    obtain ⟨b₂, _, hb₂, hl, helse⟩ := hl.of_cons
    obtain ⟨b₃, _, hb₃, hl, hbrace⟩ := hl.of_cons
    obtain ⟨cs₁, cs₂, rfl, h₁, h₂⟩ := hl.of_append
    have hend : ClosesBlock ["\x7d"] (.branch 1) [.ifEnd] := .brace (fun hf => hf.noElse) fun _ => rfl
    have hbody := h.reads h₁ (hend.follows h₂ rest) (hb.cons (.branch 1)) (before ++ [Command.elseMark])
    have happend : before ++ (Command.elseMark :: (commands ++ [.ifEnd])) =
        before ++ [Command.elseMark] ++ commands ++ [Command.ifEnd] := by
      rw [append_append, append_append]
      rfl
    rw [htext, helse, hbrace, List.append_assoc cs₁, happend]
    exact ((reads_else hb hb₁ hb₂ hb₃ _ before).trans hbody).trans (hend.reads h₂ hf hb _)
  follows := follows_of_brace rfl
  quiet := by
    refine List.forall_mem_cons.2 ⟨rfl, List.forall_mem_cons.2 ⟨rfl, List.forall_mem_cons.2 ⟨rfl, ?_⟩⟩⟩
    exact List.forall_mem_append.2 ⟨h.quiet, by decide⟩

end ClosesBlock

end Procedure.Reader

/-! ### Programs -/

open Procedure.Reader

mutual

theorem Stmt.readsAs : ∀ s : Stmt, s.Written → ReadsAs s.lines s.flat
  | .act _, h => .statement (Action.phrase h)
  | .ret none, _ => .statement phrase_return
  | .ret (some o), h => .statement (phrase_return_value (h o rfl))
  | .loop h body, hw => .block (.loop hw.1) (Stmt.readsAllAs body hw.2) (.brace (fun _ => rfl) fun _ => rfl)
  | .branch c yes [], hw =>
    .block (.branch hw.1) (Stmt.readsAllAs yes hw.2.1) (.brace (fun hf => hf.noElse) fun _ => rfl)
  | .branch c yes (s :: ss), hw =>
    have hno := (Stmt.readsAs s hw.2.2.1).append (Stmt.readsAllAs ss hw.2.2.2)
    .block (.branch hw.1) (Stmt.readsAllAs yes hw.2.1) (.alternative hno)
  | .doLoop body c, ⟨⟨o, hc, ho⟩, hbody⟩ => by
    subst hc
    exact .block .doLoop (Stmt.readsAllAs body hbody) (.doLoop ho)
  | .lambda name capture params body, ⟨hname, hcapture, hparams, hbody⟩ =>
    .block (.function (headPhrase_lambda hname hparams hcapture)) (Stmt.readsAllAs body hbody) .lambda

theorem Stmt.readsAllAs : ∀ ss : List Stmt, Stmt.WrittenAll ss → ReadsAs (Stmt.linesAll ss) (Stmt.flatAll ss)
  | [], _ => .nil
  | s :: ss, h => (Stmt.readsAs s h.1).append (Stmt.readsAllAs ss h.2)

end

theorem FunctionDef.readsAs {f : FunctionDef} (h : f.Written) : ReadsAs f.lines f.flat :=
  .block (.function (headPhrase_function h.name h.params)) (Stmt.readsAllAs f.body h.body)
    (.brace (fun _ => rfl) fun _ => rfl)

theorem FunctionDef.readsAllAs {fs : List FunctionDef} (h : ∀ f ∈ fs, f.Written) :
    ReadsAs (fs.flatMap FunctionDef.lines) (fs.flatMap FunctionDef.flat) := by
  induction fs with
  | nil => exact .nil
  | cons f fs ih =>
    obtain ⟨hf, hfs⟩ := List.forall_mem_cons.1 h
    exact (FunctionDef.readsAs hf).append (ih hfs)

theorem Program.readsAs {p : Program} (h : p.Written) : ReadsAs p.lines p.flat :=
  (FunctionDef.readsAllAs h.functions).append (Stmt.readsAllAs p.body h.body)

theorem isQuiet_of_laid {lines : List String} {cs : List Char} (h : ∀ line ∈ lines, isQuiet line.toList)
    (hl : Laid lines cs) : isQuiet cs := by
  induction hl with
  | nil => rfl
  | cons _ hb _ ih =>
    obtain ⟨hline, hlines⟩ := List.forall_mem_cons.1 h
    exact isQuiet_append (isQuiet_append (tame_of_blank hb).quiet hline) (ih hlines)

/-- The commands of a text of lines that are read as commands. -/
theorem Procedure.Reader.ReadsAs.ofSource {lines : List String} {commands : List Command} (h : ReadsAs lines commands)
    {cs blanks : List Char} (hl : Laid lines cs) (hb : ∀ c ∈ blanks, isBlank c = true) {source : String}
    (hsource : source.toList = cs ++ blanks) : Command.ofSource source = commands := by
  have hquiet : isQuiet (cs ++ blanks) := isQuiet_append (isQuiet_of_laid h.quiet hl) (tame_of_blank hb).quiet
  have hfollows : Follows blanks := by simpa using Follows.of_blank hb .nil
  have hbraced : Braced [] := nofun
  obtain ⟨k, hk, hrun⟩ := h.reads hl hfollows hbraced #[]
  have hend (fuel : Nat) (after : Array Command) : run fuel ⟨blanks, [], after⟩ = after := by
    cases fuel with
    | zero => rfl
    | succ fuel =>
      have htrim : trimLeft blanks = [] := by simpa [trimLeft] using trimLeft_append_of_blank hb []
      rw [run_of_end htrim]
      rfl
  simp only at hk
  have hfuel : (cs ++ blanks).length = ((cs ++ blanks).length - k) + k := by omega
  have hrest : run (cs ++ blanks).length ⟨cs ++ blanks, [], #[]⟩ = (#[] : Array Command) ++ commands := by
    rw [hfuel, hrun, hend]
  rw [Command.ofSource, hsource, blankComments_of_isQuiet hquiet, hrest]
  simp

/-- The commands of the source text of a program. -/
theorem Command.ofSource_eq_flat {p : Program} (hw : p.Written) {source : String} (hs : p.IsSource source) :
    Command.ofSource source = p.flat := by
  obtain ⟨cs, blanks, hl, hb, hsource⟩ := hs
  exact (Program.readsAs hw).ofSource hl hb hsource

/-- **A program is built again from its source text**, whatever blanks stand around its lines. -/
theorem Program.ofCommands_ofSource {p : Program} (hw : p.Written) {source : String} (hs : p.IsSource source) :
    Program.ofCommands (Command.ofSource source) = p := by
  rw [Command.ofSource_eq_flat hw hs, Program.ofCommands_flat]

/-- A function in which a loop goes down, and a call of it. -/
def countdown : Program where
  functions := [⟨"countdown", ["n"], [
    .loop ⟨"i", .ofText "9", .ofText "n", false, .ofText "1", .reverse⟩
      [.act .allOn, .act (.sleep (some (.ofText "i")))]]⟩]
  body := [.act (.callUser "countdown" [.ofText "1"])]

/-- The end of a line, and the indentation of the next one. -/
def indentation (depth : Nat) : List Char := '\n' :: List.replicate (2 * depth) ' '

theorem Program.ofCommands_ofSource_countdown :
    let source := "int countdown(int n)\n\x7b\n  for (int i = 9; i > n; i -= 1)\n  \x7b\n    on();\n    sleep(i);\n" ++
      "  \x7d\n\x7d\n\ncountdown(1);\n"
    countdown.Written ∧ countdown.IsSource source ∧ Program.ofCommands (Command.ofSource source) = countdown := by
  have hname {name : String} (hs : Token.startsWith Token.isNameStart name.toList = true)
      (hc : ∀ c ∈ name.toList, Token.isNameChar c = true) (hk : name ∉ keywords) (hg : name ∉ givenNames) : Name name :=
    ⟨⟨hs, hc, hk⟩, hg⟩
  have hcountdown : Name "countdown" := hname (by decide) (by decide) (by decide) (by decide)
  have hn : Name "n" := hname (by decide) (by decide) (by decide) (by decide)
  have hi : (Operand.ofText "i").Printed := Operand.Printed.of_char rfl (by decide) rfl (.name "i")
  have hone : (Operand.ofText "1").Printed := Operand.Printed.of_char rfl (by decide) rfl (.number (.int 1))
  have hloop : LoopHeader.Written ⟨"i", .ofText "9", .ofText "n", false, .ofText "1", .reverse⟩ :=
    ⟨hname (by decide) (by decide) (by decide) (by decide),
      Operand.Printed.of_char rfl (by decide) rfl (.number (.int 9)),
      Operand.Printed.of_char rfl (by decide) rfl (.name "n"), hone⟩
  have hwritten : countdown.Written := by
    have hcall : Stmt.WrittenAll countdown.body := ⟨⟨hcountdown, List.forall_mem_singleton.2 hone⟩, trivial⟩
    refine ⟨List.forall_mem_singleton.2 ⟨hcountdown, List.forall_mem_singleton.2 hn, ⟨hloop, trivial, ?_, trivial⟩,
      trivial⟩, hcall⟩
    rintro o ⟨⟩
    exact hi
  intro source
  have hsource : countdown.IsSource source := by
    refine ⟨_, indentation 0, .cons [] nofun <|
      .cons (indentation 0) (by decide) <| .cons (indentation 1) (by decide) <|
      .cons (indentation 1) (by decide) <| .cons (indentation 2) (by decide) <|
      .cons (indentation 2) (by decide) <| .cons (indentation 1) (by decide) <|
      .cons (indentation 0) (by decide) <| .cons (indentation 0 ++ indentation 0) (by decide) .nil, by decide, ?_⟩
    decide +kernel
  exact ⟨hwritten, hsource, Program.ofCommands_ofSource hwritten hsource⟩

end RunningLights
