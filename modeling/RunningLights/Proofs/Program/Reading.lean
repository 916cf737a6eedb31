import RunningLights.Procedure.Reader
import RunningLights.Proofs.Program.Nesting

/-!
# Reading well-nested commands

The reader keeps a stack of open blocks beside the commands that it has read.  They agree as long as no condition is
given a second alternative:

* `Matches`, `Tidy` — the blocks on the stack are what is open among the commands;
* `Reader.Leads`, `Reader.leads_step` — a piece of the text keeps the reader tidy, unless it is such an alternative;
* `Command.block_ofSource` — the commands of a text are well nested exactly if the reader comes to no such
  alternative.
-/

namespace RunningLights.Procedure

open Commands (nest? nest?_append)

/-! ### Blocks and what is open among the commands -/

/-- The blocks on the stack and what they leave open.  A chain of conditions is one block: all of them but the last
have their alternatives. -/
inductive Matches : List BlockKind → List Commands.Open → Prop
  | nil : Matches [] []
  | loop {ks s} : Matches ks s → Matches (.loop :: ks) (.loop :: s)
  | branch {ks s o} (d : Nat) : o = .yes ∨ o = .no → Matches ks s →
      Matches (.branch (d + 1) :: ks) (o :: (List.replicate d .no ++ s))
  | doLoop {ks s} : Matches ks s → Matches (.doLoop :: ks) (.doLoop :: s)
  | function {ks s} : Matches ks s → Matches (.function :: ks) (.function :: s)
  | group {ks s} : Matches ks s → Matches (.group :: ks) s

/-- No closer among the commands is misplaced, and the blocks are what is open behind them. -/
def Tidy (commands : Array Command) (ks : List BlockKind) : Prop :=
  ∃ s, nest? commands.toList [] = some s ∧ Matches ks s

/-- Behind the commands the blocks become others. -/
def Turns (more : List Command) (ks ls : List BlockKind) : Prop :=
  ∀ s, Matches ks s → ∃ t, nest? more s = some t ∧ Matches ls t

theorem Tidy.append {commands : Array Command} {more : List Command} {ks ls : List BlockKind}
    (h : Tidy commands ks) (hm : Turns more ks ls) : Tidy (commands ++ more) ls := by
  obtain ⟨s, hs, hk⟩ := h
  obtain ⟨t, ht, hl⟩ := hm s hk
  refine ⟨t, ?_, hl⟩
  rw [Array.toList_appendList, nest?_append, hs]
  exact ht

/-- The conditions of a chain are closed by as many closers. -/
theorem nest?_replicate_ifEnd (d : Nat) (s : List Commands.Open) :
    nest? (List.replicate d .ifEnd) (List.replicate d .no ++ s) = some s := by
  induction d with
  | zero => rfl
  | succ d ih => exact ih

theorem Block.turns_close (b : Block) (rest : List Char) (ks : List BlockKind) :
    Turns (b.close rest).1 (b.kind :: ks) ks := by
  intro s hs
  obtain ⟨kind, braced⟩ := b
  cases hs with
  | loop h => exact ⟨_, rfl, h⟩
  | branch d ho h =>
    refine ⟨_, ?_, h⟩
    rcases ho with rfl | rfl <;> exact nest?_replicate_ifEnd d _
  | doLoop h =>
    refine ⟨_, ?_, h⟩
    simp only [Block.close]
    split <;> rfl
  | function h => exact ⟨_, rfl, h⟩
  | group h => exact ⟨_, rfl, h⟩

def Opens (kind : BlockKind) (opener : List Command) : Prop := ∀ ks, Turns opener ks (kind :: ks)

theorem opens_loop (header : LoopHeader) : Opens .loop [.loopStart header] := fun _ _ h => ⟨_, rfl, .loop h⟩

theorem opens_branch (c : Operand) : Opens (.branch 1) [.ifStart c] := fun _ _ h => ⟨_, rfl, .branch 0 (.inl rfl) h⟩

theorem opens_doLoop : Opens .doLoop [.doStart] := fun _ _ h => ⟨_, rfl, .doLoop h⟩

theorem opens_lambda (name capture : String) (params : List String) :
    Opens .function [.lambdaStart name capture params] := fun _ _ h => ⟨_, rfl, .function h⟩

theorem opens_function (name : String) (params : List String) : Opens .function [.functionStart name params] :=
  fun _ _ h => ⟨_, rfl, .function h⟩

theorem opens_group : Opens .group [] := fun _ _ h => ⟨_, rfl, .group h⟩

/-! ### Simple statements -/

/-- Commands that open and close nothing. -/
def Flat (cs : List Command) : Prop := ∀ c ∈ cs, ∀ s, c.nest? s = some s

theorem Flat.turns {cs : List Command} (h : Flat cs) (ks : List BlockKind) : Turns cs ks ks := by
  intro s hs
  refine ⟨s, ?_, hs⟩
  induction cs with
  | nil => rfl
  | cons c cs ih =>
    rw [Commands.nest?_cons (h c List.mem_cons_self s)]
    exact ih fun d hd => h d (List.mem_cons_of_mem _ hd)

theorem flat_act (a : Action) : Flat [.act a] := by
  intro c hc s
  rw [List.mem_singleton.1 hc]
  rfl

theorem flat_nil : Flat [] := fun _ hc => by cases hc

theorem flat_declarationCommands (d : Declaration) : Flat (declarationCommands d) := by
  intro c hc s
  obtain ⟨part, -, hp⟩ := List.mem_filterMap.1 hc
  obtain ⟨found, -, rfl⟩ := Option.map_eq_some_iff.1 hp
  rfl

theorem flat_callCommands (name : String) (args : List (List Char)) : Flat (callCommands name args) := by
  simp only [callCommands]
  split
  case h_8 =>
    split
    · exact flat_act _
    · split
      · exact flat_nil
      · exact flat_act _
  all_goals exact flat_act _

theorem flat_ofStatement (cs : List Char) : Flat (Command.ofStatement cs) := by
  unfold Command.ofStatement
  split
  · intro c hc s
    rw [List.mem_singleton.1 hc]
    rfl
  · split
    · exact flat_declarationCommands _
    · split
      · exact flat_act _
      · split
        · exact flat_act _
        · split
          · exact flat_callCommands _ _
          · exact flat_nil

/-! ### What a reader leads to -/

namespace Reader

def kinds (r : Reader) : List BlockKind := r.blocks.map Block.kind

/-- A reader with these commands and blocks has read on; and it is tidy if they were. -/
structure Leads (commands : Array Command) (ks : List BlockKind) (r : Reader) : Prop where
  grows : commands.toList <+: r.commands.toList
  tidy : Tidy commands ks → Tidy r.commands r.kinds

variable {commands : Array Command} {ks ls : List BlockKind} {r r' : Reader}

theorem grows_append (commands : Array Command) (more : List Command) :
    commands.toList <+: (commands ++ more).toList := by
  rw [Array.toList_appendList]
  exact List.prefix_append _ _

theorem Leads.refl (r : Reader) : Leads r.commands r.kinds r := ⟨List.prefix_rfl, id⟩

theorem Leads.trans (h : Leads commands ks r) (h' : Leads r.commands r.kinds r') : Leads commands ks r' :=
  ⟨h.grows.trans h'.grows, fun ht => h'.tidy (h.tidy ht)⟩

/-- What a reader leads to once it has written commands that turn its blocks into others. -/
theorem Leads.after {more : List Command} (hm : Turns more ks ls) (h : Leads (commands ++ more) ls r) :
    Leads commands ks r :=
  ⟨(grows_append _ _).trans h.grows, fun ht => h.tidy (ht.append hm)⟩

theorem leads_closeBare (rest : List Char) (commands : Array Command) (blocks : List Block) :
    Leads commands (blocks.map Block.kind) (closeBare rest commands blocks) := by
  induction blocks generalizing rest commands with
  | nil => exact .refl ⟨rest, [], commands⟩
  | cons b bs ih =>
    unfold closeBare
    split
    · exact .refl ⟨rest, b :: bs, commands⟩
    · exact (ih _ _).after (b.turns_close rest _)

theorem leads_afterStatement (r : Reader) : Leads r.commands r.kinds r.afterStatement :=
  leads_closeBare r.rest r.commands r.blocks

theorem leads_closeBrace (r : Reader) : Leads r.commands r.kinds r.closeBrace := by
  unfold closeBrace
  refine (leads_afterStatement r).trans ?_
  generalize r.afterStatement = r
  obtain ⟨rest, blocks, commands⟩ := r
  cases blocks with
  | nil => exact .refl _
  | cons b bs =>
    simp only
    split
    · exact .refl ⟨rest, b :: bs, commands⟩
    · exact (leads_closeBare _ _ bs).after (b.turns_close rest _)

theorem leads_beginBody (kind : BlockKind) (rest : List Char) (blocks : List Block) (commands : Array Command) :
    Leads commands (kind :: blocks.map Block.kind) (beginBody kind rest blocks commands) := by
  unfold beginBody
  split
  · rename_i behind _
    exact .refl ⟨behind, ⟨kind, true⟩ :: blocks, commands⟩
  · exact leads_closeBare _ _ (⟨kind, false⟩ :: blocks)
  · exact .refl ⟨Text.trimLeft rest, ⟨kind, false⟩ :: blocks, commands⟩

theorem leads_openBlock {kind : BlockKind} {opener : List Command} (h : Opens kind opener) (r : Reader)
    (rest : List Char) : Leads r.commands r.kinds (r.openBlock kind rest opener) :=
  (leads_beginBody kind rest r.blocks _).after (h r.kinds)

theorem leads_openBraced {kind : BlockKind} {opener : List Command} (h : Opens kind opener) (r : Reader)
    (rest : List Char) : Leads r.commands r.kinds (r.openBraced kind rest opener) :=
  (Leads.refl ⟨rest, ⟨kind, true⟩ :: r.blocks, r.commands ++ opener⟩).after (h r.kinds)

theorem leads_readFor (r : Reader) (rest : List Char) : Leads r.commands r.kinds (r.readFor rest) := by
  simp only [readFor]
  split
  · exact leads_openBlock (opens_loop _) r _
  · exact leads_openBlock opens_group r _

theorem leads_readStatement (r : Reader) : Leads r.commands r.kinds r.readStatement :=
  (leads_closeBare _ _ r.blocks).after ((flat_ofStatement _).turns _)

theorem leads_readPlain (r : Reader) : Leads r.commands r.kinds r.readPlain := by
  unfold readPlain
  split
  · simp only
    split
    · exact leads_openBraced (opens_lambda _ _ _) r _
    · split
      · exact leads_openBraced (opens_function _ _) r _
      · split
        · exact leads_readStatement r
        · exact leads_openBraced opens_group r _
  · exact leads_readStatement r

/-! ### Alternatives -/

/-- A condition is the innermost block, and it has its alternative. -/
def HasElse (r : Reader) : Prop :=
  (∃ d ks, r.kinds = .branch d :: ks) ∧ ∃ s, nest? r.commands.toList [] = some (.no :: s)

/-- An alternative turns the condition into one more of its chain, or into its own alternative. -/
theorem readElse_leads {d : Nat} (hr : r.kinds = .branch d :: ks) (rest : List Char) : ∃ k more,
    Leads (r.commands ++ Command.elseMark :: more) (.branch k :: ks) (r.readElse rest) ∧
      ((more = [] ∧ k = d) ∨ ∃ c, more = [.ifStart c] ∧ k = d + 1) := by
  obtain ⟨before, blocks, commands⟩ := r
  cases blocks with
  | nil => cases hr
  | cons b bs =>
    obtain ⟨kind, braced⟩ := b
    obtain ⟨rfl, rfl⟩ := List.cons.inj hr
    simp only [readElse]
    split
    · refine ⟨d + 1, [.ifStart (condition (dropKeyword "if" rest)).1], ?_, .inr ⟨_, rfl, rfl⟩⟩
      have h := leads_beginBody (.branch (d + 1)) (condition (dropKeyword "if" rest)).2 bs
        ((commands.push .elseMark).push (.ifStart (condition (dropKeyword "if" rest)).1))
      simpa using h
    · refine ⟨d, [], ?_, .inl ⟨rfl, rfl⟩⟩
      have h := leads_beginBody (.branch d) rest bs (commands.push .elseMark)
      simpa using h

/-- The alternative of a condition that had none. -/
theorem leads_readElse (h : ¬ r.HasElse) (rest : List Char) : Leads r.commands r.kinds (r.readElse rest) := by
  by_cases hb : ∃ d ks, r.kinds = .branch d :: ks
  · obtain ⟨d, ks, hr⟩ := hb
    obtain ⟨k, more, hl, hm⟩ := readElse_leads hr rest
    refine ⟨(grows_append _ _).trans hl.grows, fun ⟨s, hs, hk⟩ => hl.tidy ?_⟩
    rw [hr] at hk
    cases hk with
    | branch d ho hk =>
      rcases ho with rfl | rfl
      · -- the condition has no alternative yet, so that it may be given one
        rcases hm with ⟨rfl, rfl⟩ | ⟨c, rfl, rfl⟩
        · refine ⟨_, ?_, .branch d (.inr rfl) hk⟩
          rw [Array.toList_appendList, nest?_append, hs]
          rfl
        · refine ⟨_, ?_, .branch (d + 1) (.inl rfl) hk⟩
          rw [Array.toList_appendList, nest?_append, hs]
          rfl
      · exact absurd ⟨⟨d + 1, ks, hr⟩, _, hs⟩ h
  · unfold readElse
    split
    · rename_i d braced bs hr
      exact absurd ⟨d, bs.map Block.kind, by rw [kinds, hr]; rfl⟩ hb
    · exact leads_openBlock opens_group r rest

/-- A second alternative is read all the same. -/
theorem grows_readElse (h : r.HasElse) (rest : List Char) :
    r.commands.toList ++ [.elseMark] <+: (r.readElse rest).commands.toList := by
  obtain ⟨⟨d, ks, hr⟩, -⟩ := h
  obtain ⟨k, more, hl, -⟩ := readElse_leads hr rest
  refine List.IsPrefix.trans ?_ hl.grows
  rw [Array.toList_appendList]
  exact ⟨more, by simp⟩

/-! ### Pieces of the text -/

/-- The reader comes to an alternative of a condition that has one. -/
def RepeatsElse (r : Reader) : Prop := String.ofList (word r.rest) = "else" ∧ r.HasElse

theorem leads_readItem (h : ¬ r.RepeatsElse) : Leads r.commands r.kinds r.readItem := by
  unfold readItem
  split
  · exact leads_readFor r _
  · exact leads_openBlock (opens_branch _) r _
  · rename_i hw
    exact leads_readElse (fun he => h ⟨hw, he⟩) _
  · exact leads_openBlock opens_doLoop r _
  · exact leads_openBlock opens_group r _
  · exact leads_openBlock opens_group r _
  · exact leads_readPlain r

/-- **A piece of the text** keeps the reader tidy, unless it is a second alternative of a condition. -/
theorem leads_step (h : ¬ r.RepeatsElse) : Leads r.commands r.kinds r.step := by
  unfold step
  split
  · exact .refl r
  · rename_i rest _
    exact leads_closeBrace { r with rest }
  · exact leads_openBraced opens_group r _
  · rename_i rest _
    exact .refl { r with rest }
  · exact leads_readItem h

theorem step_of_repeatsElse (h : r.RepeatsElse) : r.step = r.readElse (dropKeyword "else" r.rest) := by
  have hw : String.ofList (word r.rest) = "else" := h.1
  have hitem : r.readItem = r.readElse (dropKeyword "else" r.rest) := by
    simp only [readItem, hw]
  unfold step
  split
  case h_5 => exact hitem
  all_goals
    rename_i hr
    rw [hr] at hw
    exact absurd (show "" = "else" from hw) (by decide)

theorem grows_step_of_repeatsElse (h : r.RepeatsElse) :
    r.commands.toList ++ [.elseMark] <+: r.step.commands.toList := by
  rw [step_of_repeatsElse h]
  exact grows_readElse h.2 _

theorem grows_step (r : Reader) : r.commands.toList <+: r.step.commands.toList := by
  by_cases h : r.RepeatsElse
  · exact (List.prefix_append _ _).trans (grows_step_of_repeatsElse h)
  · exact (leads_step h).grows

/-! ### Texts -/

theorem nest?_closeAll {blocks : List Block} (rest : List Char) {commands : Array Command}
    (h : Tidy commands (blocks.map Block.kind)) : nest? (closeAll rest commands blocks).toList [] = some [] := by
  induction blocks generalizing rest commands with
  | nil =>
    obtain ⟨s, hs, hk⟩ := h
    cases hk
    exact hs
  | cons b bs ih => exact ih _ (h.append (b.turns_close rest _))

theorem grows_closeAll (rest : List Char) (commands : Array Command) (blocks : List Block) :
    commands.toList <+: (closeAll rest commands blocks).toList := by
  induction blocks generalizing rest commands with
  | nil => exact List.prefix_rfl
  | cons b bs ih => exact (grows_append _ _).trans (ih _ _)

/-- The readers before the pieces of a text, as `run` comes to them. -/
def passed : (fuel : Nat) → Reader → List Reader
  | 0, _ => []
  | fuel + 1, r =>
    match Text.trimLeft r.rest with
    | [] => []
    | rest => { r with rest } :: passed fuel (step { r with rest })

section

variable {fuel : Nat}

theorem run_of_end (h : Text.trimLeft r.rest = []) : run (fuel + 1) r = closeAll [] r.commands r.blocks := by
  simp only [run, h]

theorem run_of_piece (h : Text.trimLeft r.rest ≠ []) :
    run (fuel + 1) r = run fuel (step { r with rest := Text.trimLeft r.rest }) := by
  rw [run]
  split
  · contradiction
  · rfl

theorem passed_of_end (h : Text.trimLeft r.rest = []) : passed (fuel + 1) r = [] := by
  simp only [passed, h]

theorem passed_of_piece (h : Text.trimLeft r.rest ≠ []) : passed (fuel + 1) r =
    { r with rest := Text.trimLeft r.rest } :: passed fuel (step { r with rest := Text.trimLeft r.rest }) := by
  rw [passed]
  split
  · contradiction
  · rfl

end

theorem grows_run (fuel : Nat) (r : Reader) : r.commands.toList <+: (run fuel r).toList := by
  induction fuel generalizing r with
  | zero => exact grows_closeAll _ _ _
  | succ fuel ih =>
    by_cases h : Text.trimLeft r.rest = []
    · rw [run_of_end h]
      exact grows_closeAll _ _ _
    · rw [run_of_piece h]
      exact (grows_step { r with rest := Text.trimLeft r.rest }).trans (ih _)

/-- **Reading on from a tidy reader** gives well-nested commands if no condition is given a second alternative. -/
theorem nest?_run (fuel : Nat) {r : Reader} (ht : Tidy r.commands r.kinds)
    (h : ∀ p ∈ passed fuel r, ¬ p.RepeatsElse) : nest? (run fuel r).toList [] = some [] := by
  induction fuel generalizing r with
  | zero => exact nest?_closeAll _ ht
  | succ fuel ih =>
    by_cases he : Text.trimLeft r.rest = []
    · rw [run_of_end he]
      exact nest?_closeAll _ ht
    · rw [passed_of_piece he, List.forall_mem_cons] at h
      rw [run_of_piece he]
      exact ih ((leads_step h.1).tidy ht) h.2

/-- A second alternative of a condition is misplaced, whatever is read behind it. -/
theorem nest?_run_of_repeatsElse (fuel : Nat) {r p : Reader} (hp : p ∈ passed fuel r) (h : p.RepeatsElse) :
    nest? (run fuel r).toList [] = none := by
  induction fuel generalizing r with
  | zero => cases hp
  | succ fuel ih =>
    by_cases he : Text.trimLeft r.rest = []
    · rw [passed_of_end he] at hp
      cases hp
    · rw [passed_of_piece he] at hp
      rw [run_of_piece he]
      rcases List.mem_cons.1 hp with rfl | hp
      · obtain ⟨more, hm⟩ := (grows_step_of_repeatsElse h).trans (grows_run fuel _)
        obtain ⟨-, -, s, hs⟩ := h
        rw [← hm, nest?_append, nest?_append, hs]
        rfl
      · exact ih hp

/-- The readers before the pieces of a program text. -/
def ofSource (source : String) : List Reader :=
  let cs := blankComments source.toList
  passed cs.length ⟨cs, [], #[]⟩

end Reader

end RunningLights.Procedure

namespace RunningLights

open Procedure

/-- The reader of a text leaves nothing open exactly if it comes to no second alternative of a condition. -/
theorem Command.nest?_ofSource (source : String) :
    Commands.nest? (ofSource source) [] = some [] ↔ ∀ r ∈ Reader.ofSource source, ¬ r.RepeatsElse := by
  refine ⟨fun h r hr hn => ?_, fun h => ?_⟩
  · have hnone : Commands.nest? (ofSource source) [] = none := Reader.nest?_run_of_repeatsElse _ hr hn
    rw [h] at hnone
    cases hnone
  · exact Reader.nest?_run _ ⟨[], rfl, .nil⟩ h

/-- **Nesting.**  The commands of a program text are well nested, and none of them is dropped or closes a block that
is not its own when the program is built, exactly if no condition in the text is given a second alternative. -/
theorem Command.block_ofSource (source : String) :
    (Commands.Block (ofSource source) ↔ ∀ r ∈ Reader.ofSource source, ¬ r.RepeatsElse) ∧
    (Program.Builder.empty.TakesAll (ofSource source) ↔ ∀ r ∈ Reader.ofSource source, ¬ r.RepeatsElse) := by
  rw [← nest?_ofSource]
  exact ⟨Commands.block_iff, Program.Builder.takesAll_iff⟩

/-- Conditions without braces in one another are given a second alternative, which is that of the outer one. -/
theorem Command.not_block_ofSource : ¬ ∀ source, Commands.Block (ofSource source) := by
  intro h
  have hn := Commands.block_iff.1 (h "if (a) if (b) on(); else off(); else on();")
  revert hn
  decide +kernel

end RunningLights
