import Mathlib.Data.List.Perm.Basic
import RunningLights.Proofs.Program.Nesting

/-!
# What a program is made of

A program is built from any list of commands, also from one whose blocks are not closed or closed by the wrong
commands.  All that it can lose are closers:

* `Stmt.contents`, `Program.contents` — the commands that stand in a program, one opener for each block;
* `Commands.outside` — the commands of a list that stand in no definition of a function, whatever closers are misplaced;
* `Program.Builder.Grows`, `Program.Builder.grows_push` — what one command adds to a program that is being built;
* `Program.contents_ofCommands` — what stands in the program of a list.
-/

namespace RunningLights

open Program

/-! ### The commands of a program -/

mutual

/-- The simple commands and the openers of a statement, in order. -/
def Stmt.contents : Stmt → List Command
  | .act a => [.act a]
  | .ret value => [.ret value]
  | .loop h body => .loopStart h :: Stmt.contentsAll body
  | .branch c yes no => .ifStart c :: (Stmt.contentsAll yes ++ Stmt.contentsAll no)
  | .doLoop body _ => .doStart :: Stmt.contentsAll body
  | .lambda name capture params body => .lambdaStart name capture params :: Stmt.contentsAll body

def Stmt.contentsAll : List Stmt → List Command
  | [] => []
  | s :: ss => s.contents ++ Stmt.contentsAll ss

end

def FunctionDef.contents (f : FunctionDef) : List Command :=
  .functionStart f.name f.params :: Stmt.contentsAll f.body

/-- The simple commands and the openers of a program, those of its functions first. -/
def Program.contents (p : Program) : List Command :=
  p.functions.flatMap FunctionDef.contents ++ Stmt.contentsAll p.body

theorem Stmt.contentsAll_append (ss ts : List Stmt) : contentsAll (ss ++ ts) = contentsAll ss ++ contentsAll ts := by
  induction ss with
  | nil => rfl
  | cons s ss ih => rw [List.cons_append, contentsAll, contentsAll, ih, List.append_assoc]

theorem Stmt.contentsAll_snoc (ss : List Stmt) (s : Stmt) : contentsAll (ss ++ [s]) = contentsAll ss ++ s.contents := by
  rw [contentsAll_append, contentsAll, contentsAll, List.append_nil]

/-! ### Commands outside of functions -/

namespace Commands

/-- A block around a command. -/
inductive Around where
  | loop
  /-- A condition without an alternative so far. -/
  | yes
  /-- The alternative of a condition. -/
  | no
  | doLoop
  | lambda
  | function
  deriving Repr, DecidableEq, Inhabited

end Commands

/-- The command closes a block, or ends its first branch. -/
def Command.closes (c : Command) : Bool := c.closer?.isSome

/-- The blocks that are open behind a command, the innermost first.  A closer ends the innermost blocks up to the one
that it belongs to; if there is none, it ends all of them. -/
def Command.around : Command → List Commands.Around → List Commands.Around
  | .act _, s => s
  | .ret _, s => s
  | .loopStart _, s => .loop :: s
  | .ifStart _, s => .yes :: s
  | .doStart, s => .doLoop :: s
  | .lambdaStart .., s => .lambda :: s
  | .functionStart .., s => .function :: s
  | .loopEnd, s => (s.dropWhile (· != .loop)).tail
  | .elseMark, s =>
    match s.dropWhile (· != .yes) with
    | [] => []
    | _ :: s => .no :: s
  | .ifEnd, s => (s.dropWhile fun a => a != .yes && a != .no).tail
  | .doEnd _, s => (s.dropWhile (· != .doLoop)).tail
  | .functionEnd, s => (s.dropWhile fun a => a != .lambda && a != .function).tail

/-- The command closes nothing, and neither it nor a block around it is the definition of a function. -/
def Command.isOutside (c : Command) (s : List Commands.Around) : Bool :=
  !c.closes && !(c.around s).contains .function

/-- The commands of a list that are in no definition of a function, without closers. -/
def Commands.outside : List Around → List Command → List Command
  | _, [] => []
  | s, c :: cs => (if c.isOutside s then [c] else []) ++ outside (c.around s) cs

/-! ### Programs that are being built -/

namespace Program

def Opener.around : Opener → Commands.Around
  | .loop _ => .loop
  | .yes _ => .yes
  | .no _ _ => .no
  | .doLoop => .doLoop
  | .lambda _ _ _ => .lambda
  | .function _ _ => .function

/-- The commands of an opener, and those of the branch that it has behind it. -/
def Opener.contents : Opener → List Command
  | .loop h => [.loopStart h]
  | .yes c => [.ifStart c]
  | .no c branch => .ifStart c :: Stmt.contentsAll branch
  | .doLoop => [.doStart]
  | .lambda name capture params => [.lambdaStart name capture params]
  | .function name params => [.functionStart name params]

def Pending.contents (p : Pending) : List Command := p.opener.contents ++ Stmt.contentsAll p.latest.reverse

namespace Builder

/-- The blocks that are open. -/
def around (b : Builder) : List Commands.Around := b.pending.map fun p => p.opener.around

def inFunction (b : Builder) : Bool := b.around.contains .function

/-- The commands of the open blocks behind those before them; if only those outside count, the ones in functions are
left out. -/
def gather (outside : Bool) (before : List Command) : List Pending → List Command
  | [] => before
  | p :: ps =>
    if outside && ((p :: ps).map fun p => p.opener.around).contains .function then gather outside before ps
    else gather outside before ps ++ p.contents

/-- The commands that are in no complete function, or in no function at all. -/
def gathered (b : Builder) (outside : Bool) : List Command :=
  gather outside (Stmt.contentsAll b.latest.reverse) b.pending

def contents (b : Builder) : List Command := b.functions.flatMap FunctionDef.contents ++ b.gathered false

/-! ### Steps of building -/

section Steps

variable (b : Builder) (outside : Bool)

theorem gathered_of_pending {p : Pending} {ps : List Pending} (h : b.pending = p :: ps) :
    b.gathered outside = if outside && b.inFunction then gathered { b with pending := ps } outside
      else gathered { b with pending := ps } outside ++ p.contents := by
  unfold inFunction around gathered
  rw [h, gather]

theorem gathered_addStmt (s : Stmt) : (b.addStmt s).gathered outside =
    if outside && b.inFunction then b.gathered outside else b.gathered outside ++ s.contents := by
  obtain ⟨pending, latest, functions⟩ := b
  cases pending with
  | nil =>
    have hout : inFunction ⟨[], latest, functions⟩ = false := rfl
    rw [hout, Bool.and_false, addStmt]
    simp [gathered, gather, Stmt.contentsAll_snoc]
  | cons p ps =>
    have hp : Pending.contents { p with latest := s :: p.latest } = p.contents ++ s.contents := by
      simp [Pending.contents, Stmt.contentsAll_snoc]
    rw [addStmt]
    simp only [gathered, gather, inFunction, around, hp, List.map_cons]
    split
    · rfl
    · exact (List.append_assoc _ _ _).symm

theorem around_addStmt (s : Stmt) : (b.addStmt s).around = b.around := by
  unfold addStmt around
  split
  · rfl
  · rename_i p ps hp
    rw [hp]
    rfl

theorem gathered_openBlock (o : Opener) : (b.openBlock o).gathered outside =
    if outside && (b.openBlock o).inFunction then b.gathered outside else b.gathered outside ++ o.contents := by
  have ho : Pending.contents ⟨o, []⟩ = o.contents := by simp [Pending.contents, Stmt.contentsAll]
  rw [gathered_of_pending (b.openBlock o) outside rfl, ho]
  rfl

theorem functions_addStmt (s : Stmt) : (b.addStmt s).functions = b.functions := by
  unfold addStmt
  split <;> rfl

/-- A complete block becomes a statement, or a function. -/
theorem complete_cases (p : Pending) (c : Option Operand) :
    (p.opener.around ≠ .function ∧ ∃ s, b.complete p c = b.addStmt s ∧ s.contents = p.contents) ∨
    (p.opener.around = .function ∧
      ∃ f, b.complete p c = { b with functions := f :: b.functions } ∧ f.contents = p.contents) := by
  obtain ⟨opener, latest⟩ := p
  cases opener with
  | function name params => exact .inr ⟨rfl, _, rfl, rfl⟩
  | yes cond =>
    refine .inl ⟨nofun, _, rfl, ?_⟩
    simp [Stmt.contents, Pending.contents, Opener.contents, Stmt.contentsAll]
  | no cond first => exact .inl ⟨nofun, _, rfl, rfl⟩
  | _ => exact .inl ⟨nofun, _, rfl, rfl⟩

end Steps

/-- From `b` to `b'` the commands `taken` have been added, of which `outer` are in no function.  A function that has
been completed holds its commands in the order in which they came. -/
structure Grows (b : Builder) (taken outer : List Command) (b' : Builder) : Prop where
  contents : b'.contents.Perm (b.contents ++ taken)
  outside : b'.gathered true = b.gathered true ++ outer
  placed : (b'.gathered false).Sublist (b.gathered false ++ taken)
  functions : ∀ f ∈ b'.functions, f ∈ b.functions ∨ f.contents.Sublist (b.gathered false ++ taken)

namespace Grows

variable {b b' b'' : Builder} {taken taken' outer outer' : List Command}

theorem refl (b : Builder) : Grows b [] [] b := by
  constructor
  · rw [List.append_nil]
  · rw [List.append_nil]
  · rw [List.append_nil]
  · intro f hf
    exact .inl hf

theorem trans (h : Grows b taken outer b') (h' : Grows b' taken' outer' b'') :
    Grows b (taken ++ taken') (outer ++ outer') b'' := by
  have hplaced : (b'.gathered false ++ taken').Sublist (b.gathered false ++ (taken ++ taken')) := by
    rw [← List.append_assoc]
    exact h.placed.append (List.Sublist.refl taken')
  constructor
  · rw [← List.append_assoc]
    exact h'.contents.trans (h.contents.append_right taken')
  · rw [h'.outside, h.outside, List.append_assoc]
  · exact h'.placed.trans hplaced
  · intro f hf
    rcases h'.functions f hf with hf | hf
    · rcases h.functions f hf with hf | hf
      · exact .inl hf
      · refine .inr (hf.trans ?_)
        rw [← List.append_assoc]
        exact List.sublist_append_left _ _
    · exact .inr (hf.trans hplaced)

/-- No function is completed where the commands are added at the end. -/
theorem of_placed (hf : b'.functions = b.functions) (hplaced : b'.gathered false = b.gathered false ++ taken)
    (houtside : b'.gathered true = b.gathered true ++ outer) : Grows b taken outer b' := by
  constructor
  · rw [Builder.contents, Builder.contents, hf, hplaced, List.append_assoc]
  · exact houtside
  · rw [hplaced]
  · intro f h
    rw [hf] at h
    exact .inl h

end Grows

/-! ### Ends of blocks -/

/-- Completing the innermost block moves its commands, and adds none. -/
theorem grows_complete {b : Builder} {p : Pending} {ps : List Pending} (h : b.pending = p :: ps) (c : Option Operand) :
    Grows b [] [] (complete { b with pending := ps } p c) := by
  have hplaced : b.gathered false = gathered { b with pending := ps } false ++ p.contents :=
    b.gathered_of_pending false h
  have houtside := b.gathered_of_pending true h
  have hin : b.inFunction = (p.opener.around == .function || inFunction { b with pending := ps }) := by
    simp only [inFunction, around, h, List.map_cons, List.contains_cons]
    rw [Bool.beq_comm]
  rw [hin] at houtside
  rcases complete_cases { b with pending := ps } p c with ⟨hp, s, hs, hcontents⟩ | ⟨hp, f, hf, hcontents⟩
  · -- the block goes to the end of the one around it
    rw [hs]
    apply Grows.of_placed
    · exact functions_addStmt _ s
    · rw [gathered_addStmt, hplaced, hcontents, List.append_nil]
      rfl
    · rw [gathered_addStmt, houtside, hcontents, List.append_nil, beq_false_of_ne hp, Bool.false_or]
  · -- the block is taken out of those that are open
    rw [hf]
    constructor
    · rw [contents, contents, hplaced, List.append_nil, List.flatMap_cons, hcontents, List.append_assoc]
      refine List.perm_append_comm.trans ?_
      rw [List.append_assoc]
      exact .refl _
    · rw [houtside, hp, beq_self_eq_true, Bool.true_or, Bool.and_true, if_pos rfl, List.append_nil]
      rfl
    · rw [hplaced, List.append_nil]
      exact List.sublist_append_left _ _
    · intro g hg
      rcases List.mem_cons.1 hg with rfl | hg
      · rw [hplaced, hcontents, List.append_nil]
        exact .inr (List.sublist_append_right _ _)
      · exact .inl hg

/-- The first branch of a condition waits for its alternative with the commands that it has. -/
theorem grows_closeWith {b : Builder} {p : Pending} {ps : List Pending} (h : b.pending = p :: ps) (k : Closer) :
    Grows b [] [] (closeWith { b with pending := ps } p k) := by
  unfold closeWith
  split
  · rename_i cond ho
    have hcontents : Opener.contents (.no cond p.latest.reverse) = p.contents := by
      rw [Pending.contents, ho]
      rfl
    have hin : (openBlock { b with pending := ps } (.no cond p.latest.reverse)).inFunction = b.inFunction := by
      simp only [inFunction, around, openBlock, h, List.map_cons, List.contains_cons, ho]
      rfl
    apply Grows.of_placed
    · rfl
    · rw [gathered_openBlock, hcontents, b.gathered_of_pending false h, List.append_nil]
      rfl
    · rw [gathered_openBlock, hcontents, hin, b.gathered_of_pending true h, List.append_nil]
  · exact grows_complete h _

theorem grows_close (k : Closer) (b : Builder) : Grows b [] [] (b.close k) := by
  fun_induction Builder.close k b with
  | case1 b hb => exact .refl b
  | case2 b p ps hb outer hk => exact grows_closeWith hb k
  | case3 b p ps hb outer hk _ ih => exact (grows_complete hb none).trans ih

theorem grows_closeAll (b : Builder) : Grows b [] [] b.closeAll := by
  fun_induction Builder.closeAll b with
  | case1 b hb => exact .refl b
  | case2 b p ps hb outer _ ih => exact (grows_complete hb none).trans ih

theorem pending_closeAll (b : Builder) : b.closeAll.pending = [] := by
  fun_induction Builder.closeAll b with
  | case1 b hb => exact hb
  | case2 b p ps hb outer _ ih => exact ih

/-! ### What is open behind a closer -/

theorem around_complete (b : Builder) (p : Pending) (c : Option Operand) : (b.complete p c).around = b.around := by
  rcases complete_cases b p c with ⟨-, s, hs, -⟩ | ⟨-, f, hf, -⟩
  · rw [hs, around_addStmt]
  · rw [hf]
    rfl

theorem around_of_pending {b : Builder} {p : Pending} {ps : List Pending} (h : b.pending = p :: ps) :
    b.around = p.opener.around :: around { b with pending := ps } := by
  rw [around, h]
  rfl

theorem around_close {k : Closer} (hk : k ≠ .elseMark) {other : Commands.Around → Bool}
    (ho : ∀ o : Opener, k.ends o = !other o.around) (b : Builder) :
    (b.close k).around = (b.around.dropWhile other).tail := by
  fun_induction Builder.close k b with
  | case1 b hb =>
    rw [around, hb]
    rfl
  | case2 b p ps hb outer hends =>
    rw [ho, Bool.not_eq_true'] at hends
    have hwith : closeWith outer p k = outer.complete p k.condition := by
      unfold closeWith
      split
      · exact absurd rfl hk
      · rfl
    rw [hwith, around_complete, around_of_pending hb, List.dropWhile_cons_of_neg (by simp [hends]), List.tail_cons]
  | case3 b p ps hb outer hends _ ih =>
    rw [ho, Bool.not_eq_true', Bool.not_eq_false] at hends
    rw [ih, around_complete, around_of_pending hb, List.dropWhile_cons_of_pos hends]

theorem around_elseMark (b : Builder) : (b.close .elseMark).around = Command.around .elseMark b.around := by
  have hskip {a : Commands.Around} (ha : (a != .yes) = true) (s : List Commands.Around) :
      Command.around .elseMark (a :: s) = Command.around .elseMark s := by
    cases a with
    | yes => cases ha
    | _ => rfl
  fun_induction Builder.close .elseMark b with
  | case1 b hb =>
    rw [around, hb]
    rfl
  | case2 b p ps hb outer hends =>
    obtain ⟨opener, latest⟩ := p
    cases opener with
    | yes cond =>
      rw [around_of_pending hb]
      rfl
    | _ => cases hends
  | case3 b p ps hb outer hends _ ih =>
    have hne : (p.opener.around != .yes) = true := by
      obtain ⟨opener, latest⟩ := p
      cases opener with
      | yes cond => exact absurd rfl hends
      | _ => rfl
    rw [ih, around_complete, around_of_pending hb, hskip hne]

/-- What is open in a program that is being built is what is open behind the commands. -/
theorem around_push (b : Builder) (c : Command) : (b.push c).around = c.around b.around := by
  cases c with
  | act a => exact around_addStmt b _
  | ret value => exact around_addStmt b _
  | loopEnd => exact around_close (by simp) (fun o => by cases o <;> rfl) b
  | elseMark => exact around_elseMark b
  | ifEnd => exact around_close (by simp) (fun o => by cases o <;> rfl) b
  | doEnd c => exact around_close (by simp) (fun o => by cases o <;> rfl) b
  | functionEnd => exact around_close (by simp) (fun o => by cases o <;> rfl) b
  | _ => rfl

/-! ### Lists of commands -/

/-- The command itself, unless it is a closer. -/
def kept (c : Command) : List Command := if c.closes then [] else [c]

theorem grows_addStmt (b : Builder) (s : Stmt) :
    Grows b s.contents (if !(b.addStmt s).inFunction then s.contents else []) (b.addStmt s) := by
  have hin : (b.addStmt s).inFunction = b.inFunction := by rw [inFunction, around_addStmt, inFunction]
  apply Grows.of_placed
  · exact functions_addStmt b s
  · rw [gathered_addStmt]
    rfl
  · rw [gathered_addStmt, hin]
    cases b.inFunction
    · rfl
    · exact (List.append_nil _).symm

theorem grows_openBlock (b : Builder) (o : Opener) :
    Grows b o.contents (if !(b.openBlock o).inFunction then o.contents else []) (b.openBlock o) := by
  apply Grows.of_placed
  · rfl
  · rw [gathered_openBlock]
    rfl
  · rw [gathered_openBlock]
    cases (b.openBlock o).inFunction
    · rfl
    · exact (List.append_nil _).symm

/-- **One command.**  It adds itself at the end, unless it is a closer, which adds nothing. -/
theorem grows_push (b : Builder) (c : Command) :
    Grows b (kept c) (if c.isOutside b.around then [c] else []) (b.push c) := by
  have hout : c.isOutside b.around = (!c.closes && !(b.push c).inFunction) := by
    rw [inFunction, around_push]
    rfl
  rw [hout]
  cases c with
  | act a => exact grows_addStmt b (.act a)
  | ret value => exact grows_addStmt b (.ret value)
  | loopStart h => exact grows_openBlock b (.loop h)
  | ifStart cond => exact grows_openBlock b (.yes cond)
  | doStart => exact grows_openBlock b .doLoop
  | lambdaStart name capture params => exact grows_openBlock b (.lambda name capture params)
  | functionStart name params => exact grows_openBlock b (.function name params)
  | loopEnd => exact grows_close .loopEnd b
  | elseMark => exact grows_close .elseMark b
  | ifEnd => exact grows_close .ifEnd b
  | doEnd cond => exact grows_close (.doEnd cond) b
  | functionEnd => exact grows_close .functionEnd b

/-- **A list of commands.**  Each adds itself at the end or nothing, so that the list does. -/
theorem grows_foldl (cs : List Command) (b : Builder) :
    Grows b (cs.flatMap kept) (Commands.outside b.around cs) (cs.foldl push b) := by
  induction cs generalizing b with
  | nil => exact .refl b
  | cons c cs ih =>
    have h := (grows_push b c).trans (ih (b.push c))
    rw [around_push] at h
    exact h

theorem flatMap_kept (cs : List Command) : cs.flatMap kept = cs.filter fun c => !c.closes := by
  induction cs with
  | nil => rfl
  | cons c cs ih =>
    rw [List.flatMap_cons, ih, List.filter_cons, kept]
    cases c.closes <;> rfl

end Builder

/-- **Only closers are lost.**  In the program of any list of commands, whether its blocks are closed or not, stand
exactly the commands of the list that close nothing, each as often as in the list.  Outside of functions they stand in
the order of the list, and there stand all commands that are in no definition of a function; those of each function
are in the order of the list, too. -/
theorem contents_ofCommands (cs : List Command) :
    (ofCommands cs).contents.Perm (cs.filter fun c => !c.closes) ∧
    Stmt.contentsAll (ofCommands cs).body = Commands.outside [] cs ∧
    ∀ f ∈ (ofCommands cs).functions, f.contents.Sublist (cs.filter fun c => !c.closes) := by
  have h := (Builder.grows_foldl cs Builder.empty).trans (Builder.grows_closeAll (cs.foldl Builder.push Builder.empty))
  have hpending := Builder.pending_closeAll (cs.foldl Builder.push Builder.empty)
  rw [Builder.flatMap_kept, List.append_nil, List.append_nil] at h
  unfold ofCommands
  generalize (cs.foldl Builder.push Builder.empty).closeAll = b at h hpending
  obtain ⟨pending, latest, functions⟩ := b
  obtain rfl : pending = [] := hpending
  refine ⟨?_, ?_, ?_⟩
  · have hall := h.contents
    have hfunctions : (functions.reverse.flatMap FunctionDef.contents).Perm (functions.flatMap FunctionDef.contents) :=
      (List.reverse_perm functions).flatMap_right _
    exact (hfunctions.append_right _).trans hall
  · exact h.outside
  · intro f hf
    rcases h.functions f (List.mem_reverse.1 hf) with hf | hf
    · cases hf
    · exact hf

end Program

end RunningLights
