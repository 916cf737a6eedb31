import RunningLights.Procedure.Program

/-!
# Flat programs

A program as a flat list of commands, and back:

* `Stmt.flat`, `Program.flat` — the commands of a statement and of a program, its functions first;
* `Stmt.Flattens`, `Program.Flattens` — all lists of commands that a statement or a program can be written as: an empty
  alternative may have its mark or not;
* `Program.ofCommands_of_flattens`, `Program.rebuilds` — the program that is built from any of them is the same.
-/

namespace RunningLights

open Program

mutual

/-- The commands of a statement.  A condition without an alternative has no mark of one. -/
def Stmt.flat : Stmt → List Command
  | .act a => [.act a]
  | .ret value => [.ret value]
  | .loop h body => .loopStart h :: (Stmt.flatAll body ++ [.loopEnd])
  | .branch c yes [] => .ifStart c :: (Stmt.flatAll yes ++ [.ifEnd])
  | .branch c yes (s :: ss) =>
    .ifStart c :: (Stmt.flatAll yes ++ .elseMark :: (s.flat ++ Stmt.flatAll ss ++ [.ifEnd]))
  | .doLoop body c => .doStart :: (Stmt.flatAll body ++ [.doEnd c])
  | .lambda name capture params body => .lambdaStart name capture params :: (Stmt.flatAll body ++ [.functionEnd])

def Stmt.flatAll : List Stmt → List Command
  | [] => []
  | s :: ss => s.flat ++ Stmt.flatAll ss

end

def FunctionDef.flat (f : FunctionDef) : List Command :=
  .functionStart f.name f.params :: (Stmt.flatAll f.body ++ [.functionEnd])

def Program.flat (p : Program) : List Command := p.functions.flatMap FunctionDef.flat ++ Stmt.flatAll p.body

/-! ### All flat lists of a program -/

mutual

/-- The list is made of the statement: each opener is followed by its body and its closer, and an alternative by its
mark.  A condition without an alternative may have the mark of an empty one. -/
inductive Stmt.Flattens : Stmt → List Command → Prop
  | act (a : Action) : Flattens (.act a) [.act a]
  | ret (value : Option Operand) : Flattens (.ret value) [.ret value]
  | loop (h : LoopHeader) {body : List Stmt} {cs : List Command} :
      Stmt.FlattensAll body cs → Flattens (.loop h body) (.loopStart h :: cs ++ [.loopEnd])
  | branch (c : Operand) {yes : List Stmt} {cs : List Command} :
      Stmt.FlattensAll yes cs → Flattens (.branch c yes []) (.ifStart c :: cs ++ [.ifEnd])
  | branchElse (c : Operand) {yes no : List Stmt} {cs ds : List Command} : Stmt.FlattensAll yes cs →
      Stmt.FlattensAll no ds → Flattens (.branch c yes no) (.ifStart c :: cs ++ .elseMark :: ds ++ [.ifEnd])
  | doLoop (c : Option Operand) {body : List Stmt} {cs : List Command} :
      Stmt.FlattensAll body cs → Flattens (.doLoop body c) (.doStart :: cs ++ [.doEnd c])
  | lambda (name capture : String) (params : List String) {body : List Stmt} {cs : List Command} :
      Stmt.FlattensAll body cs →
        Flattens (.lambda name capture params body) (.lambdaStart name capture params :: cs ++ [.functionEnd])

inductive Stmt.FlattensAll : List Stmt → List Command → Prop
  | nil : FlattensAll [] []
  | cons {s : Stmt} {ss : List Stmt} {cs ds : List Command} :
      Stmt.Flattens s cs → FlattensAll ss ds → FlattensAll (s :: ss) (cs ++ ds)

end

inductive FunctionDef.FlattensAll : List FunctionDef → List Command → Prop
  | nil : FlattensAll [] []
  | cons (f : FunctionDef) {fs : List FunctionDef} {cs ds : List Command} : Stmt.FlattensAll f.body cs →
      FlattensAll fs ds → FlattensAll (f :: fs) (.functionStart f.name f.params :: cs ++ [.functionEnd] ++ ds)

/-- The list is made of the program, its functions first. -/
def Program.Flattens (p : Program) (cs : List Command) : Prop :=
  ∃ ds es, cs = ds ++ es ∧ FunctionDef.FlattensAll p.functions ds ∧ Stmt.FlattensAll p.body es

mutual

theorem Stmt.flattens_flat : ∀ s : Stmt, s.Flattens s.flat
  | .act a => .act a
  | .ret value => .ret value
  | .loop h body => by
    rw [Stmt.flat]
    exact .loop h (Stmt.flattensAll_flatAll body)
  | .branch c yes [] => by
    rw [Stmt.flat]
    exact .branch c (Stmt.flattensAll_flatAll yes)
  | .branch c yes (s :: ss) => by
    have hno : Stmt.FlattensAll (s :: ss) (s.flat ++ Stmt.flatAll ss) :=
      .cons s.flattens_flat (Stmt.flattensAll_flatAll ss)
    have hbranch := Stmt.Flattens.branchElse c (Stmt.flattensAll_flatAll yes) hno
    rw [Stmt.flat]
    simpa using hbranch
  | .doLoop body c => by
    rw [Stmt.flat]
    exact .doLoop c (Stmt.flattensAll_flatAll body)
  | .lambda name capture params body => by
    rw [Stmt.flat]
    exact .lambda name capture params (Stmt.flattensAll_flatAll body)

theorem Stmt.flattensAll_flatAll : ∀ ss : List Stmt, Stmt.FlattensAll ss (Stmt.flatAll ss)
  | [] => .nil
  | s :: ss => by
    rw [Stmt.flatAll]
    exact .cons s.flattens_flat (Stmt.flattensAll_flatAll ss)

end

theorem FunctionDef.flattensAll_flat (fs : List FunctionDef) :
    FunctionDef.FlattensAll fs (fs.flatMap FunctionDef.flat) := by
  induction fs with
  | nil => exact .nil
  | cons f fs ih => exact .cons f (Stmt.flattensAll_flatAll f.body) ih

theorem Program.flattens_flat (p : Program) : p.Flattens p.flat :=
  ⟨_, _, rfl, FunctionDef.flattensAll_flat p.functions, Stmt.flattensAll_flatAll p.body⟩

/-! ### Building -/

namespace Program.Builder

theorem foldl_addStmt_pending (ss : List Stmt) (p : Pending) (ps : List Pending) (latest : List Stmt)
    (functions : List FunctionDef) : ss.foldl addStmt ⟨p :: ps, latest, functions⟩ =
      ⟨{ p with latest := ss.reverse ++ p.latest } :: ps, latest, functions⟩ := by
  induction ss generalizing p with
  | nil => rfl
  | cons s ss ih =>
    rw [List.foldl_cons, addStmt, ih]
    simp

theorem foldl_addStmt_nil (ss latest : List Stmt) (functions : List FunctionDef) :
    ss.foldl addStmt ⟨[], latest, functions⟩ = ⟨[], ss.reverse ++ latest, functions⟩ := by
  induction ss generalizing latest with
  | nil => rfl
  | cons s ss ih =>
    rw [List.foldl_cons, addStmt, ih]
    simp

/-- A closer ends the block whose statements have just been added. -/
theorem close_addAll {o : Opener} {c : Closer} (h : c.ends o = true) (b : Builder) (ss : List Stmt) :
    (ss.foldl addStmt (b.openBlock o)).close c = b.closeWith ⟨o, ss.reverse⟩ c := by
  rw [openBlock, foldl_addStmt_pending, close_of_ends h, List.append_nil]

/-- The mark of an alternative ends the statements before it and starts those behind it. -/
theorem push_elseMark_addAll (b : Builder) (c : Operand) (yes : List Stmt) :
    push (yes.foldl addStmt (b.openBlock (.yes c))) .elseMark = b.openBlock (.no c yes) := by
  rw [push, close_addAll rfl]
  simp [closeWith]

/-- Commands between an opener and its closer, of statements that they add. -/
theorem foldl_block {b : Builder} {o : Opener} {c : Closer} {start stop : Command} {cs : List Command}
    {ss : List Stmt} (hstart : b.push start = b.openBlock o) (hstop : ∀ b, push b stop = b.close c)
    (h : c.ends o = true) (hcs : ∀ b, cs.foldl push b = ss.foldl addStmt b) :
    (start :: (cs ++ [stop])).foldl push b = b.closeWith ⟨o, ss.reverse⟩ c := by
  rw [List.foldl_cons, List.foldl_append, hstart, hcs, List.foldl_cons, List.foldl_nil, hstop, close_addAll h]

mutual

/-- The commands of a statement add it. -/
theorem foldl_of_flattens {s : Stmt} {cs : List Command} : s.Flattens cs → ∀ b : Builder, cs.foldl push b = b.addStmt s
  | .act a, b => rfl
  | .ret value, b => rfl
  | .loop h hbody, b => by
    rw [List.cons_append, foldl_block rfl (fun _ => rfl) rfl (foldl_of_flattensAll hbody)]
    simp [closeWith, complete]
  | .branch c hyes, b => by
    rw [List.cons_append, foldl_block rfl (fun _ => rfl) rfl (foldl_of_flattensAll hyes)]
    simp [closeWith, complete]
  | .branchElse c hyes hno, b => by
    rw [List.cons_append, List.cons_append, List.append_assoc, List.foldl_cons, List.foldl_append, push,
      foldl_of_flattensAll hyes, List.cons_append, List.foldl_cons, push_elseMark_addAll, List.foldl_append,
      foldl_of_flattensAll hno, List.foldl_cons, List.foldl_nil, push, close_addAll rfl]
    simp [closeWith, complete]
  | .doLoop c hbody, b => by
    rw [List.cons_append, foldl_block rfl (fun _ => rfl) rfl (foldl_of_flattensAll hbody)]
    simp [closeWith, complete, Closer.condition]
  | .lambda name capture params hbody, b => by
    rw [List.cons_append, foldl_block rfl (fun _ => rfl) rfl (foldl_of_flattensAll hbody)]
    simp [closeWith, complete]

theorem foldl_of_flattensAll {ss : List Stmt} {cs : List Command} :
    Stmt.FlattensAll ss cs → ∀ b : Builder, cs.foldl push b = ss.foldl addStmt b
  | .nil, b => rfl
  | .cons hs hss, b => by
    rw [List.foldl_append, foldl_of_flattens hs, foldl_of_flattensAll hss, List.foldl_cons]

end

theorem foldl_of_functions {fs : List FunctionDef} {cs : List Command} (h : FunctionDef.FlattensAll fs cs)
    (b : Builder) : cs.foldl push b = { b with functions := fs.reverse ++ b.functions } := by
  induction h generalizing b with
  | nil => rfl
  | cons f hbody _ ih =>
    rw [List.foldl_append, List.cons_append, foldl_block rfl (fun _ => rfl) rfl (foldl_of_flattensAll hbody), ih]
    simp [closeWith, complete]

end Program.Builder

/-! ### Programs -/

namespace Program

/-- **Rebuilding.**  Whatever list a program is written as, the same program is built from it. -/
theorem ofCommands_of_flattens {p : Program} {cs : List Command} (h : p.Flattens cs) : ofCommands cs = p := by
  obtain ⟨ds, es, rfl, hfunctions, hbody⟩ := h
  rw [ofCommands, List.foldl_append, Builder.foldl_of_functions hfunctions, Builder.foldl_of_flattensAll hbody,
    Builder.empty, Builder.foldl_addStmt_nil, Builder.closeAll_nil]
  simp

theorem ofCommands_flat (p : Program) : ofCommands p.flat = p := ofCommands_of_flattens p.flattens_flat

/-- **Rebuilding inverts flattening.**  Of every program there are lists of commands in which each opener is followed
by its body and its closer, the functions first and in order; and from each of them that program is built, whether
empty alternatives have marks in it or not. -/
theorem rebuilds (p : Program) : (p.Flattens p.flat ∧ ofCommands p.flat = p) ∧
    ∀ cs, p.Flattens cs → ofCommands cs = p :=
  ⟨⟨p.flattens_flat, p.ofCommands_flat⟩, fun _ h => ofCommands_of_flattens h⟩

end Program

end RunningLights
