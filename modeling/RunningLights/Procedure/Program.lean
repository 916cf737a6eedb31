import RunningLights.Procedure.Command

/-!
# Programs

A program is a tree of statements and a list of functions.  `Program.ofCommands` builds it from a flat list, one
command at a time, over a stack of the blocks that are open.  A closer ends the innermost blocks up to the one that
it belongs to, or is dropped if there is none; the end of the list ends all blocks.
-/

namespace RunningLights

/-- A statement with the blocks in it. -/
inductive Stmt where
  | act (a : Action)
  | ret (value : Option Operand)
  | loop (header : LoopHeader) (body : List Stmt)
  | branch (condition : Operand) (yes no : List Stmt)
  /-- A loop that is tested at its end; without a condition it ends there. -/
  | doLoop (body : List Stmt) (condition : Option Operand)
  /-- A lambda, which is known from here on. -/
  | lambda (name capture : String) (params : List String) (body : List Stmt)
  deriving Inhabited

/-- A function of a program. -/
structure FunctionDef where
  name : String
  params : List String
  body : List Stmt
  deriving Inhabited

/-- A program: the statements outside of functions, and the functions wherever they are defined. -/
structure Program where
  body : List Stmt
  functions : List FunctionDef
  deriving Inhabited

namespace Program

/-- The opener of a block that is being built. -/
inductive Opener where
  | loop (header : LoopHeader)
  | yes (condition : Operand)
  /-- The alternative of a condition whose first branch is complete. -/
  | no (condition : Operand) (yes : List Stmt)
  | doLoop
  | lambda (name capture : String) (params : List String)
  | function (name : String) (params : List String)
  deriving Inhabited

/-- A block that is being built: its opener and its statements, the latest first. -/
structure Pending where
  opener : Opener
  latest : List Stmt
  deriving Inhabited

/-- A program that is being built. -/
structure Builder where
  /-- The open blocks, the innermost first. -/
  pending : List Pending
  /-- The statements outside of all blocks, the latest first. -/
  latest : List Stmt
  /-- The functions, the latest first. -/
  functions : List FunctionDef
  deriving Inhabited

namespace Builder

def empty : Builder := ⟨[], [], []⟩

/-- Appends a statement to the innermost block. -/
def addStmt (b : Builder) (s : Stmt) : Builder :=
  match b.pending with
  | [] => { b with latest := s :: b.latest }
  | p :: ps => { b with pending := { p with latest := s :: p.latest } :: ps }

/-- Opens a block. -/
def openBlock (b : Builder) (o : Opener) : Builder := { b with pending := ⟨o, []⟩ :: b.pending }

/-- Takes a complete block, which is not in the list of open ones any more; `condition` is that of a loop tested at
its end. -/
def complete (b : Builder) (p : Pending) (condition : Option Operand) : Builder :=
  let body := p.latest.reverse
  match p.opener with
  | .loop header => b.addStmt (.loop header body)
  | .yes c => b.addStmt (.branch c body [])
  | .no c yes => b.addStmt (.branch c yes body)
  | .doLoop => b.addStmt (.doLoop body condition)
  | .lambda name capture params => b.addStmt (.lambda name capture params body)
  | .function name params => { b with functions := ⟨name, params, body⟩ :: b.functions }

/-- The commands that end a block. -/
inductive Closer where
  | loopEnd
  | elseMark
  | ifEnd
  | doEnd (condition : Option Operand)
  | functionEnd

/-- The closer belongs to a block with the opener. -/
def Closer.ends : Closer → Opener → Bool
  | .loopEnd, .loop _ => true
  | .elseMark, .yes _ => true
  | .ifEnd, .yes _ => true
  | .ifEnd, .no .. => true
  | .doEnd _, .doLoop => true
  | .functionEnd, .lambda .. => true
  | .functionEnd, .function .. => true
  | _, _ => false

/-- The condition that a closer carries. -/
def Closer.condition : Closer → Option Operand
  | .doEnd c => c
  | _ => none

/-- Ends a block with the closer that belongs to it. -/
def closeWith (b : Builder) (p : Pending) (c : Closer) : Builder :=
  match c, p.opener with
  | .elseMark, .yes condition => b.openBlock (.no condition p.latest.reverse)
  | c, _ => b.complete p c.condition

theorem length_pending_addStmt (b : Builder) (s : Stmt) : (b.addStmt s).pending.length = b.pending.length := by
  unfold addStmt
  split <;> simp_all

theorem length_pending_complete (b : Builder) (p : Pending) (condition : Option Operand) :
    (b.complete p condition).pending.length = b.pending.length := by
  unfold complete
  cases p.opener <;> simp [length_pending_addStmt]

/-- Ends the innermost blocks up to the one that the closer belongs to.  If there is none, all blocks end. -/
def close (c : Closer) (b : Builder) : Builder :=
  match h : b.pending with
  | [] => b
  | p :: ps =>
    let outer : Builder := { b with pending := ps }
    if c.ends p.opener then outer.closeWith p c
    else
      have : (outer.complete p none).pending.length < b.pending.length := by
        rw [length_pending_complete, h]
        simp [outer]
      close c (outer.complete p none)
termination_by b.pending.length

theorem close_of_ends {c : Closer} {p : Pending} (h : c.ends p.opener = true) (ps : List Pending)
    (latest : List Stmt) (functions : List FunctionDef) :
    close c ⟨p :: ps, latest, functions⟩ = closeWith ⟨ps, latest, functions⟩ p c := by
  rw [close]
  exact if_pos h

/-- Ends all blocks. -/
def closeAll (b : Builder) : Builder :=
  match h : b.pending with
  | [] => b
  | p :: ps =>
    let outer : Builder := { b with pending := ps }
    have : (outer.complete p none).pending.length < b.pending.length := by
      rw [length_pending_complete, h]
      simp [outer]
    closeAll (outer.complete p none)
termination_by b.pending.length

@[simp] theorem closeAll_nil (latest : List Stmt) (functions : List FunctionDef) :
    closeAll ⟨[], latest, functions⟩ = ⟨[], latest, functions⟩ := by
  rw [closeAll]

/-- Takes one command. -/
def push (b : Builder) : Command → Builder
  | .act a => b.addStmt (.act a)
  | .ret value => b.addStmt (.ret value)
  | .loopStart header => b.openBlock (.loop header)
  | .ifStart c => b.openBlock (.yes c)
  | .doStart => b.openBlock .doLoop
  | .lambdaStart name capture params => b.openBlock (.lambda name capture params)
  | .functionStart name params => b.openBlock (.function name params)
  | .loopEnd => b.close .loopEnd
  | .elseMark => b.close .elseMark
  | .ifEnd => b.close .ifEnd
  | .doEnd c => b.close (.doEnd c)
  | .functionEnd => b.close .functionEnd

end Builder

/-- The program of a flat list of commands. -/
def ofCommands (cs : List Command) : Program :=
  let b := (cs.foldl Builder.push Builder.empty).closeAll
  ⟨b.latest.reverse, b.functions.reverse⟩

/-- The statement only declares something. -/
def isDeclaration : Stmt → Bool
  | .act (.declare _) => true
  | .lambda .. => true
  | _ => false

/-- The function that is run after the statements outside of functions, if those only declare: the first one
without parameters. -/
def entry? (p : Program) : Option FunctionDef :=
  if p.body.all isDeclaration then p.functions.find? fun f => f.params.isEmpty else none

end Program

end RunningLights
