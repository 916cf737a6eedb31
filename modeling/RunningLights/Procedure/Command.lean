import RunningLights.Expr.Eval
import RunningLights.Expr.Parser
import RunningLights.Procedure.Library

/-!
# Commands

A program is first read as a flat list of commands, in which every block has an opener and a closer.
-/

namespace RunningLights

/-- An expression inside a command: its text, and its tree if the text is one.  What is no expression is kept, so
that it fails when it is evaluated and not before. -/
structure Operand where
  text : String
  tree : Option Expr
  deriving Inhabited

namespace Operand

/-- The operand written by a text; blanks around it do not belong to it. -/
def ofChars (cs : List Char) : Operand :=
  let text := String.ofList (Text.trim cs)
  ⟨text, (Expr.parse .permissive text).toOption⟩

def ofText (text : String) : Operand := ofChars text.toList

/-- The operand of a number. -/
def ofWord (n : Int64) : Operand := ⟨toString n.toInt, some (.literal (.int n))⟩

/-- The name, if the operand is one. -/
def ident? (o : Operand) : Option String := o.tree.bind Expr.ident?

end Operand

/-- Which way a counted loop goes. -/
inductive Direction where
  | forward
  | reverse
  deriving Repr, DecidableEq, Inhabited

/-- The header of a counted loop. -/
structure LoopHeader where
  var : String
  start : Operand
  bound : Operand
  /-- The loop visits the bound itself. -/
  inclusive : Bool
  step : Operand
  direction : Direction
  deriving Inhabited

/-- What a variable holds. -/
inductive VarKind where
  | integer
  | boolean
  | real
  deriving Repr, DecidableEq, Inhabited

/-- The first value of a variable. -/
inductive Initializer where
  | none
  | scalar (value : Operand)
  /-- Values in braces; a flat list is one row. -/
  | rows (rows : List (List Operand))
  deriving Inhabited

/-- A declaration of a variable or an array. -/
structure VarDecl where
  name : String
  kind : VarKind
  isConst : Bool
  /-- The sizes of an array, none for a scalar.  An empty text is a size left open. -/
  sizes : List Operand
  initializer : Initializer
  deriving Inhabited

/-- The declaration is of an array. -/
def VarDecl.isArray (d : VarDecl) : Bool := !d.sizes.isEmpty

/-- How an assignment changes its target. -/
inductive AssignOp where
  | set
  | add
  | sub
  | mul
  | div
  | rem
  | increment
  | decrement
  deriving Repr, DecidableEq, Inhabited

/-- The commands that open or close no block. -/
inductive Action where
  | set (channel state : Operand)
  /-- Without a delay it holds for the base delay. -/
  | sleep (delay : Option Operand)
  | allOn
  | allOff
  | declare (decl : VarDecl)
  | assign (target : String) (indices : List Operand) (op : AssignOp) (value : Option Operand)
  | callBuiltin (builtin : Builtin) (args : List Operand)
  | callUser (name : String) (args : List Operand)
  deriving Inhabited

/-- A command of a flat program. -/
inductive Command where
  | act (a : Action)
  | ret (value : Option Operand)
  | loopStart (header : LoopHeader)
  | loopEnd
  | ifStart (condition : Operand)
  | elseMark
  | ifEnd
  | doStart
  /-- Without a condition the body runs once. -/
  | doEnd (condition : Option Operand)
  | lambdaStart (name capture : String) (params : List String)
  | functionStart (name : String) (params : List String)
  | functionEnd
  deriving Inhabited

end RunningLights
