import RunningLights.Script.Datum
import RunningLights.Script.Violation

/-!
# Script trees

A script is a list of statements and the functions that it defines.  Blocks, branches and loops are terms as well:
they have a value.

* `Statement.isIdle` — a statement that does nothing but have a value.
-/

namespace RunningLights.Script

inductive Sign where
  | neg
  | pos
  | not
  deriving Repr, DecidableEq

inductive Operator where
  | add
  | sub
  | mul
  | div
  | rem
  | lt
  | gt
  | le
  | ge
  | eq
  | ne
  /-- The integers up to the second. -/
  | upTo
  /-- The integers up to and including the second. -/
  | through
  deriving Repr, DecidableEq

/-- The mark of an operator. -/
def Operator.mark : Operator → String
  | add => "+"
  | sub => "-"
  | mul => "*"
  | div => "/"
  | rem => "%"
  | lt => "<"
  | gt => ">"
  | le => "<="
  | ge => ">="
  | eq => "=="
  | ne => "!="
  | upTo => ".."
  | through => "..="

mutual

/-- A term of a script, which has a value. -/
inductive Term where
  | literal (v : Datum)
  | var (name : String) (place : Position)
  | array (items : List Term)
  | unary (s : Sign) (t : Term) (place : Position)
  | binary (op : Operator) (l r : Term) (place : Position)
  | both (l r : Term)
  | either (l r : Term)
  | call (name : String) (args : List Term) (place : Position)
  | index (base key : Term) (place : Position)
  | property (base : Term) (name : String) (place : Position)
  | method (base : Term) (name : String) (args : List Term) (place : Position)
  | statement (s : Statement)

/-- A statement of a script. -/
inductive Statement where
  | term (t : Term)
  | define (name : String) (isConst : Bool) (value : Option Term)
  /-- Stores a value, or what an operator makes of the old value and this one. -/
  | store (op : Option Operator) (target value : Term) (place : Position)
  | block (body : List Statement)
  | branch (condition : Term) (yes no : List Statement)
  /-- Repeats a body while a condition holds, or for ever. -/
  | cycle (condition : Option Term) (body : List Statement)
  /-- Runs a body for every item, perhaps with its number. -/
  | each (name : String) (counter : Option String) (items : Term) (body : List Statement) (place : Position)
  | leave (value : Option Term)
  | again
  | ret (value : Option Term)
  | raise (value : Option Term)
  /-- Runs a body, and a handler if it fails, which may see the failure in a variable. -/
  | attempt (body : List Statement) (name : Option String) (handler : List Statement)
  | load (path : Term) (place : Position)
  | publish (name : String) (place : Position)

end

instance : Inhabited Term := ⟨.literal .unit⟩

instance : Inhabited Statement := ⟨.again⟩

/-- A function of a script. -/
structure ScriptFunction where
  name : String
  params : List String
  body : List Statement
  deriving Inhabited

/-- A script. -/
structure ScriptTree where
  body : List Statement
  functions : List ScriptFunction
  deriving Inhabited

/-! ### Statements without an effect -/

mutual

/-- The term does nothing but have a value, whatever else the script does. -/
def Term.isIdle : Term → Bool
  | .literal _ => true
  | .var .. => true
  | .array items => idleTerms items
  | .both l r => l.isIdle && r.isIdle
  | .either l r => l.isIdle && r.isIdle
  | .binary .upTo (.literal _) (.literal _) _ => true
  | .binary .through (.literal _) (.literal _) _ => true
  | .statement s => s.isIdle
  | _ => false

def idleTerms : List Term → Bool
  | [] => true
  | t :: ts => t.isIdle && idleTerms ts

/-- The statement does nothing but have a value. -/
def Statement.isIdle : Statement → Bool
  | .term t => t.isIdle
  | .block body => idleStatements body
  | .branch c yes no => c.isIdle && idleStatements yes && idleStatements no
  | .each _ _ items body _ => items.isIdle && idleStatements body
  | _ => false

def idleStatements : List Statement → Bool
  | [] => true
  | s :: ss => s.isIdle && idleStatements ss

end

end RunningLights.Script
