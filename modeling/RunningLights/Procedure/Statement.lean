import RunningLights.Procedure.Command
import RunningLights.Procedure.Phrase

/-!
# Statements

`Command.ofStatement` reads one simple statement.  A declaration gives one command for every name it declares; a
statement of no known form gives none.
-/

namespace RunningLights

open Procedure Text

/-! ### Parameters -/

/-- The parts between all separators. -/
def Procedure.splitAll (separator : Char) : List Char → List (List Char)
  | [] => [[]]
  | c :: cs =>
    if c == separator then [] :: splitAll separator cs
    else match splitAll separator cs with
      | [] => [[c]]
      | part :: parts => (c :: part) :: parts

/-- A reversed text without the empty bracket pairs it starts with. -/
def Procedure.dropBracketPairs : List Char → List Char
  | ']' :: '[' :: cs => dropBracketPairs cs
  | cs => cs

/-- The name that a parameter declares: the last word, before brackets and a default. -/
def Procedure.paramName? (param : List Char) : Option String :=
  let declared := (dropBracketPairs (trim (param.takeWhile (· != '='))).reverse).dropWhile isBlank
  let name := (declared.takeWhile Token.isNameChar).reverse
  if declared.reverse = "void".toList || name.isEmpty then none else some (String.ofList name)

/-- The names of a parameter list. -/
def Procedure.paramNames (params : List Char) : List String :=
  (splitAll ',' params).filterMap paramName?

/-! ### Declarations -/

/-- The inside of a text in braces. -/
def Procedure.braced? (cs : List Char) : Option (List Char) :=
  match cs with
  | '\x7b' :: rest => if rest.getLast? = some '\x7d' then some rest.dropLast else none
  | _ => none

/-- The operands between commas that are not blank. -/
def Procedure.operandList (cs : List Char) : List Operand :=
  ((splitTop ',' cs).filter fun part => !(trim part).isEmpty).map Operand.ofChars

/-- A row of values, with or without braces around it. -/
def Procedure.initializerRow (item : List Char) : List Operand :=
  operandList ((braced? (trim item)).getD (trim item))

/-- The value behind the equals sign of a declaration. -/
def Initializer.ofChars (cs : List Char) : Initializer :=
  match braced? (trim cs) with
  | some inner =>
    let items := (splitTop ',' inner).filter fun item => !(trim item).isEmpty
    if items.any fun item => (trimLeft item).head? == some '\x7b' then .rows (items.map initializerRow)
    else .rows [items.map Operand.ofChars]
  | _ => .scalar (Operand.ofChars cs)

/-- The kind of a type. -/
def VarKind.ofType (type : String) : VarKind :=
  if type == "bool" then .boolean
  else if type == "float" || type == "double" then .real
  else .integer

/-- The commands of a declaration; a declarator of no known form declares nothing. -/
def Procedure.declarationCommands (d : Declaration) : List Command :=
  (splitTop ',' d.declarators).filterMap fun part =>
    (declarator? (trim part)).map fun found => .act (.declare {
      name := String.ofList found.name
      kind := .ofType d.type
      isConst := d.modifiers.contains "const" || d.modifiers.contains "constexpr"
      sizes := found.sizes.map Operand.ofChars
      initializer := match found.value with
        | some value => .ofChars value
        | none => .none })

/-! ### Assignments and calls -/

/-- The operator of an assignment sign. -/
def AssignOp.ofSign : Option Char → AssignOp
  | some '+' => .add
  | some '-' => .sub
  | some '*' => .mul
  | some '/' => .div
  | some '%' => .rem
  | _ => .set

/-- The command of an assignment. -/
def Procedure.assignmentCommand (a : Assignment) : Command :=
  .act (.assign (String.ofList a.target) (a.indices.map Operand.ofChars) (.ofSign a.operator)
    (some (Operand.ofChars a.value)))

/-- The command of a call.  A qualified name is called only if it is a library function. -/
def Procedure.callCommands (name : String) (args : List (List Char)) : List Command :=
  let operands := args.map Operand.ofChars
  match name, operands with
  | "set", [channel, state] => [.act (.set channel state)]
  | "sleep", _ => [.act (.sleep operands.head?)]
  | "delay", _ => [.act (.sleep operands.head?)]
  | "off", [] => [.act .allOff]
  | "allOff", [] => [.act .allOff]
  | "on", [] => [.act .allOn]
  | "allOn", [] => [.act .allOn]
  | _, _ =>
    match Builtin.ofName? name with
    | some b => [.act (.callBuiltin b operands)]
    | none => if name.toList.contains ':' then [] else [.act (.callUser name operands)]

/-! ### Statements -/

/-- The value of a return statement, if the text is one. -/
def Procedure.return? (cs : List Char) : Option (Option Operand) :=
  match after? "return" cs with
  | none => none
  | some [] => some none
  | some (c :: rest) => if isBlank c || c == '(' then some (some (Operand.ofChars (c :: rest))) else none

/-- The assignment that a text is, unless it goes on with a second equals sign. -/
def Procedure.properAssignment? (cs : List Char) : Option Assignment :=
  (assignment? cs).bind fun a => if (trim a.value).head? == some '=' then none else some a

/-- The commands of one statement, without blanks around it. -/
def Command.ofStatement (cs : List Char) : List Command :=
  match return? cs with
  | some value => [.ret value]
  | none =>
    match declaration? cs with
    | some d => declarationCommands d
    | none =>
      match counting? cs with
      | some (name, up) =>
        [.act (.assign (String.ofList name) [] (if up then .increment else .decrement) none)]
      | none =>
        match properAssignment? cs with
        | some a => [assignmentCommand a]
        | none =>
          match splitCall? cs with
          | some (name, args) => callCommands (String.ofList name) (splitTop ',' args)
          | none => []

/-! ### Headers of counted loops -/

/-- The header of a counted loop: three parts about one variable, which moves toward its bound. -/
def LoopHeader.ofChars? (cs : List Char) : Option LoopHeader :=
  match splitTop ';' cs with
  | [init, test, step] => do
    let (var, start) ← loopInit? (trim init)
    let test ← loopTest? (trim test)
    if test.name ≠ var then none
    let step ← loopStep? var (trim step)
    if step.up ≠ test.below then none
    return {
      var := String.ofList var
      start := Operand.ofChars start
      bound := Operand.ofChars test.bound
      inclusive := test.inclusive
      step := match step.amount with
        | some amount => Operand.ofChars amount
        | none => Operand.ofWord 1
      direction := if step.up then .forward else .reverse }
  | _ => none

end RunningLights
