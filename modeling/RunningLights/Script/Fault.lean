import RunningLights.Script.Violation

/-!
# Syntax errors

Why a text is no script.  A script that is refused for its syntax shows the first error that is met from the left.
-/

namespace RunningLights.Script

/-- Why a text is no script. -/
inductive SyntaxFault where
  /-- Something that cannot stand here. -/
  | unexpected (what : String)
  | incomplete
  | openString
  | badEscape (text : String)
  | badNumber (text : String)
  | badChar (text : String)
  | badName (text : String)
  | disabled (word : String)
  | reservedWord (word : String)
  | reservedMark (mark : String)
  | missing (mark : String) (purpose : String)
  | mismatched (wanted found : String)
  | exprExpected (kind : String)
  | typo
  | variableExpected
  | propertyExpected
  | duplicateVariable (name : String)
  | constant (name : String)
  | notAssignable
  | badIndex (reason : String)
  | tooDeep
  | outsideLoop
  | nestedFunction
  | nestedExport
  | functionName
  | functionParams (name : String)
  | functionBody (name : String)
  | duplicateParam (name param : String)
  | duplicateFunction (name : String) (params : Nat)
  deriving Repr, DecidableEq

/-- The wording of a syntax error. -/
def SyntaxFault.message : SyntaxFault → String
  | unexpected what => s!"Unexpected '{what}'"
  | incomplete => "Script is incomplete"
  | openString => "Open string is not terminated"
  | badEscape text => s!"Invalid escape sequence: '{text}'"
  | badNumber text => s!"Invalid number: '{text}'"
  | badChar text => s!"Invalid character: '{text}'"
  | badName text => s!"Variable name is not proper: '{text}'"
  | disabled word => s!"reserved keyword '{word}' is disabled"
  | reservedWord word => s!"'{word}' is a reserved keyword"
  | reservedMark mark => s!"'{mark}' is a reserved symbol"
  | missing mark purpose => "Expecting '" ++ mark ++ "' " ++ purpose
  | mismatched wanted found => s!"Expecting {wanted}, not {found}"
  | exprExpected kind => s!"Expecting {kind} expression"
  | typo => "Possibly a typo of '=='?"
  | variableExpected => "Expecting name of a variable"
  | propertyExpected => "Expecting name of a property"
  | duplicateVariable name => s!"Duplicated variable name: {name}"
  | constant "" => "Cannot assign to a constant value"
  | constant name => s!"Cannot assign to constant '{name}'"
  | notAssignable => "Expression cannot be assigned to"
  | badIndex reason => reason
  | tooDeep => "Expression exceeds maximum complexity"
  | outsideLoop => "Break statement should only be used inside a loop"
  | nestedFunction =>
    "Function definitions must be at global level and cannot be inside a block or another function"
  | nestedExport => "Export statement can only appear at global level"
  | functionName => "Expecting function name in function declaration"
  | functionParams name => s!"Expecting parameters for function '{name}'"
  | functionBody name => s!"Expecting body statement block for function '{name}'"
  | duplicateParam name param => s!"Duplicated parameter {param} for function '{name}'"
  | duplicateFunction name 0 => s!"Function {name} with no parameters already exists"
  | duplicateFunction name 1 => s!"Function {name} with 1 parameter already exists"
  | duplicateFunction name params => s!"Function {name} with {params} parameters already exists"

/-- A syntax error and its place. -/
structure SyntaxError where
  fault : SyntaxFault
  place : Position
  deriving Repr, DecidableEq

/-- The syntax error as a violation. -/
def SyntaxError.violation (e : SyntaxError) : Violation :=
  .atPlace ("Syntax error: " ++ e.fault.message) e.place

end RunningLights.Script
