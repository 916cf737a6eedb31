import RunningLights.Procedure.Comments
import RunningLights.Procedure.Statement

/-!
# Reading programs

`Command.ofSource` reads a program text as a flat list of commands.  The reader walks over the text once and keeps a
stack of the blocks that are open; a block without braces ends with the first statement in it.  Text that it does
not understand is skipped, and a block head that it does not understand leaves its body in place.
-/

namespace RunningLights.Procedure

open Text

/-- What an open block is. -/
inductive BlockKind where
  | loop
  /-- A condition, with the number of conditions that its chain of alternatives has opened. -/
  | branch (depth : Nat)
  | doLoop
  | function
  /-- Braces that only group statements. -/
  | group
  deriving Repr, DecidableEq, Inhabited

/-- An open block. -/
structure Block where
  kind : BlockKind
  braced : Bool
  deriving Repr, DecidableEq, Inhabited

/-- A program that has been read up to `rest`. -/
structure Reader where
  rest : List Char
  /-- The open blocks, the innermost first. -/
  blocks : List Block
  commands : Array Command
  deriving Inhabited

/-! ### Pieces of text -/

/-- The word at the start of the text, qualified names included. -/
def word (cs : List Char) : List Char := cs.takeWhile isCalleeChar

/-- The keyword comes next, behind blanks. -/
def comesNext (keyword : String) (cs : List Char) : Bool :=
  match after? keyword (trimLeft cs) with
  | some rest => !Token.startsWith Token.isNameChar rest
  | none => false

/-- The text behind a keyword that comes next. -/
def dropKeyword (keyword : String) (cs : List Char) : List Char := (trimLeft cs).drop keyword.length

/-- The text in parentheses that comes next, and the text behind them.  Parentheses that are not closed take all of
the text. -/
def group (cs : List Char) : Option (List Char) × List Char :=
  match trimLeft cs with
  | '(' :: behind =>
    match splitGroup 0 behind with
    | some (inner, rest) => (some inner, rest)
    | none => (none, [])
  | cs => (none, cs)

/-- The condition in parentheses that comes next, and the text behind it. -/
def condition (cs : List Char) : Operand × List Char :=
  let (inner, rest) := group cs
  (Operand.ofChars (inner.getD []), rest)

/-- The text behind a semicolon, if one comes next. -/
def dropSemicolon (cs : List Char) : List Char :=
  match trimLeft cs with
  | ';' :: rest => rest
  | cs => cs

/-- How a character changes the depth of parentheses and brackets. -/
def nestStep (c : Char) : Int :=
  if c == '(' || c == '[' then 1 else if c == ')' || c == ']' then -1 else 0

/-- The character ends a head. -/
def endsHead (c : Char) : Bool := c == '\x7b' || c == ';' || c == '\x7d'

/-- The text before the first brace or semicolon outside of parentheses, and the text from there on. -/
def splitHead (depth : Int) : List Char → List Char × List Char
  | [] => ([], [])
  | c :: cs =>
    if endsHead c && depth ≤ 0 then ([], c :: cs)
    else
      let (head, rest) := splitHead (depth + nestStep c) cs
      (c :: head, rest)

/-- The characters behind which a statement goes on. -/
def continuationChars : List Char :=
  ['=', ',', '(', '[', '+', '-', '*', '/', '%', '&', '|', '<', '>', '!', '?', ':']

/-- A reversed text is a statement whose line may end here. -/
def isComplete (reversed : List Char) : Bool :=
  match reversed.dropWhile isBlank with
  | [] => false
  | '+' :: '+' :: _ => true
  | '-' :: '-' :: _ => true
  | c :: _ => !continuationChars.contains c

/-- The rest of a statement, of which the reversed text `before` has been read, and the text behind it.  It ends at
a semicolon, before a closing brace, or with a line that is complete. -/
def splitStatement (depth : Int) (before : List Char) : List Char → List Char × List Char
  | [] => ([], [])
  | c :: cs =>
    if c == '\x7d' && depth ≤ 0 then ([], c :: cs)
    else if c == ';' && depth ≤ 0 then ([], cs)
    else if c == '\n' && depth ≤ 0 && isComplete before then ([], cs)
    else
      let (text, rest) := splitStatement (depth + bracketStep c) (c :: before) cs
      (c :: text, rest)

/-! ### Block structure -/

/-- The block is a condition with an alternative coming next, which keeps it open. -/
def Block.goesOn (b : Block) (rest : List Char) : Bool :=
  match b.kind with
  | .branch _ => comesNext "else" rest
  | _ => false

/-- The commands that close a block, and the text behind what belongs to its end. -/
def Block.close (b : Block) (rest : List Char) : List Command × List Char :=
  match b.kind with
  | .loop => ([.loopEnd], rest)
  | .branch depth => (List.replicate depth .ifEnd, rest)
  | .function => ([.functionEnd], rest)
  | .group => ([], rest)
  | .doLoop =>
    if comesNext "while" rest then
      let (inner, rest) := group (dropKeyword "while" rest)
      ([.doEnd (inner.map Operand.ofChars)], dropSemicolon rest)
    else ([.doEnd none], rest)

/-- Closes the innermost blocks that have no braces, up to one that has an alternative coming next. -/
def closeBare (rest : List Char) (commands : Array Command) : List Block → Reader
  | [] => ⟨rest, [], commands⟩
  | b :: bs =>
    if b.braced || b.goesOn rest then ⟨rest, b :: bs, commands⟩
    else
      let (closers, rest) := b.close rest
      closeBare rest (commands ++ closers) bs

/-- Closes every block. -/
def closeAll (rest : List Char) (commands : Array Command) : List Block → Array Command
  | [] => commands
  | b :: bs =>
    let (closers, rest) := b.close rest
    closeAll rest (commands ++ closers) bs

namespace Reader

/-- Ends the blocks whose only statement has just been read. -/
def afterStatement (r : Reader) : Reader := closeBare r.rest r.commands r.blocks

/-- Reads a closing brace. -/
def closeBrace (r : Reader) : Reader :=
  let r := r.afterStatement
  match r.blocks with
  | [] => r
  | b :: bs =>
    if !b.braced || b.goesOn r.rest then r
    else
      let (closers, rest) := b.close r.rest
      closeBare (dropSemicolon rest) (r.commands ++ closers) bs

/-- Decides whether the body of the innermost block has braces.  A semicolon is an empty body. -/
def beginBody (kind : BlockKind) (rest : List Char) (blocks : List Block) (commands : Array Command) : Reader :=
  match trimLeft rest with
  | '\x7b' :: rest => ⟨rest, ⟨kind, true⟩ :: blocks, commands⟩
  | ';' :: rest => closeBare rest commands (⟨kind, false⟩ :: blocks)
  | rest => ⟨rest, ⟨kind, false⟩ :: blocks, commands⟩

/-- Opens a block behind its head. -/
def openBlock (r : Reader) (kind : BlockKind) (rest : List Char) (opener : List Command) : Reader :=
  beginBody kind rest r.blocks (r.commands ++ opener)

/-- Opens a block with braces, the first of which has been read. -/
def openBraced (r : Reader) (kind : BlockKind) (rest : List Char) (opener : List Command) : Reader :=
  ⟨rest, ⟨kind, true⟩ :: r.blocks, r.commands ++ opener⟩

/-- Reads an alternative behind its keyword. -/
def readElse (r : Reader) (rest : List Char) : Reader :=
  match r.blocks with
  | ⟨.branch depth, _⟩ :: bs =>
    if comesNext "if" rest then
      let (c, rest) := condition (dropKeyword "if" rest)
      beginBody (.branch (depth + 1)) rest bs ((r.commands.push .elseMark).push (.ifStart c))
    else beginBody (.branch depth) rest bs (r.commands.push .elseMark)
  | _ => r.openBlock .group rest []

/-- Reads the header of a counted loop behind its keyword.  With a header of another form the body is read once. -/
def readFor (r : Reader) (rest : List Char) : Reader :=
  let (inner, rest) := group rest
  match LoopHeader.ofChars? (inner.getD []) with
  | some header => r.openBlock .loop rest [.loopStart header]
  | none => r.openBlock .group rest []

/-- Reads a statement that is no block. -/
def readStatement (r : Reader) : Reader :=
  let (text, rest) := splitStatement 0 [] r.rest
  closeBare rest (r.commands ++ Command.ofStatement (trim text)) r.blocks

/-- A head before a brace is a value that goes on with it. -/
def isOpenValue (head : List Char) : Bool :=
  match head.getLast? with
  | none => true
  | some c => ['=', ',', '(', '['].contains c

/-- Reads what starts with no keyword. -/
def readPlain (r : Reader) : Reader :=
  match splitHead 0 r.rest with
  | (head, '\x7b' :: rest) =>
    let head := trim head
    match lambdaHead? head with
    | some l => r.openBraced .function rest
        [.lambdaStart (String.ofList l.name) (String.ofList (trim l.capture)) (paramNames l.params)]
    | none =>
      match functionHead? head with
      | some f => r.openBraced .function rest [.functionStart (String.ofList f.name) (paramNames f.params)]
      | none => if isOpenValue head then r.readStatement else r.openBraced .group rest []
  | _ => r.readStatement

/-- Reads a block head or a statement. -/
def readItem (r : Reader) : Reader :=
  match String.ofList (word r.rest) with
  | "for" => r.readFor (dropKeyword "for" r.rest)
  | "if" =>
    let (c, rest) := condition (dropKeyword "if" r.rest)
    r.openBlock (.branch 1) rest [.ifStart c]
  | "else" => r.readElse (dropKeyword "else" r.rest)
  | "do" => r.openBlock .doLoop (dropKeyword "do" r.rest) [.doStart]
  | "while" => r.openBlock .group (group (dropKeyword "while" r.rest)).2 []
  | "switch" => r.openBlock .group (group (dropKeyword "switch" r.rest)).2 []
  | _ => r.readPlain

/-- Reads the next piece of a text that does not start with a blank. -/
def step (r : Reader) : Reader :=
  match r.rest with
  | [] => r
  | '\x7d' :: rest => closeBrace { r with rest }
  | '\x7b' :: rest => r.openBraced .group rest []
  | ';' :: rest => { r with rest }
  | _ => r.readItem

/-- The commands of a text that has been read so far, with at most `fuel` pieces to come. -/
def run : (fuel : Nat) → Reader → Array Command
  | 0, r => closeAll r.rest r.commands r.blocks
  | fuel + 1, r =>
    match trimLeft r.rest with
    | [] => closeAll [] r.commands r.blocks
    | rest => run fuel (step { r with rest })

end Reader

end RunningLights.Procedure

namespace RunningLights

/-- The commands of a program text.  Every piece has a character at least, so the length of the text bounds their
number. -/
def Command.ofSource (source : String) : List Command :=
  let cs := Procedure.blankComments source.toList
  (Procedure.Reader.run cs.length ⟨cs, [], #[]⟩).toList

end RunningLights
