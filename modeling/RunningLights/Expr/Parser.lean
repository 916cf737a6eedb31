import RunningLights.Expr.Basic
import RunningLights.Expr.Token

/-!
# Parsing expressions

The grammar, from the loosest operators to the tightest:

    or      := and ( or-sign and )*
    and     := eq ( and-sign eq )*
    eq      := cmp ( ("==" | "!=") cmp )*
    cmp     := sum ( ("<" | ">" | "<=" | ">=") sum )*
    sum     := product ( ("+" | "-") product )*
    product := unary ( ("*" | "/" | "%") unary )*
    unary   := ("!" | "-" | "+") unary | postfix
    postfix := primary ( "[" or "]" )*
    primary := number | "true" | "false" | name | name "(" arguments ")" | "(" or ")"

Operators of one level associate to the left.  Nesting is limited: a parser works with a number of levels it may
still open, its `room`.  A group, a sign and every operator of a chain open one level each, and a chain gives its
levels back at its end.  A policy restricts the names, and can forbid calls and indexing.
-/

namespace RunningLights

/-- What an expression may contain. -/
structure ParsePolicy where
  /-- The names it may mention; any name if absent. -/
  names : Option (List String)
  calls : Bool
  indexing : Bool
  deriving Inhabited

namespace ParsePolicy

/-- Everything is allowed. -/
def permissive : ParsePolicy := ⟨none, true, true⟩

/-- Operators over the given names and nothing else. -/
def restricted (names : List String) : ParsePolicy := ⟨some names, false, false⟩

/-- The name may be mentioned. -/
def admits (p : ParsePolicy) (name : String) : Bool :=
  match p.names with
  | none => true
  | some names => names.contains name

end ParsePolicy

/-- The operator of a token on a level of the grammar; level 0 is the loosest. -/
def BinaryOp.ofToken? : Nat → Token → Option BinaryOp
  | 0, .orOr => some .or
  | 1, .andAnd => some .and
  | 2, .eqEq => some .eq
  | 2, .notEq => some .ne
  | 3, .lt => some .lt
  | 3, .gt => some .gt
  | 3, .le => some .le
  | 3, .ge => some .ge
  | 4, .plus => some .add
  | 4, .minus => some .sub
  | 5, .star => some .mul
  | 5, .slash => some .div
  | 5, .percent => some .rem
  | _, _ => none

namespace Expr

/-- A parser takes the levels it may still open and the tokens, and returns a tree and the tokens behind it. -/
abbrev Parser := Nat → List Token → Except ParseError (Expr × List Token)

/-- The deepest nesting that is accepted. -/
def maxDepth : Nat := 64

/-- The tokens behind the one that is expected. -/
def expectToken (isExpected : Token → Bool) : List Token → Except ParseError (List Token)
  | [] => .error .unexpectedEnd
  | t :: ts => if isExpected t then .ok ts else .error (.unexpectedToken t)

/-- The operators of a level that follow `lhs`, each with its right operand and one level of its own. -/
def chain (level : Nat) (operand : Parser) : (room : Nat) → Expr → List Token →
    Except ParseError (Expr × List Token)
  | _, lhs, [] => .ok (lhs, [])
  | room, lhs, t :: ts =>
    match BinaryOp.ofToken? level t with
    | none => .ok (lhs, t :: ts)
    | some op =>
      match room with
      | 0 => .error .tooDeep
      | room + 1 => do
        let (rhs, rest) ← operand room ts
        chain level operand room (.binary op lhs rhs) rest

/-- A level of operators over the next tighter one. -/
def level (l : Nat) (operand : Parser) : Parser := fun room ts => do
  let (lhs, rest) ← operand room ts
  chain l operand room lhs rest

/-- All levels of operators, over signed operands. -/
def operators (signed : Parser) : Parser :=
  level 0 (level 1 (level 2 (level 3 (level 4 (level 5 signed)))))

/-- A whole expression, which opens a level. -/
def grouped (signed : Parser) : Parser
  | 0, _ => .error .tooDeep
  | room + 1, ts => operators signed room ts

/-- Expressions separated by commas up to a closing parenthesis; there is one at least. -/
def argumentList (item : List Token → Except ParseError (Expr × List Token)) : (fuel : Nat) → List Token →
    Except ParseError (List Expr × List Token)
  | 0, _ => .error .unexpectedEnd
  | fuel + 1, ts => do
    let (e, rest) ← item ts
    match rest with
    | .comma :: rest => do
      let (es, rest) ← argumentList item fuel rest
      return (e :: es, rest)
    | rest => do
      let rest ← expectToken (· matches .rparen) rest
      return ([e], rest)

/-- The arguments of a call, behind its opening parenthesis. -/
def callArguments (item : List Token → Except ParseError (Expr × List Token)) (ts : List Token) :
    Except ParseError (List Expr × List Token) :=
  match ts with
  | .rparen :: rest => .ok ([], rest)
  | ts => argumentList item ts.length ts

/-- Expressions in brackets, as many as follow each other. -/
def brackets (item : List Token → Except ParseError (Expr × List Token)) : (fuel : Nat) → List Token →
    Except ParseError (List Expr × List Token)
  | fuel + 1, .lbracket :: ts => do
    let (e, rest) ← item ts
    let rest ← expectToken (· matches .rbracket) rest
    let (es, rest) ← brackets item fuel rest
    return (e :: es, rest)
  | _, ts => .ok ([], ts)

/-- A literal, a name, a call or a parenthesised expression. -/
def primary (p : ParsePolicy) (item : List Token → Except ParseError (Expr × List Token)) :
    List Token → Except ParseError (Expr × List Token)
  | [] => .error .unexpectedEnd
  | .number v :: ts => .ok (.literal v, ts)
  | .true :: ts => .ok (.literal (.bool true), ts)
  | .false :: ts => .ok (.literal (.bool false), ts)
  | .lparen :: ts => do
    let (e, rest) ← item ts
    let rest ← expectToken (· matches .rparen) rest
    return (e, rest)
  | .ident name :: .lparen :: ts =>
    if p.calls then do
      let (args, rest) ← callArguments item ts
      return (.call name args, rest)
    else .error .callsForbidden
  | .ident name :: ts =>
    if p.admits name then .ok (.ident name, ts) else .error (.forbiddenIdentifier name)
  | t :: _ => .error (.unexpectedToken t)

/-- A primary and its indices, which only a bare name can have. -/
def postfixed (p : ParsePolicy) (item : List Token → Except ParseError (Expr × List Token)) (ts : List Token) :
    Except ParseError (Expr × List Token) := do
  let (e, rest) ← primary p item ts
  match rest with
  | .lbracket :: _ =>
    if p.indexing then
      match e with
      | .ident name => do
        let (indices, rest) ← brackets item rest.length rest
        return (.index name indices, rest)
      | _ => .error .notIndexable
    else .error .indexingForbidden
  | rest => .ok (e, rest)

/-- The tree of a sign before an operand, and the tokens behind it; the plus sign leaves no node. -/
def sign? : List Token → Option ((Expr → Expr) × List Token)
  | .bang :: ts => some (.unary .not, ts)
  | .minus :: ts => some (.unary .neg, ts)
  | .plus :: ts => some (id, ts)
  | _ => none

/-- An operand with its signs, each of which opens a level.  The `fuel` is above every `room` it is given. -/
def signed (p : ParsePolicy) : (fuel : Nat) → Parser
  | 0, _, _ => .error .tooDeep
  | fuel + 1, room, ts =>
    match sign? ts with
    | none => postfixed p (grouped (signed p fuel) room) ts
    | some (node, rest) =>
      match room with
      | 0 => .error .tooDeep
      | room + 1 => do
        let (e, rest) ← signed p fuel room rest
        return (node e, rest)

/-- The tree of a whole list of tokens. -/
def ofTokens (p : ParsePolicy) (ts : List Token) : Except ParseError Expr := do
  let (e, rest) ← grouped (signed p maxDepth) maxDepth ts
  match rest with
  | [] => return e
  | t :: _ => .error (.unexpectedToken t)

/-- The tree of a text under a policy. -/
def parse (p : ParsePolicy) (text : String) : Except ParseError Expr := do
  ofTokens p (← Token.scan text)

end Expr

end RunningLights
