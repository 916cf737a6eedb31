import RunningLights.Proofs.Expr.Parsing

/-!
# Counting the levels that are open

A parser need not be told its room, if it counts the levels that are open.  A group, a sign and every operator of a
chain raise the counter; it is lowered behind a group and behind a signed operand, and set back at the end of a chain.

* `Expr.Counting` — parsers with a counter; `Expr.Counting.parse` — the parser of texts with one;
* `Expr.Counting.Follows` — a counting parser reads what another one reads, and leaves the counter as it was;
* `Expr.Counting.unary_tracks` — the counting parser follows that with the levels that are left for its room;
* `Expr.Counting.parse_eq` — and makes the same trees.
-/

namespace RunningLights.Expr

/-- A parser that counts takes the number of levels that are open and the tokens, and returns a result, the number of
levels that are open then, and the tokens behind it. -/
abbrev Counting (α : Type) := Nat → List Token → Except ParseError (α × Nat × List Token)

namespace Counting

variable {α : Type}

/-! ### The parser -/

/-- Opens a level, and closes one behind what is read. -/
def nested (x : Counting α) : Counting α := fun depth ts =>
  if depth < maxDepth then do
    let (a, depth, rest) ← x (depth + 1) ts
    return (a, depth - 1, rest)
  else .error .tooDeep

/-- The operators of a level that follow `lhs`.  Each opens a level, and the end of the chain goes back to the levels
that were open when it was entered.  The `fuel` is above the number of levels that may still be opened. -/
def chain (l : Nat) (operand : Counting Expr) (entered : Nat) : (fuel : Nat) → Expr → Counting Expr
  | 0, _, _, _ => .error .tooDeep
  | _ + 1, lhs, _, [] => .ok (lhs, entered, [])
  | fuel + 1, lhs, depth, t :: ts =>
    match BinaryOp.ofToken? l t with
    | none => .ok (lhs, entered, t :: ts)
    | some op =>
      if depth < maxDepth then do
        let (rhs, depth, rest) ← operand (depth + 1) ts
        chain l operand entered fuel (.binary op lhs rhs) depth rest
      else .error .tooDeep

/-- The operators of a level and of all tighter ones, over operands with signs. -/
def binary (unary : Counting Expr) (l : Nat) : Counting Expr :=
  if l < 6 then fun depth ts => do
    let (lhs, entered, rest) ← binary unary (l + 1) depth ts
    chain l (binary unary (l + 1)) entered (maxDepth + 1) lhs entered rest
  else unary
termination_by 6 - l

def expression (unary : Counting Expr) : Counting Expr := nested (binary unary 0)

/-- Expressions separated by commas up to a closing parenthesis; there is one at least. -/
def argumentList (item : Counting Expr) : (fuel : Nat) → Counting (List Expr)
  | 0, _, _ => .error .unexpectedEnd
  | fuel + 1, depth, ts => do
    let (e, depth, rest) ← item depth ts
    match rest with
    | .comma :: rest => do
      let (es, depth, rest) ← argumentList item fuel depth rest
      return (e :: es, depth, rest)
    | rest => do
      let rest ← expectToken (· matches .rparen) rest
      return ([e], depth, rest)

def arguments (item : Counting Expr) : Counting (List Expr) := fun depth ts =>
  match ts with
  | .rparen :: rest => .ok ([], depth, rest)
  | ts => argumentList item ts.length depth ts

def indices (item : Counting Expr) : (fuel : Nat) → Counting (List Expr)
  | fuel + 1, depth, .lbracket :: ts => do
    let (e, depth, rest) ← item depth ts
    let rest ← expectToken (· matches .rbracket) rest
    let (es, depth, rest) ← indices item fuel depth rest
    return (e :: es, depth, rest)
  | _, depth, ts => .ok ([], depth, ts)

def primary (p : ParsePolicy) (item : Counting Expr) : Counting Expr
  | _, [] => .error .unexpectedEnd
  | depth, .number v :: ts => .ok (.literal v, depth, ts)
  | depth, .true :: ts => .ok (.literal (.bool true), depth, ts)
  | depth, .false :: ts => .ok (.literal (.bool false), depth, ts)
  | depth, .lparen :: ts => do
    let (e, depth, rest) ← item depth ts
    let rest ← expectToken (· matches .rparen) rest
    return (e, depth, rest)
  | depth, .ident name :: .lparen :: ts =>
    if p.calls then do
      let (args, depth, rest) ← arguments item depth ts
      return (.call name args, depth, rest)
    else .error .callsForbidden
  | depth, .ident name :: ts =>
    if p.admits name then .ok (.ident name, depth, ts) else .error (.forbiddenIdentifier name)
  | _, t :: _ => .error (.unexpectedToken t)

/-- A primary and its indices, which only a bare name can have. -/
def postfixed (p : ParsePolicy) (item : Counting Expr) : Counting Expr := fun depth ts => do
  let (e, depth, rest) ← primary p item depth ts
  match rest with
  | .lbracket :: _ =>
    if p.indexing then
      match e with
      | .ident name => do
        let (es, depth, rest) ← indices item rest.length depth rest
        return (.index name es, depth, rest)
      | _ => .error .notIndexable
    else .error .indexingForbidden
  | rest => .ok (e, depth, rest)

/-- An operand with its signs.  The `fuel` is above the number of levels that may still be opened. -/
def unary (p : ParsePolicy) : (fuel : Nat) → Counting Expr
  | 0, _, _ => .error .tooDeep
  | fuel + 1, depth, ts =>
    match sign? ts with
    | none => postfixed p (expression (unary p fuel)) depth ts
    | some (node, rest) => do
      let (e, depth, rest) ← nested (unary p fuel) depth rest
      return (node e, depth, rest)

/-- The tree of a text under a policy; at its start no level is open. -/
def parse (p : ParsePolicy) (text : String) : Except ParseError Expr := do
  let ts ← Token.scan text
  let (e, _, rest) ← expression (unary p maxDepth) 0 ts
  match rest with
  | [] => return e
  | t :: _ => .error (.unexpectedToken t)

/-! ### Following a parser without a counter -/

/-- What a reader without a counter reads is read, and the counter is left as it was. -/
def Follows (x : List Token → Except ParseError (α × List Token)) (c : Counting α) (depth : Nat) : Prop :=
  ∀ ts, c depth ts = (x ts).map fun y => (y.1, depth, y.2)

/-- The parser is followed, in the room that the levels that are open leave. -/
def Tracks (x : Parser) (c : Counting Expr) : Prop :=
  ∀ ⦃depth room : Nat⦄, depth + room = maxDepth → Follows (x room) c depth

/-- A parser behind the opening of a level. -/
def opened (x : Parser) : Parser
  | 0, _ => .error .tooDeep
  | room + 1, ts => x room ts

theorem grouped_eq (s : Parser) : grouped s = opened (operatorsFrom s 0) := by
  funext room ts
  cases room with
  | zero => rfl
  | succ room => rw [operatorsFrom_zero]; rfl

theorem nested_tracks {x : Parser} {c : Counting Expr} (h : Tracks x c) : Tracks (opened x) (nested c) := by
  intro depth room hroom ts
  cases room with
  | zero =>
    rw [nested, if_neg (by omega)]
    rfl
  | succ room =>
    have hopen : depth + 1 + room = maxDepth := by omega
    rw [nested, if_pos (by omega), h hopen ts, opened]
    cases x room ts <;> rfl

theorem chain_follows {l : Nat} {operand : Parser} {c : Counting Expr} (h : Tracks operand c) (entered : Nat)
    {depth room fuel : Nat} (hroom : depth + room = maxDepth) (hfuel : room < fuel) (lhs : Expr) (ts : List Token) :
    chain l c entered fuel lhs depth ts =
      (Expr.chain l operand room lhs ts).map fun y => (y.1, entered, y.2) := by
  obtain ⟨fuel, rfl⟩ : ∃ n, fuel = n + 1 := ⟨fuel - 1, by omega⟩
  fun_induction Expr.chain l operand room lhs ts generalizing depth fuel with
  | case1 room lhs => rfl
  | case2 room lhs t ts hnone => simp only [chain, hnone]; rfl
  | case3 lhs t ts op hsome =>
    simp only [chain, hsome]
    rw [if_neg (by omega)]
    rfl
  | case4 lhs t ts op hsome room ih =>
    have hopen : depth + 1 + room = maxDepth := by omega
    simp only [chain, hsome]
    rw [if_pos (by omega), h hopen ts]
    cases hop : operand room ts with
    | error e => rfl
    | ok y =>
      -- The operand leaves the counter where its operator has put it, one above the operator before.
      obtain ⟨fuel, rfl⟩ : ∃ n, fuel = n + 1 := ⟨fuel - 1, by omega⟩
      exact ih y.1 y.2 hopen fuel (by omega)

theorem binary_tracks {s : Parser} {u : Counting Expr} (h : Tracks s u) (l : Nat) :
    Tracks (operatorsFrom s l) (binary u l) := by
  induction l using operatorsFrom.induct with
  | case1 l hlt ih =>
    intro depth room hroom ts
    rw [operatorsFrom_of_lt s hlt, level, binary, if_pos hlt]
    dsimp only
    rw [ih hroom ts]
    cases operatorsFrom s (l + 1) room ts with
    | error e => rfl
    | ok y => exact chain_follows ih depth hroom (by omega) y.1 y.2
  | case2 l hge =>
    rw [binary, if_neg hge, operatorsFrom, if_neg hge]
    exact h

theorem expression_tracks {s : Parser} {u : Counting Expr} (h : Tracks s u) : Tracks (grouped s) (expression u) := by
  rw [grouped_eq]
  exact nested_tracks (binary_tracks h 0)

theorem bind_eq_map {ε β γ δ : Type} {x : Except ε α} {g : α → β} {k : β → Except ε γ} {f : α → Except ε δ}
    {m : δ → γ} (h : ∀ a, k (g a) = (f a).map m) : (x.map g >>= k) = (x >>= f).map m := by
  cases x with
  | error e => rfl
  | ok a => exact h a

section Item

variable {item : List Token → Except ParseError (Expr × List Token)} {c : Counting Expr} {depth : Nat}
  (h : Follows item c depth)
include h

theorem argumentList_follows (fuel : Nat) : Follows (Expr.argumentList item fuel) (argumentList c fuel) depth := by
  induction fuel with
  | zero => exact fun ts => rfl
  | succ fuel ih =>
    intro ts
    rw [argumentList, Expr.argumentList, h ts]
    refine bind_eq_map ?_
    rintro ⟨e, rest⟩
    cases rest with
    | nil => rfl
    | cons t rest =>
      cases t with
      | comma =>
        show (argumentList c fuel depth rest >>= _) = (Expr.argumentList item fuel rest >>= _).map _
        rw [ih rest]
        cases Expr.argumentList item fuel rest <;> rfl
      | _ => rfl

theorem arguments_follows : Follows (callArguments item) (arguments c) depth := by
  intro ts
  cases ts with
  | nil => exact argumentList_follows h _ _
  | cons t ts =>
    cases t with
    | rparen => rfl
    | _ => exact argumentList_follows h _ _

theorem indices_follows (fuel : Nat) : Follows (brackets item fuel) (indices c fuel) depth := by
  intro ts
  fun_induction brackets item fuel ts with
  | case1 fuel ts ih =>
    rw [indices, h ts]
    refine bind_eq_map ?_
    rintro ⟨e, rest⟩
    dsimp only
    cases expectToken (· matches .rbracket) rest with
    | error e => rfl
    | ok rest =>
      show (indices c fuel depth rest >>= _) = (brackets item fuel rest >>= _).map _
      rw [ih rest]
      cases brackets item fuel rest <;> rfl
  | case2 fuel ts hne =>
    rw [indices]
    · rfl
    · exact hne

theorem primary_follows (p : ParsePolicy) : Follows (Expr.primary p item) (primary p c) depth := by
  intro ts
  fun_cases Expr.primary p item ts with
  | case1 | case2 | case3 | case4 => rfl
  | case5 ts =>
    rw [primary, h ts]
    refine bind_eq_map ?_
    rintro ⟨e, rest⟩
    dsimp only
    cases expectToken (· matches .rparen) rest <;> rfl
  | case6 name ts hcalls =>
    rw [primary, if_pos hcalls, arguments_follows h ts]
    refine bind_eq_map ?_
    rintro ⟨args, rest⟩
    rfl
  | case7 name ts hcalls =>
    rw [primary, if_neg hcalls]
    rfl
  | case8 name ts hne hname =>
    rw [primary.eq_7 _ _ _ _ _ hne, if_pos hname]
    rfl
  | case9 name ts hne hname =>
    rw [primary.eq_7 _ _ _ _ _ hne, if_neg hname]
    rfl
  | case10 t ts hnumber htrue hfalse hlparen hcall hname =>
    rw [primary.eq_8 _ _ _ _ _ hnumber htrue hfalse hlparen hcall hname]
    rfl

theorem postfixed_follows (p : ParsePolicy) : Follows (Expr.postfixed p item) (postfixed p c) depth := by
  intro ts
  rw [postfixed, Expr.postfixed, primary_follows h p ts]
  refine bind_eq_map ?_
  rintro ⟨e, rest⟩
  cases rest with
  | nil => rfl
  | cons t rest =>
    cases t with
    | lbracket =>
      dsimp only
      split
      · cases e with
        | ident name =>
          dsimp only
          rw [indices_follows h]
          refine bind_eq_map ?_
          rintro ⟨es, rest⟩
          rfl
        | _ => rfl
      · rfl
    | _ => rfl

end Item

theorem unary_tracks (p : ParsePolicy) (fuel : Nat) : Tracks (signed p fuel) (unary p fuel) := by
  induction fuel with
  | zero => exact fun _ _ _ ts => rfl
  | succ fuel ih =>
    intro depth room hroom ts
    rw [unary, signed]
    cases sign? ts with
    | none => exact postfixed_follows (expression_tracks ih hroom) p ts
    | some found =>
      obtain ⟨node, rest⟩ := found
      dsimp only
      rw [nested_tracks ih hroom rest]
      cases room with
      | zero => rfl
      | succ room =>
        rw [opened]
        refine bind_eq_map ?_
        rintro ⟨e, rest⟩
        rfl

/-- **Counting levels is as good as being told the room.** -/
theorem parse_eq (p : ParsePolicy) (text : String) : parse p text = Expr.parse p text := by
  unfold parse Expr.parse ofTokens
  cases Token.scan text with
  | error e => rfl
  | ok ts =>
    show (expression (unary p maxDepth) 0 ts >>= _) = (grouped (signed p maxDepth) maxDepth ts >>= _)
    rw [expression_tracks (unary_tracks p maxDepth) (Nat.zero_add maxDepth) ts]
    cases grouped (signed p maxDepth) maxDepth ts <;> rfl

end Counting

end RunningLights.Expr
