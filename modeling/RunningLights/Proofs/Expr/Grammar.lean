import RunningLights.Expr.Parser

/-!
# The grammar of expressions

Which tokens are an expression, and of which tree:

* `Operator` — the levels of the operators on two operands;
* `Grammar.Level`, `Grammar.Signed`, `Grammar.Postfixed`, `Grammar.Primary` — derivations of the grammar; operators
  of one level associate to the left, a plus sign leaves no node, and only a bare name has indices;
* `Grammar.Level.starts` — an expression starts with an operand or a sign;
* `Expr.conforms` — every name and call and index of a tree is allowed by a policy.
-/

namespace RunningLights

/-- The operators on two operands, with their levels and tokens; level 0 is the loosest. -/
inductive Operator : Nat → Token → BinaryOp → Prop
  | or : Operator 0 .orOr .or
  | and : Operator 1 .andAnd .and
  | eq : Operator 2 .eqEq .eq
  | ne : Operator 2 .notEq .ne
  | lt : Operator 3 .lt .lt
  | gt : Operator 3 .gt .gt
  | le : Operator 3 .le .le
  | ge : Operator 3 .ge .ge
  | add : Operator 4 .plus .add
  | sub : Operator 4 .minus .sub
  | mul : Operator 5 .star .mul
  | div : Operator 5 .slash .div
  | rem : Operator 5 .percent .rem

theorem ofToken?_eq_some_iff {l : Nat} {t : Token} {op : BinaryOp} :
    BinaryOp.ofToken? l t = some op ↔ Operator l t op := by
  refine ⟨fun h => ?_, fun h => by cases h <;> rfl⟩
  unfold BinaryOp.ofToken? at h
  split at h <;> cases h <;> constructor

/-- A token is an operator of one level only. -/
theorem Operator.level_unique {k l : Nat} {t : Token} {op op' : BinaryOp} (h : Operator k t op)
    (h' : Operator l t op') : k = l := by
  cases h <;> cases h' <;> rfl

namespace Grammar

mutual

/-- Expressions of a level of operators and all tighter ones.  Level 6 is that of single operands. -/
inductive Level : Nat → List Token → Expr → Prop
  | operand {ts : List Token} {e : Expr} : Signed ts e → Level 6 ts e
  | tighter {l : Nat} {ts : List Token} {e : Expr} : l < 6 → Level (l + 1) ts e → Level l ts e
  | binary {l : Nat} {ts us : List Token} {t : Token} {op : BinaryOp} {lhs rhs : Expr} :
      Level l ts lhs → Operator l t op → Level (l + 1) us rhs → Level l (ts ++ t :: us) (.binary op lhs rhs)

inductive Signed : List Token → Expr → Prop
  | not {ts : List Token} {e : Expr} : Signed ts e → Signed (.bang :: ts) (.unary .not e)
  | minus {ts : List Token} {e : Expr} : Signed ts e → Signed (.minus :: ts) (.unary .neg e)
  | plus {ts : List Token} {e : Expr} : Signed ts e → Signed (.plus :: ts) e
  | unsigned {ts : List Token} {e : Expr} : Postfixed ts e → Signed ts e

inductive Postfixed : List Token → Expr → Prop
  | primary {ts : List Token} {e : Expr} : Primary ts e → Postfixed ts e
  | index {ts us : List Token} {name : String} {e : Expr} {es : List Expr} :
      Primary ts (.ident name) → Indices us (e :: es) → Postfixed (ts ++ us) (.index name (e :: es))

/-- Expressions in brackets, one behind the other. -/
inductive Indices : List Token → List Expr → Prop
  | nil : Indices [] []
  | cons {ts us : List Token} {e : Expr} {es : List Expr} :
      Level 0 ts e → Indices us es → Indices (.lbracket :: ts ++ .rbracket :: us) (e :: es)

/-- Literals, names, calls and expressions in parentheses. -/
inductive Primary : List Token → Expr → Prop
  | number (v : Value) : Primary [.number v] (.literal v)
  | true : Primary [.true] (.literal (.bool true))
  | false : Primary [.false] (.literal (.bool false))
  | name (name : String) : Primary [.ident name] (.ident name)
  | call {ts : List Token} (name : String) {es : List Expr} :
      Arguments ts es → Primary (.ident name :: .lparen :: ts ++ [.rparen]) (.call name es)
  | group {ts : List Token} {e : Expr} : Level 0 ts e → Primary (.lparen :: ts ++ [.rparen]) e

inductive Arguments : List Token → List Expr → Prop
  | none : Arguments [] []
  | some {ts : List Token} {es : List Expr} : Items ts es → Arguments ts es

/-- Expressions between commas; there is one at least. -/
inductive Items : List Token → List Expr → Prop
  | last {ts : List Token} {e : Expr} : Level 0 ts e → Items ts [e]
  | cons {ts us : List Token} {e : Expr} {es : List Expr} :
      Level 0 ts e → Items us es → Items (ts ++ .comma :: us) (e :: es)

end

/-! ### How expressions start -/

/-- The tokens that start an operand without a sign. -/
inductive Opens : Token → Prop
  | number (v : Value) : Opens (.number v)
  | ident (name : String) : Opens (.ident name)
  | true : Opens .true
  | false : Opens .false
  | lparen : Opens .lparen

inductive Starts : Token → Prop
  | opens {t : Token} : Opens t → Starts t
  | bang : Starts .bang
  | minus : Starts .minus
  | plus : Starts .plus

theorem Starts.ne_rparen {t : Token} (h : Starts t) : t ≠ .rparen := by
  rintro rfl
  cases h with
  | opens h => cases h

theorem Primary.opens {ts : List Token} {e : Expr} (h : Primary ts e) : ∃ t us, ts = t :: us ∧ Opens t := by
  cases h with
  | number v => exact ⟨_, _, rfl, .number v⟩
  | true => exact ⟨_, _, rfl, .true⟩
  | false => exact ⟨_, _, rfl, .false⟩
  | name name => exact ⟨_, _, rfl, .ident name⟩
  | call name _ => exact ⟨_, _, rfl, .ident name⟩
  | group _ => exact ⟨_, _, rfl, .lparen⟩

theorem Postfixed.opens {ts : List Token} {e : Expr} (h : Postfixed ts e) : ∃ t us, ts = t :: us ∧ Opens t := by
  cases h with
  | primary h => exact h.opens
  | index h _ =>
    obtain ⟨t, us, rfl, ht⟩ := h.opens
    exact ⟨t, _, rfl, ht⟩

theorem Signed.starts {ts : List Token} {e : Expr} (h : Signed ts e) : ∃ t us, ts = t :: us ∧ Starts t := by
  cases h with
  | not _ => exact ⟨_, _, rfl, .bang⟩
  | minus _ => exact ⟨_, _, rfl, .minus⟩
  | plus _ => exact ⟨_, _, rfl, .plus⟩
  | unsigned h =>
    obtain ⟨t, us, rfl, ht⟩ := h.opens
    exact ⟨t, us, rfl, .opens ht⟩

theorem Level.starts : ∀ {l : Nat} {ts : List Token} {e : Expr}, Level l ts e → ∃ t us, ts = t :: us ∧ Starts t
  | _, _, _, .operand h => h.starts
  | _, _, _, .tighter _ h => h.starts
  | _, _, _, .binary h _ _ => by
    obtain ⟨t, us, rfl, ht⟩ := h.starts
    exact ⟨t, _, rfl, ht⟩

theorem Items.starts {ts : List Token} {es : List Expr} (h : Items ts es) : ∃ t us, ts = t :: us ∧ Starts t := by
  cases h with
  | last h => exact h.starts
  | cons h _ =>
    obtain ⟨t, us, rfl, ht⟩ := h.starts
    exact ⟨t, _, rfl, ht⟩

theorem Indices.starts {ts : List Token} {e : Expr} {es : List Expr} (h : Indices ts (e :: es)) :
    ∃ us, ts = .lbracket :: us := by
  cases h with
  | cons _ _ => exact ⟨_, rfl⟩

end Grammar

/-! ### What a policy allows -/

namespace Expr

mutual

/-- Every name that is read or indexed is on the policy's list, if it has one, and there are no calls and no indices
that it forbids. -/
def conforms (p : ParsePolicy) : Expr → Bool
  | .literal _ => true
  | .ident name => p.admits name
  | .unary _ e => e.conforms p
  | .binary _ l r => l.conforms p && r.conforms p
  | .index name indices => p.indexing && p.admits name && conformsAll p indices
  | .call _ args => p.calls && conformsAll p args

def conformsAll (p : ParsePolicy) : List Expr → Bool
  | [] => true
  | e :: es => e.conforms p && conformsAll p es

end

variable {p : ParsePolicy}

theorem conforms_binary {op : BinaryOp} {l r : Expr} :
    (binary op l r).conforms p ↔ l.conforms p ∧ r.conforms p := by
  rw [conforms, Bool.and_eq_true]

theorem conforms_index {name : String} {es : List Expr} :
    (index name es).conforms p ↔ p.indexing ∧ p.admits name ∧ conformsAll p es := by
  rw [conforms, Bool.and_eq_true, Bool.and_eq_true, and_assoc]

theorem conforms_call {name : String} {es : List Expr} :
    (call name es).conforms p ↔ p.calls ∧ conformsAll p es := by
  rw [conforms, Bool.and_eq_true]

theorem conformsAll_cons {e : Expr} {es : List Expr} :
    conformsAll p (e :: es) ↔ e.conforms p ∧ conformsAll p es := by
  rw [conformsAll, Bool.and_eq_true]

mutual

theorem conforms_permissive : ∀ e : Expr, e.conforms .permissive
  | .literal _ => rfl
  | .ident _ => rfl
  | .unary _ e => conforms_permissive e
  | .binary _ l r => conforms_binary.2 ⟨conforms_permissive l, conforms_permissive r⟩
  | .index _ es => conforms_index.2 ⟨rfl, rfl, conformsAll_permissive es⟩
  | .call _ es => conforms_call.2 ⟨rfl, conformsAll_permissive es⟩

theorem conformsAll_permissive : ∀ es : List Expr, conformsAll .permissive es
  | [] => rfl
  | e :: es => conformsAll_cons.2 ⟨conforms_permissive e, conformsAll_permissive es⟩

end

end Expr

end RunningLights
