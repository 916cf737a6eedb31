import Mathlib
import RunningLights.Expr.Eval
import RunningLights.Proofs.Expr.Parsing
import RunningLights.Proofs.Expr.Separation

/-!
# Constants in the place of names

A constant may stand wherever a name may, also a negative one, whose sign is a token of its own:

* `Constant`, `Constant.ofText?` — a number or a truth value, and the text of one;
* `Expr.fill`, `Token.fill` — constants put in the place of names, in a tree and among tokens;
* `Expr.eval_fill` — a tree with constants means what it means with the names bound to their values;
* `Grammar.Level.fill` — if the tokens of a tree without calls and indices have constants put in, they are derived with
  the tree that has them put in.
-/

namespace RunningLights

open Number

/-! ### Constants -/

/-- A constant: the tokens that it is written with, their tree, and its value. -/
structure Constant where
  tokens : List Token
  tree : Expr
  value : Value
  signed : Grammar.Signed tokens tree
  conforms (p : ParsePolicy) : tree.conforms p
  eval (names : String → Option Value) (arithmetic : Arithmetic) :
    tree.eval (Environment.ofNames names) arithmetic = .ok value

/-- The characters are up to fifteen digits, and one at least. -/
def IsDecimal (ds : List Char) : Prop := ds ≠ [] ∧ ds.length ≤ 15 ∧ ds.all Char.isDigit = true

instance (ds : List Char) : Decidable (IsDecimal ds) := inferInstanceAs (Decidable (_ ∧ _ ∧ _))

theorem digitsValue_lt {ds : List Char} (h : ∀ c ∈ ds, c.isDigit = true) : digitsValue ds < 10 ^ ds.length := by
  have hfold (n : Nat) : ds.foldl (fun n c => 10 * n + (c.toNat - '0'.toNat)) n < (n + 1) * 10 ^ ds.length := by
    induction ds generalizing n with
    | nil => simp
    | cons c ds ih =>
      obtain ⟨hc, hds⟩ := List.forall_mem_cons.1 h
      have hdigit : c.toNat - '0'.toNat < 10 := by
        simp only [Char.isDigit, Bool.and_eq_true, decide_eq_true_eq, ge_iff_le, UInt32.le_iff_toNat_le] at hc
        have hle : c.toNat ≤ 57 := hc.2
        have hzero : '0'.toNat = 48 := rfl
        omega
      calc ds.foldl _ (10 * n + (c.toNat - '0'.toNat))
          < (10 * n + (c.toNat - '0'.toNat) + 1) * 10 ^ ds.length := ih hds _
        _ ≤ (n + 1) * 10 * 10 ^ ds.length := Nat.mul_le_mul_right _ (by omega)
        _ = (n + 1) * 10 ^ (c :: ds).length := by rw [List.length_cons, Nat.pow_succ, Nat.mul_assoc, Nat.mul_comm 10]
  have h₀ := hfold 0
  rwa [Nat.zero_add, Nat.one_mul] at h₀

theorem IsDecimal.digits {ds : List Char} (h : IsDecimal ds) : ∀ c ∈ ds, c.isDigit = true := List.all_eq_true.1 h.2.2

theorem IsDecimal.value_lt {ds : List Char} (h : IsDecimal ds) : digitsValue ds < 2 ^ 63 :=
  calc digitsValue ds < 10 ^ ds.length := digitsValue_lt h.digits
    _ ≤ 10 ^ 15 := Nat.pow_le_pow_right (by decide) h.2.1
    _ < 2 ^ 63 := by decide

namespace Constant

def ofBool (b : Bool) : Constant where
  tokens := [if b then .true else .false]
  tree := .literal (.bool b)
  value := .bool b
  signed := by cases b <;> exact .unsigned (.primary (by constructor))
  conforms _ := rfl
  eval _ _ := by rw [Expr.eval]; rfl

def ofNat (n : Nat) : Constant where
  tokens := [.number (.int (Int64.ofNat n))]
  tree := .literal (.int (Int64.ofNat n))
  value := .int (Int64.ofNat n)
  signed := .unsigned (.primary (.number _))
  conforms _ := rfl
  eval _ _ := by rw [Expr.eval]; rfl

theorem exactly_neg {n : Nat} (h : n < 2 ^ 63) :
    exactly (-(Int64.ofNat n).toInt) = .ok (.int (Int64.ofInt (-n))) := by
  have hfits : Fits (-(n : Int)) := by
    simp only [Fits, minInt, maxInt]
    omega
  rw [exactly, Int64.toInt_ofNat_of_lt h, fit?_eq_some_iff.2 (toInt_ofInt_of_fits hfits)]

def negative (n : Nat) (h : n < 2 ^ 63) : Constant where
  tokens := [.minus, .number (.int (Int64.ofNat n))]
  tree := .unary .neg (.literal (.int (Int64.ofNat n)))
  value := .int (Int64.ofInt (-n))
  signed := .minus (.unsigned (.primary (.number _)))
  conforms _ := rfl
  eval _ _ := by
    rw [Expr.eval, Expr.eval]
    exact congrArg settle (exactly_neg h)

/-- The constant that a text is: a truth value, or up to fifteen digits, perhaps behind a minus sign. -/
def ofText? (cs : List Char) : Option Constant :=
  if cs = ['t', 'r', 'u', 'e'] then some (ofBool true)
  else if cs = ['f', 'a', 'l', 's', 'e'] then some (ofBool false)
  else if IsDecimal cs then some (ofNat (digitsValue cs))
  else match cs with
    | '-' :: ds => if h : IsDecimal ds then some (negative (digitsValue ds) h.value_lt) else none
    | _ => none

end Constant

namespace Token

theorem tokens?_of_isDecimal {ds : List Char} (h : IsDecimal ds) :
    tokens? ds = some [.number (.int (Int64.ofNat (digitsValue ds)))] :=
  tokens?_of_digits h.1 h.digits (Int64.toInt_ofNat_of_lt h.value_lt)

theorem tokens?_of_ofText? {cs : List Char} {c : Constant} (h : Constant.ofText? cs = some c) :
    tokens? cs = some c.tokens := by
  unfold Constant.ofText? at h
  split at h
  · cases h
    subst cs
    exact tokens?_of_next? (by decide) rfl
  · split at h
    · cases h
      subst cs
      exact tokens?_of_next? (by decide) rfl
    · split at h
      next hdecimal =>
        cases h
        exact tokens?_of_isDecimal hdecimal
      · split at h
        next ds _ _ _ =>
          split at h
          next hdecimal =>
            cases h
            have hnext : next? '-' ds = some (.minus, ds) := rfl
            rw [tokens?_cons (by decide), hnext, Option.bind_some, tokens?_of_isDecimal hdecimal]
            rfl
          · cases h
        · cases h

end Token

/-! ### Constants put in -/

section

variable (σ : String → Option Constant)

/-- The tokens with constants in the place of names. -/
def Token.fill : Token → List Token
  | .ident name =>
    match σ name with
    | some c => c.tokens
    | none => [.ident name]
  | t => [t]

mutual

def Expr.fill : Expr → Expr
  | .literal v => .literal v
  | .ident name =>
    match σ name with
    | some c => c.tree
    | none => .ident name
  | .unary op e => .unary op e.fill
  | .binary op l r => .binary op l.fill r.fill
  | .index name es => .index name (Expr.fillAll es)
  | .call name es => .call name (Expr.fillAll es)

def Expr.fillAll : List Expr → List Expr
  | [] => []
  | e :: es => e.fill :: Expr.fillAll es

end

/-- What names mean when those of constants are bound to their values. -/
def boundNames (names : String → Option Value) (name : String) : Option Value :=
  match σ name with
  | some c => some c.value
  | none => names name

variable {σ}

mutual

/-- A tree with constants means what it means with the names bound to their values. -/
theorem Expr.eval_fill (names : String → Option Value) (arithmetic : Arithmetic) : ∀ e : Expr,
    (e.fill σ).eval (Environment.ofNames names) arithmetic =
      e.eval (Environment.ofNames (boundNames σ names)) arithmetic
  | .literal v => by rw [fill, eval, eval]
  | .ident name => by
    rw [fill, eval]
    show _ = (match boundNames σ names name with
      | some v => .ok v
      | none => .error (.unknownIdentifier name) : Except EvalError Value)
    rw [boundNames]
    cases σ name with
    | none => rw [eval]; rfl
    | some c => exact c.eval names arithmetic
  | .unary op e => by rw [fill, eval, eval, eval_fill names arithmetic e]
  | .binary op l r => by
    have hl := eval_fill names arithmetic l
    have hr := eval_fill names arithmetic r
    rw [fill]
    cases op <;> simp only [eval, hl, hr]
  | .index name es => by rw [fill, eval, eval, evalIndices_fillAll names arithmetic es]; rfl
  | .call name es => by rw [fill, eval, eval]; rfl

theorem Expr.evalIndices_fillAll (names : String → Option Value) (arithmetic : Arithmetic) : ∀ es : List Expr,
    evalIndices (Environment.ofNames names) arithmetic (fillAll σ es) =
      evalIndices (Environment.ofNames (boundNames σ names)) arithmetic es
  | [] => by rw [fillAll, evalIndices, evalIndices]
  | e :: es => by
    rw [fillAll, evalIndices, evalIndices, eval_fill names arithmetic e, evalIndices_fillAll names arithmetic es]

end

/-! ### Trees of names and operators -/

variable {known : List String}

/-- If the policy `q` allows the names that stay, it allows the tree with constants. -/
theorem Expr.conforms_fill {q : ParsePolicy} (hq : ∀ name, known.contains name → σ name = none → q.admits name) :
    ∀ e : Expr, e.conforms (.restricted known) → (e.fill σ).conforms q
  | .literal _, _ => rfl
  | .ident name, he => by
    rw [fill]
    cases hname : σ name with
    | none => exact hq name he hname
    | some c => exact c.conforms q
  | .unary _ e, he => conforms_fill hq e he
  | .binary _ l r, he =>
    conforms_binary.2 ⟨conforms_fill hq l (conforms_binary.1 he).1, conforms_fill hq r (conforms_binary.1 he).2⟩
  | .index _ _, he => absurd (conforms_index.1 he).1 Bool.false_ne_true
  | .call _ _, he => absurd (conforms_call.1 he).1 Bool.false_ne_true

namespace Grammar

theorem fill_operator {l : Nat} {t : Token} {op : BinaryOp} (h : Operator l t op) : t.fill σ = [t] := by
  cases h <;> rfl

mutual

/-- The tokens with constants are derived with the tree with constants.  A constant may have a sign, so what was a
primary is only an operand afterwards. -/
theorem Level.fill : ∀ {l : Nat} {ts : List Token} {e : Expr}, Level l ts e → e.conforms (.restricted known) →
    Level l (ts.flatMap (Token.fill σ)) (e.fill σ)
  | _, _, _, .operand h, hp => .operand (h.fill hp)
  | _, _, _, .tighter hl h, hp => .tighter hl (h.fill hp)
  | _, _, _, .binary hlhs hop hrhs, hp => by
    obtain ⟨hpl, hpr⟩ := Expr.conforms_binary.1 hp
    rw [List.flatMap_append, List.flatMap_cons, fill_operator hop]
    exact .binary (hlhs.fill hpl) hop (hrhs.fill hpr)

theorem Signed.fill : ∀ {ts : List Token} {e : Expr}, Signed ts e → e.conforms (.restricted known) →
    Signed (ts.flatMap (Token.fill σ)) (e.fill σ)
  | _, _, .not h, hp => .not (h.fill hp)
  | _, _, .minus h, hp => .minus (h.fill hp)
  | _, _, .plus h, hp => .plus (h.fill hp)
  | _, _, .unsigned h, hp => h.fill hp

theorem Postfixed.fill : ∀ {ts : List Token} {e : Expr}, Postfixed ts e → e.conforms (.restricted known) →
    Signed (ts.flatMap (Token.fill σ)) (e.fill σ)
  | _, _, .primary h, hp => h.fill hp
  | _, _, .index _ _, hp => absurd (Expr.conforms_index.1 hp).1 Bool.false_ne_true

theorem Primary.fill : ∀ {ts : List Token} {e : Expr}, Primary ts e → e.conforms (.restricted known) →
    Signed (ts.flatMap (Token.fill σ)) (e.fill σ)
  | _, _, .number v, _ => .unsigned (.primary (.number v))
  | _, _, .true, _ => .unsigned (.primary .true)
  | _, _, .false, _ => .unsigned (.primary .false)
  | _, _, .name name, _ => by
    rw [List.flatMap_singleton, Token.fill, Expr.fill]
    cases σ name with
    | none => exact .unsigned (.primary (.name name))
    | some c => exact c.signed
  | _, _, .call _ _, hp => absurd (Expr.conforms_call.1 hp).1 Bool.false_ne_true
  | _, _, .group h, hp => by
    have hgroup := Primary.group (h.fill hp)
    rw [List.cons_append, List.flatMap_cons, List.flatMap_append]
    exact .unsigned (.primary hgroup)

end

end Grammar

end

end RunningLights
