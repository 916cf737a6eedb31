import RunningLights.Proofs.Expr.Parsing

/-!
# A policy filters trees

What a policy lets through is what it lets through of all that can be parsed:

* `Filters` — a computation gives what another gives, where that is good;
* `Expr.parse_filters` — parsing under a policy gives the trees of the parser without one that conform to it.

The parser checks names, calls and indices where it meets them, so the two runs are followed side by side: the one
under the policy fails early exactly where the other is bound to a tree that does not conform.
-/

namespace RunningLights

/-- The one computation gives what the other gives, where that is good. -/
def Filters {ε α : Type} (good : α → Prop) (x y : Except ε α) : Prop := ∀ a, x = .ok a ↔ y = .ok a ∧ good a

namespace Filters

variable {ε α β : Type} {good : α → Prop} {good' : β → Prop}

theorem ok {a : α} (h : good a) : Filters (ε := ε) good (.ok a) (.ok a) :=
  fun b => ⟨fun hb => ⟨hb, by cases hb; exact h⟩, And.left⟩

theorem error (e e' : ε) : Filters good (.error e) (.error e') :=
  fun _ => ⟨nofun, nofun⟩

/-- A computation that is refused filters one that gives nothing good. -/
theorem refused (e : ε) {y : Except ε α} (h : ∀ a, y = .ok a → ¬ good a) : Filters good (.error e) y :=
  fun a => ⟨nofun, fun ha => absurd ha.2 (h a ha.1)⟩

theorem same {x : Except ε α} (h : ∀ a, x = .ok a → good a) : Filters good x x :=
  fun a => ⟨fun ha => ⟨ha, h a ha⟩, And.left⟩

/-- Of a result that is good, what it is made from is good. -/
theorem bind {x y : Except ε α} {f g : α → Except ε β} (hxy : Filters good x y)
    (hfg : ∀ a, good a → Filters good' (f a) (g a)) (hgood : ∀ a b, g a = .ok b → good' b → good a) :
    Filters good' (x >>= f) (y >>= g) := by
  intro b
  rw [Except.bind_eq_ok_iff, Except.bind_eq_ok_iff]
  constructor
  · rintro ⟨a, hx, hf⟩
    obtain ⟨hy, ha⟩ := (hxy a).1 hx
    obtain ⟨hg, hb⟩ := (hfg a ha b).1 hf
    exact ⟨⟨a, hy, hg⟩, hb⟩
  · rintro ⟨⟨a, hy, hg⟩, hb⟩
    have ha := hgood a b hg hb
    exact ⟨a, (hxy a).2 ⟨hy, ha⟩, (hfg a ha b).2 ⟨hg, hb⟩⟩

theorem bind_same {x y : Except ε α} {f : α → Except ε β} (hxy : Filters good x y)
    (hf : ∀ a b, f a = .ok b → (good a ↔ good' b)) : Filters good' (x >>= f) (y >>= f) :=
  hxy.bind (fun a ha => .same fun b h => (hf a b h).1 ha) fun a b h => (hf a b h).2

theorem same_bind {x : Except ε α} {f g : α → Except ε β} (hfg : ∀ a, Filters good' (f a) (g a)) :
    Filters good' (x >>= f) (x >>= g) :=
  (Filters.same fun _ _ => trivial).bind (fun a _ => hfg a) fun _ _ _ _ => trivial

end Filters

namespace Expr

variable {p : ParsePolicy}

theorem permissive_indexing : ParsePolicy.permissive.indexing := rfl

/-- What is read conforms. -/
abbrev Fit (p : ParsePolicy) (x : Expr × List Token) : Prop := x.1.conforms p

abbrev FitAll (p : ParsePolicy) (x : List Expr × List Token) : Prop := conformsAll p x.1

/-! ### Operators -/

/-- What stands before a chain is part of its tree. -/
theorem chain_conforms {l : Nat} {operand : Parser} {room : Nat} {lhs e : Expr} {ts rest : List Token}
    (h : chain l operand room lhs ts = .ok (e, rest)) (he : e.conforms p) : lhs.conforms p := by
  fun_induction chain l operand room lhs ts with
  | case1 => cases h; exact he
  | case2 => cases h; exact he
  | case3 => cases h
  | case4 lhs t ts op hop room ih =>
    obtain ⟨⟨rhs, mid⟩, -, hchain⟩ := Except.bind_eq_ok_iff.1 h
    exact (conforms_binary.1 (ih rhs mid hchain)).1

section Operators

variable {x y : Parser} (hxy : ∀ room ts, Filters (Fit p) (x room ts) (y room ts))
include hxy

theorem chain_filters (l : Nat) (room : Nat) {lhs : Expr} (hlhs : lhs.conforms p) (ts : List Token) :
    Filters (Fit p) (chain l x room lhs ts) (chain l y room lhs ts) := by
  match ts with
  | [] =>
    rw [chain_nil, chain_nil]
    exact .ok hlhs
  | t :: ts =>
    cases hop : BinaryOp.ofToken? l t with
    | none =>
      rw [chain_stop hop, chain_stop hop]
      exact .ok hlhs
    | some op =>
      match room with
      | 0 =>
        rw [chain_zero hop, chain_zero hop]
        exact .error _ _
      | room + 1 =>
        rw [chain_succ hop, chain_succ hop]
        refine (hxy room ts).bind (fun a ha => chain_filters l room ?_ a.2) fun a b h hb => ?_
        · exact conforms_binary.2 ⟨hlhs, ha⟩
        · exact (conforms_binary.1 (chain_conforms h hb)).2
termination_by structural room

theorem level_filters (l room : Nat) (ts : List Token) : Filters (Fit p) (level l x room ts) (level l y room ts) :=
  (hxy room ts).bind (fun a ha => chain_filters hxy l room ha a.2) fun _ _ => chain_conforms

theorem operators_filters (room : Nat) (ts : List Token) :
    Filters (Fit p) (operators x room ts) (operators y room ts) := by
  unfold operators
  iterate 6 refine level_filters (fun room ts => ?_) _ room ts
  exact hxy room ts

theorem grouped_filters (room : Nat) (ts : List Token) : Filters (Fit p) (grouped x room ts) (grouped y room ts) := by
  cases room with
  | zero => exact .error _ _
  | succ room => exact operators_filters hxy room ts

end Operators

/-! ### Operands -/

section Operands

variable {x y : List Token → Except ParseError (Expr × List Token)} (hxy : ∀ ts, Filters (Fit p) (x ts) (y ts))
include hxy

theorem argumentList_filters (fuel : Nat) (ts : List Token) :
    Filters (FitAll p) (argumentList x fuel ts) (argumentList y fuel ts) := by
  induction fuel generalizing ts with
  | zero => exact .error _ _
  | succ fuel ih =>
    refine (hxy ts).bind (fun ⟨e, mid⟩ he => ?_) fun ⟨e, mid⟩ b h hb => ?_
    · dsimp only
      split
      · refine (ih _).bind_same ?_
        rintro ⟨es, rest⟩ _ ⟨⟩
        exact ⟨fun hes => conformsAll_cons.2 ⟨he, hes⟩, fun h => (conformsAll_cons.1 h).2⟩
      · refine .same fun b h => ?_
        obtain ⟨_, -, heq⟩ := Except.bind_eq_ok_iff.1 h
        cases heq
        exact conformsAll_cons.2 ⟨he, rfl⟩
    · dsimp only at h
      split at h
      all_goals
        obtain ⟨_, -, heq⟩ := Except.bind_eq_ok_iff.1 h
        cases heq
        exact (conformsAll_cons.1 hb).1

theorem callArguments_filters (ts : List Token) : Filters (FitAll p) (callArguments x ts) (callArguments y ts) := by
  unfold callArguments
  split
  · exact .ok rfl
  · exact argumentList_filters hxy _ _

theorem brackets_filters (fuel : Nat) (ts : List Token) :
    Filters (FitAll p) (brackets x fuel ts) (brackets y fuel ts) := by
  induction fuel generalizing ts with
  | zero => exact .ok rfl
  | succ fuel ih =>
    by_cases hts : ts.head? = some .lbracket
    · obtain ⟨us, rfl⟩ := List.head?_eq_some_iff.1 hts
      refine (hxy us).bind (fun ⟨e, mid⟩ he => ?_) fun ⟨e, mid⟩ b h hb => ?_
      · refine .same_bind (fun _ => (ih _).bind_same ?_)
        rintro ⟨es, rest⟩ _ ⟨⟩
        exact ⟨fun hes => conformsAll_cons.2 ⟨he, hes⟩, fun h => (conformsAll_cons.1 h).2⟩
      · obtain ⟨_, -, h'⟩ := Except.bind_eq_ok_iff.1 h
        obtain ⟨_, -, heq⟩ := Except.bind_eq_ok_iff.1 h'
        cases heq
        exact (conformsAll_cons.1 hb).1
    · rw [brackets_stop x hts, brackets_stop y hts]
      exact .ok rfl

theorem primary_filters (ts : List Token) : Filters (Fit p) (primary p x ts) (primary .permissive y ts) := by
  match ts with
  | [] => exact .error _ _
  | .number _ :: _ | .true :: _ | .false :: _ => exact .ok rfl
  | .lparen :: ts =>
    refine (hxy ts).bind_same fun ⟨e, rest⟩ b h => ?_
    obtain ⟨_, -, heq⟩ := Except.bind_eq_ok_iff.1 h
    cases heq
    rfl
  | .ident name :: ts =>
    by_cases hts : ts.head? = some .lparen
    · obtain ⟨us, rfl⟩ := List.head?_eq_some_iff.1 hts
      by_cases hcalls : p.calls
      · rw [primary, if_pos hcalls]
        refine (callArguments_filters hxy us).bind_same ?_
        rintro ⟨es, rest⟩ _ ⟨⟩
        exact ⟨fun hes => conforms_call.2 ⟨hcalls, hes⟩, fun h => (conforms_call.1 h).2⟩
      · rw [primary, if_neg hcalls]
        refine .refused _ fun a ha hfit => hcalls ?_
        obtain ⟨_, -, heq⟩ := Except.bind_eq_ok_iff.1 ha
        cases heq
        exact (conforms_call.1 hfit).1
    · rw [primary_name p x hts, primary_name .permissive y hts]
      split
      next hname => exact .ok hname
      next hname =>
        refine .refused _ fun a ha => ?_
        cases ha
        exact hname
  | .rparen :: _ | .lbracket :: _ | .rbracket :: _ | .comma :: _ | .plus :: _ | .minus :: _ | .star :: _ | .slash :: _
  | .percent :: _ | .bang :: _ | .lt :: _ | .gt :: _ | .le :: _ | .ge :: _ | .eqEq :: _ | .notEq :: _ | .andAnd :: _
  | .orOr :: _ => exact .error _ _

theorem postfixed_filters (ts : List Token) : Filters (Fit p) (postfixed p x ts) (postfixed .permissive y ts) := by
  refine (primary_filters hxy ts).bind (fun ⟨e, mid⟩ he => ?_) fun ⟨e, mid⟩ b h hb => ?_
  · dsimp only
    split
    · by_cases hindexing : p.indexing
      · rw [if_pos hindexing]
        split
        · refine (brackets_filters hxy _ _).bind_same ?_
          rintro ⟨es, rest⟩ _ ⟨⟩
          exact ⟨fun hes => conforms_index.2 ⟨hindexing, he, hes⟩, fun h => (conforms_index.1 h).2.2⟩
        · exact .error _ _
      · rw [if_neg hindexing]
        refine .refused _ fun a ha hfit => hindexing ?_
        rw [if_pos permissive_indexing] at ha
        split at ha
        · obtain ⟨_, -, heq⟩ := Except.bind_eq_ok_iff.1 ha
          cases heq
          exact (conforms_index.1 hfit).1
        · cases ha
    · exact .ok he
  · dsimp only at h
    split at h
    · rw [if_pos permissive_indexing] at h
      split at h
      · obtain ⟨_, -, heq⟩ := Except.bind_eq_ok_iff.1 h
        cases heq
        exact (conforms_index.1 hb).2.1
      · cases h
    · cases h
      exact hb

end Operands

/-- A sign adds no name, no call and no index. -/
theorem sign?_conforms {ts rest : List Token} {node : Expr → Expr} (h : sign? ts = some (node, rest)) (e : Expr) :
    (node e).conforms p = e.conforms p := by
  unfold sign? at h
  split at h <;> cases h <;> rfl

theorem signed_filters (p : ParsePolicy) (fuel room : Nat) (ts : List Token) :
    Filters (Fit p) (signed p fuel room ts) (signed .permissive fuel room ts) := by
  induction fuel generalizing room ts with
  | zero => exact .error _ _
  | succ fuel ih =>
    unfold signed
    cases hsign : sign? ts with
    | none => exact postfixed_filters (grouped_filters ih room) ts
    | some found =>
      obtain ⟨node, rest⟩ := found
      cases room with
      | zero => exact .error _ _
      | succ room =>
        refine (ih room rest).bind_same ?_
        rintro ⟨e, rest'⟩ _ ⟨⟩
        rw [Fit, Fit, sign?_conforms hsign]

theorem ofTokens_filters (p : ParsePolicy) (ts : List Token) :
    Filters (·.conforms p) (ofTokens p ts) (ofTokens .permissive ts) := by
  refine (grouped_filters (signed_filters p maxDepth) maxDepth ts).bind_same fun ⟨e, rest⟩ b h => ?_
  dsimp only at h
  split at h <;> cases h
  rfl

/-- **A policy is a filter on trees**: a text is parsed under it to the tree that the parser without one makes of the
text, if that tree conforms to the policy, and is refused otherwise. -/
theorem parse_filters (p : ParsePolicy) (text : String) (e : Expr) :
    parse p text = .ok e ↔ parse .permissive text = .ok e ∧ e.conforms p := by
  unfold parse
  exact Filters.same_bind (fun ts => ofTokens_filters p ts) e

end Expr

end RunningLights
