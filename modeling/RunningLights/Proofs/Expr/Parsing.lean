import RunningLights.Proofs.Expr.Grammar

/-!
# Parsing follows the grammar

The parser is sound for the grammar, and complete for the trees that its policy allows:

* `Expr.signed_sound` — what the parser takes off a list of tokens is derived with the tree that it makes;
* `Expr.signed_complete` — of the tokens of a derivation it makes that derivation's tree, if it is allowed and unless
  they are nested too deeply;
* `Expr.ofTokens_derives` — both for whole lists of tokens.

In both directions a level of operators follows from signed operands, by induction on the levels and along its
chain, and signed operands from those with less fuel.
-/

namespace RunningLights

theorem Except.bind_eq_ok_iff {ε α β : Type} {x : Except ε α} {f : α → Except ε β} {b : β} :
    (x >>= f) = .ok b ↔ ∃ a, x = .ok a ∧ f a = .ok b := by
  cases x with
  | ok a => simp [bind, Except.bind]
  | error e => simp [bind, Except.bind]

namespace Expr

open Grammar

def operatorsFrom (signed : Parser) (l : Nat) : Parser :=
  if l < 6 then level l (operatorsFrom signed (l + 1)) else signed
termination_by 6 - l

theorem operatorsFrom_of_lt (s : Parser) {l : Nat} (h : l < 6) :
    operatorsFrom s l = level l (operatorsFrom s (l + 1)) := by
  rw [operatorsFrom, if_pos h]

theorem operatorsFrom_six (s : Parser) : operatorsFrom s 6 = s := by
  rw [operatorsFrom, if_neg (by omega)]

theorem operatorsFrom_zero (s : Parser) : operatorsFrom s 0 = operators s := by
  unfold operators
  rw [operatorsFrom_of_lt s (by omega), operatorsFrom_of_lt s (by omega), operatorsFrom_of_lt s (by omega),
    operatorsFrom_of_lt s (by omega), operatorsFrom_of_lt s (by omega), operatorsFrom_of_lt s (by omega),
    operatorsFrom_six]

/-! ### The equations of chains and brackets -/

section Chain

variable {l : Nat} {operand : Parser} {lhs : Expr} {t : Token} {ts : List Token}

theorem chain_nil (room : Nat) : chain l operand room lhs [] = .ok (lhs, []) := by
  cases room <;> rfl

theorem chain_stop (h : BinaryOp.ofToken? l t = none) (room : Nat) :
    chain l operand room lhs (t :: ts) = .ok (lhs, t :: ts) := by
  cases room <;> simp [chain, h]

variable {op : BinaryOp} (h : BinaryOp.ofToken? l t = some op)
include h

theorem chain_zero : chain l operand 0 lhs (t :: ts) = .error .tooDeep := by
  simp [chain, h]

theorem chain_succ (room : Nat) : chain l operand (room + 1) lhs (t :: ts) =
    operand room ts >>= fun x => chain l operand room (.binary op lhs x.1) x.2 := by
  simp [chain, h]

end Chain

theorem brackets_stop (item : List Token → Except ParseError (Expr × List Token)) {ts : List Token}
    (h : ts.head? ≠ some .lbracket) (fuel : Nat) : brackets item fuel ts = .ok ([], ts) := by
  unfold brackets
  split
  · exact absurd rfl h
  · rfl

theorem primary_name (p : ParsePolicy) (item : List Token → Except ParseError (Expr × List Token)) {name : String}
    {ts : List Token} (h : ts.head? ≠ some .lparen) : primary p item (.ident name :: ts) =
      if p.admits name then .ok (.ident name, ts) else .error (.forbiddenIdentifier name) := by
  rw [primary]
  rintro us rfl
  exact h rfl

/-! ### Soundness -/

/-- What a reader takes off a list of tokens is derived. -/
def Sound {α : Type} (G : List Token → α → Prop) (x : List Token → Except ParseError (α × List Token)) : Prop :=
  ∀ ⦃ts : List Token⦄ ⦃a : α⦄ ⦃rest : List Token⦄, x ts = .ok (a, rest) → ∃ us, ts = us ++ rest ∧ G us a

theorem expectToken_eq_ok {isExpected : Token → Bool} {u : Token} (hu : ∀ t, isExpected t = true → t = u)
    {ts rest : List Token} (h : expectToken isExpected ts = .ok rest) : ts = u :: rest := by
  cases ts with
  | nil => cases h
  | cons t ts =>
    by_cases ht : isExpected t
    · simp only [expectToken, ht, if_true, Except.ok.injEq] at h
      rw [hu t ht, h]
    · simp [expectToken, ht] at h

theorem eq_of_matches :
    (∀ t : Token, (t matches .rparen) = true → t = .rparen) ∧
      ∀ t : Token, (t matches .rbracket) = true → t = .rbracket := by
  constructor <;> intro t ht <;> cases t <;> first | rfl | cases ht

/-- A chain goes on with what has been derived before it. -/
theorem chain_sound {l : Nat} {operand : Parser} (hop : ∀ room, Sound (Level (l + 1)) (operand room)) {room : Nat}
    {vs ts rest : List Token} {lhs e : Expr} (hlhs : Level l vs lhs)
    (h : chain l operand room lhs ts = .ok (e, rest)) : ∃ us, ts = us ++ rest ∧ Level l (vs ++ us) e := by
  fun_induction chain l operand room lhs ts generalizing vs with
  | case1 room lhs =>
    cases h
    exact ⟨[], rfl, by rwa [List.append_nil]⟩
  | case2 room lhs t ts hnone =>
    cases h
    exact ⟨[], rfl, by rwa [List.append_nil]⟩
  | case3 lhs t ts op hop' => cases h
  | case4 lhs t ts op hop' room ih =>
    obtain ⟨⟨rhs, mid⟩, hrhs, hchain⟩ := Except.bind_eq_ok_iff.1 h
    obtain ⟨us, rfl, hus⟩ := hop _ hrhs
    obtain ⟨us', rfl, hus'⟩ := ih rhs mid (.binary hlhs (ofToken?_eq_some_iff.1 hop') hus) hchain
    exact ⟨t :: us ++ us', by simp, by simpa using hus'⟩

theorem operatorsFrom_sound {s : Parser} (hs : ∀ room, Sound Signed (s room)) {l : Nat} (hl : l ≤ 6) (room : Nat) :
    Sound (Level l) (operatorsFrom s l room) := by
  induction l using operatorsFrom.induct generalizing room with
  | case1 l hlt ih =>
    intro ts e rest h
    rw [operatorsFrom_of_lt s hlt] at h
    obtain ⟨⟨lhs, mid⟩, hlhs, hchain⟩ := Except.bind_eq_ok_iff.1 h
    obtain ⟨us, rfl, hus⟩ := ih hlt room hlhs
    obtain ⟨us', rfl, hus'⟩ := chain_sound (ih hlt) (.tighter hlt hus) hchain
    exact ⟨us ++ us', by simp, hus'⟩
  | case2 l hge =>
    obtain rfl : l = 6 := by omega
    intro ts e rest h
    rw [operatorsFrom_six] at h
    obtain ⟨us, rfl, hus⟩ := hs room h
    exact ⟨us, rfl, .operand hus⟩

theorem grouped_sound {s : Parser} (hs : ∀ room, Sound Signed (s room)) (room : Nat) :
    Sound (Level 0) (grouped s room) := by
  intro ts e rest h
  cases room with
  | zero => cases h
  | succ room =>
    rw [grouped, ← operatorsFrom_zero] at h
    exact operatorsFrom_sound hs (by omega) room h

section Item

variable {item : List Token → Except ParseError (Expr × List Token)} (hitem : Sound (Level 0) item)
include hitem

theorem argumentList_sound {fuel : Nat} {ts rest : List Token} {es : List Expr}
    (h : argumentList item fuel ts = .ok (es, rest)) : ∃ us, ts = us ++ .rparen :: rest ∧ Items us es := by
  induction fuel generalizing ts es with
  | zero => cases h
  | succ fuel ih =>
    obtain ⟨⟨e, mid⟩, he, htail⟩ := Except.bind_eq_ok_iff.1 h
    obtain ⟨us, rfl, hus⟩ := hitem he
    dsimp only at htail
    split at htail
    next mid =>
      obtain ⟨⟨es', mid'⟩, hes, heq⟩ := Except.bind_eq_ok_iff.1 htail
      cases heq
      obtain ⟨us', rfl, hus'⟩ := ih hes
      exact ⟨us ++ .comma :: us', by simp, .cons hus hus'⟩
    · obtain ⟨mid', hmid, heq⟩ := Except.bind_eq_ok_iff.1 htail
      cases heq
      obtain rfl := expectToken_eq_ok eq_of_matches.1 hmid
      exact ⟨us, rfl, .last hus⟩

theorem callArguments_sound {ts rest : List Token} {es : List Expr} (h : callArguments item ts = .ok (es, rest)) :
    ∃ us, ts = us ++ .rparen :: rest ∧ Arguments us es := by
  unfold callArguments at h
  split at h
  · cases h
    exact ⟨[], rfl, .none⟩
  · obtain ⟨us, rfl, hus⟩ := argumentList_sound hitem h
    exact ⟨us, rfl, .some hus⟩

theorem brackets_sound (fuel : Nat) : Sound Indices (brackets item fuel) := by
  intro ts es rest h
  fun_induction brackets item fuel ts generalizing es with
  | case1 fuel ts ih =>
    obtain ⟨⟨e, mid⟩, he, hmid⟩ := Except.bind_eq_ok_iff.1 h
    obtain ⟨mid', hclose, htail⟩ := Except.bind_eq_ok_iff.1 hmid
    obtain ⟨⟨es', _⟩, hes, heq⟩ := Except.bind_eq_ok_iff.1 htail
    cases heq
    obtain ⟨us, rfl, hus⟩ := hitem he
    obtain rfl := expectToken_eq_ok eq_of_matches.2 hclose
    obtain ⟨us', rfl, hus'⟩ := ih _ hes
    exact ⟨.lbracket :: us ++ .rbracket :: us', by simp, .cons hus hus'⟩
  | case2 =>
    cases h
    exact ⟨[], rfl, .nil⟩

/-- An opening bracket has an index behind it. -/
theorem brackets_lbracket_sound {fuel : Nat} {ts rest : List Token} {es : List Expr}
    (h : brackets item (fuel + 1) (.lbracket :: ts) = .ok (es, rest)) :
    ∃ us e es', .lbracket :: ts = us ++ rest ∧ es = e :: es' ∧ Indices us (e :: es') := by
  obtain ⟨us, hus, hes⟩ := brackets_sound hitem _ h
  cases hes with
  | cons he hes => exact ⟨_, _, _, hus, rfl, .cons he hes⟩
  | nil =>
    obtain ⟨⟨e, mid⟩, he, hmid⟩ := Except.bind_eq_ok_iff.1 h
    obtain ⟨mid', hclose, htail⟩ := Except.bind_eq_ok_iff.1 hmid
    obtain ⟨⟨es', _⟩, hes, heq⟩ := Except.bind_eq_ok_iff.1 htail
    cases heq

theorem primary_sound (p : ParsePolicy) : Sound Primary (primary p item) := by
  intro ts e rest
  fun_cases primary p item ts with
  | case1 => exact nofun
  | case2 v ts =>
    rintro ⟨⟩
    exact ⟨[.number v], rfl, .number v⟩
  | case3 ts =>
    rintro ⟨⟩
    exact ⟨[.true], rfl, .true⟩
  | case4 ts =>
    rintro ⟨⟩
    exact ⟨[.false], rfl, .false⟩
  | case5 ts =>
    intro h
    obtain ⟨⟨e', mid⟩, he, hmid⟩ := Except.bind_eq_ok_iff.1 h
    obtain ⟨mid', hclose, heq⟩ := Except.bind_eq_ok_iff.1 hmid
    cases heq
    obtain ⟨us, rfl, hus⟩ := hitem he
    obtain rfl := expectToken_eq_ok eq_of_matches.1 hclose
    exact ⟨.lparen :: us ++ [.rparen], by simp, .group hus⟩
  | case6 name ts hcalls =>
    intro h
    obtain ⟨⟨args, mid⟩, hargs, heq⟩ := Except.bind_eq_ok_iff.1 h
    cases heq
    obtain ⟨us, rfl, hus⟩ := callArguments_sound hitem hargs
    exact ⟨.ident name :: .lparen :: us ++ [.rparen], by simp, .call name hus⟩
  | case7 => exact nofun
  | case8 name ts _ hname =>
    rintro ⟨⟩
    exact ⟨[.ident name], rfl, .name name⟩
  | case9 => exact nofun
  | case10 => exact nofun

theorem postfixed_sound (p : ParsePolicy) : Sound Postfixed (postfixed p item) := by
  intro ts e rest h
  obtain ⟨⟨e', mid⟩, he, htail⟩ := Except.bind_eq_ok_iff.1 h
  obtain ⟨us, rfl, hus⟩ := primary_sound hitem p he
  dsimp only at htail
  split at htail
  next mid' =>
    split at htail
    · split at htail
      next name =>
        obtain ⟨⟨es, _⟩, hes, heq⟩ := Except.bind_eq_ok_iff.1 htail
        cases heq
        obtain ⟨us', i, is, hmid, rfl, hus'⟩ := brackets_lbracket_sound hitem hes
        exact ⟨us ++ us', by rw [hmid, List.append_assoc], .index hus hus'⟩
      · cases htail
    · cases htail
  · cases htail
    exact ⟨us, rfl, .primary hus⟩

end Item

theorem sign?_sound {ts rest : List Token} {node : Expr → Expr} (h : sign? ts = some (node, rest)) :
    ∃ t, ts = t :: rest ∧ ∀ {us e}, Signed us e → Signed (t :: us) (node e) := by
  unfold sign? at h
  split at h <;> cases h
  · exact ⟨.bang, rfl, .not⟩
  · exact ⟨.minus, rfl, .minus⟩
  · exact ⟨.plus, rfl, .plus⟩

/-- **What the parser takes off a list of tokens is derived**, under every policy. -/
theorem signed_sound (p : ParsePolicy) (fuel room : Nat) : Sound Signed (signed p fuel room) := by
  induction fuel generalizing room with
  | zero => exact fun _ _ _ h => by cases h
  | succ fuel ih =>
    intro ts e rest h
    unfold signed at h
    split at h
    · obtain ⟨us, rfl, hus⟩ := postfixed_sound (grouped_sound ih room) p h
      exact ⟨us, rfl, .unsigned hus⟩
    next node rest' hsign =>
      obtain ⟨t, rfl, ht⟩ := sign?_sound hsign
      cases room with
      | zero => cases h
      | succ room =>
        obtain ⟨⟨e', mid⟩, he, heq⟩ := Except.bind_eq_ok_iff.1 h
        cases heq
        obtain ⟨us, rfl, hus⟩ := ih room he
        exact ⟨t :: us, rfl, ht hus⟩

theorem ofTokens_sound {p : ParsePolicy} {ts : List Token} {e : Expr} (h : ofTokens p ts = .ok e) :
    Level 0 ts e := by
  obtain ⟨⟨e', rest⟩, he, hrest⟩ := Except.bind_eq_ok_iff.1 h
  obtain ⟨us, rfl, hus⟩ := grouped_sound (signed_sound p maxDepth) maxDepth he
  dsimp only at hrest
  split at hrest
  · cases hrest
    rwa [List.append_nil]
  · cases hrest

/-! ### Completeness -/

/-- The result is `a`, unless something is nested too deeply. -/
def Yields {α : Type} (x : Except ParseError α) (a : α) : Prop := x = .ok a ∨ x = .error .tooDeep

theorem Yields.ok {α : Type} (a : α) : Yields (.ok a) a := .inl rfl

theorem Yields.tooDeep {α : Type} (a : α) : Yields (.error .tooDeep) a := .inr rfl

theorem Yields.bind {α β : Type} {x : Except ParseError α} {f : α → Except ParseError β} {a : α} {b : β}
    (hx : Yields x a) (hf : Yields (f a) b) : Yields (x >>= f) b := by
  obtain rfl | rfl := hx
  · exact hf
  · exact .tooDeep b

/-- No expression of level `l` goes on with what comes next: that is no operator of the level or of a tighter one,
and opens neither an index nor a list of arguments. -/
def Stops (l : Nat) (rest : List Token) : Prop :=
  ∀ ⦃t : Token⦄, rest.head? = some t → (∀ k op, l ≤ k → ¬ Operator k t op) ∧ t ≠ .lbracket ∧ t ≠ .lparen

theorem Stops.mono {k l : Nat} {rest : List Token} (h : Stops k rest) (hkl : k ≤ l) : Stops l rest :=
  fun _ ht => ⟨fun j op hj => (h ht).1 j op (Nat.le_trans hkl hj), (h ht).2⟩

/-- No operator is tighter than an operand. -/
theorem Stops.operand {l : Nat} {rest : List Token} (h : Stops l rest) : Stops 6 rest := by
  refine fun t ht => ⟨fun k op hk hop => ?_, (h ht).2⟩
  cases hop <;> omega

theorem Stops.head_ne_lbracket {l : Nat} {rest : List Token} (h : Stops l rest) : rest.head? ≠ some .lbracket :=
  fun ht => (h ht).2.1 rfl

theorem Stops.head_ne_lparen {l : Nat} {rest : List Token} (h : Stops l rest) : rest.head? ≠ some .lparen :=
  fun ht => (h ht).2.2 rfl

theorem stops_nil (l : Nat) : Stops l [] := nofun

theorem stops_delimiter (l : Nat) {t : Token} (h : t ∈ [Token.rparen, .rbracket, .comma]) (rest : List Token) :
    Stops l (t :: rest) := by
  rintro t ⟨⟩
  simp only [List.mem_cons, List.not_mem_nil, or_false] at h
  obtain rfl | rfl | rfl := h <;> exact ⟨nofun, nofun, nofun⟩

theorem stops_operator {l : Nat} {t : Token} {op : BinaryOp} (h : Operator l t op) (rest : List Token) :
    Stops (l + 1) (t :: rest) := by
  intro t ht
  cases ht
  refine ⟨fun k op' hk h' => ?_, ?_, ?_⟩
  · have := h.level_unique h'
    omega
  all_goals
    rintro rfl
    cases h

theorem chain_of_stops {l : Nat} {rest : List Token} (h : Stops l rest) (operand : Parser) (room : Nat) (e : Expr) :
    chain l operand room e rest = .ok (e, rest) := by
  cases rest with
  | nil => exact chain_nil room
  | cons t ts =>
    have hnone : BinaryOp.ofToken? l t = none :=
      Option.eq_none_iff_forall_ne_some.2 fun op hop =>
        (h rfl).1 l op (Nat.le_refl l) (ofToken?_eq_some_iff.1 hop)
    exact chain_stop hnone room

variable {p : ParsePolicy}

/-- The tree of a derivation, if the policy allows it, is what a reader makes of its tokens before tokens `F`. -/
def Complete (p : ParsePolicy) (G : List Token → Expr → Prop) (F : List Token → Prop)
    (x : List Token → Except ParseError (Expr × List Token)) : Prop :=
  ∀ ⦃ts : List Token⦄ ⦃e : Expr⦄ ⦃rest : List Token⦄, G ts e → e.conforms p → F rest →
    Yields (x (ts ++ rest)) (e, rest)

/-- A level of operators gets through a derivation to where it looks for its next operator. -/
theorem operatorsFrom_derives {s : Parser} (hs : ∀ room, Complete p Signed (Stops 6) (s room)) {l : Nat}
    {ts : List Token} {e : Expr} (h : Level l ts e) (hp : e.conforms p) (room : Nat) {rest : List Token}
    (hrest : Stops (l + 1) rest) :
    (∃ room', operatorsFrom s l room (ts ++ rest) = chain l (operatorsFrom s (l + 1)) room' e rest) ∨
      operatorsFrom s l room (ts ++ rest) = .error .tooDeep := by
  match h with
  | .operand h =>
    rw [operatorsFrom_six]
    obtain hok | herr := hs room h hp hrest.operand
    · refine .inl ⟨room, ?_⟩
      rw [hok, chain_of_stops hrest.operand]
    · exact .inr herr
  | .tighter hl h =>
    rw [operatorsFrom_of_lt s hl]
    obtain ⟨room', hok⟩ | herr := operatorsFrom_derives hs h hp room (hrest.mono (Nat.le_succ _))
    · refine .inl ⟨room, ?_⟩
      rw [chain_of_stops hrest] at hok
      rw [level, hok]
      rfl
    · exact .inr (by rw [level, herr]; rfl)
  | .binary hlhs hop hrhs =>
    obtain ⟨hpl, hpr⟩ := conforms_binary.1 hp
    rw [List.append_assoc, List.cons_append]
    obtain ⟨room', hok⟩ | herr := operatorsFrom_derives hs hlhs hpl room (stops_operator hop _)
    · cases room' with
      | zero => exact .inr (by rw [hok, chain_zero (ofToken?_eq_some_iff.2 hop)])
      | succ room' =>
        rw [hok, chain_succ (ofToken?_eq_some_iff.2 hop)]
        obtain ⟨room'', hok'⟩ | herr := operatorsFrom_derives hs hrhs hpr room' (hrest.mono (Nat.le_succ _))
        · rw [hok', chain_of_stops hrest]
          exact .inl ⟨room', rfl⟩
        · rw [herr]
          exact .inr rfl
    · exact .inr herr
termination_by structural h

theorem grouped_complete {s : Parser} (hs : ∀ room, Complete p Signed (Stops 6) (s room)) (room : Nat) :
    Complete p (Level 0) (Stops 0) (grouped s room) := by
  intro ts e rest h hp hrest
  cases room with
  | zero => exact .tooDeep _
  | succ room =>
    rw [grouped, ← operatorsFrom_zero]
    obtain ⟨room', hok⟩ | herr := operatorsFrom_derives hs h hp room (hrest.mono (Nat.zero_le 1))
    · rw [hok, chain_of_stops hrest]
      exact .ok _
    · rw [herr]
      exact .tooDeep _

section Item

variable {item : List Token → Except ParseError (Expr × List Token)} (hitem : Complete p (Level 0) (Stops 0) item)
include hitem

theorem argumentList_complete {ts : List Token} {es : List Expr} (h : Items ts es) (hp : conformsAll p es)
    {fuel : Nat} (hfuel : ts.length ≤ fuel) (rest : List Token) :
    Yields (argumentList item fuel (ts ++ .rparen :: rest)) (es, rest) := by
  match fuel, h with
  | 0, h =>
    obtain ⟨t, us, rfl, -⟩ := h.starts
    cases hfuel
  | fuel + 1, .last h => exact (hitem h (conformsAll_cons.1 hp).1 (stops_delimiter 0 (by simp) rest)).bind (.ok _)
  | fuel + 1, .cons he hes =>
    obtain ⟨hpe, hpes⟩ := conformsAll_cons.1 hp
    rw [List.length_append, List.length_cons] at hfuel
    rw [List.append_assoc, List.cons_append]
    refine (hitem he hpe (stops_delimiter 0 (by simp) _)).bind ?_
    exact (argumentList_complete hes hpes (by omega) rest).bind (.ok _)
termination_by structural h

theorem callArguments_complete {ts : List Token} {es : List Expr} (h : Arguments ts es) (hp : conformsAll p es)
    (rest : List Token) : Yields (callArguments item (ts ++ .rparen :: rest)) (es, rest) := by
  cases h with
  | none => exact .ok _
  | some h =>
    obtain ⟨t, us, rfl, ht⟩ := h.starts
    rw [callArguments]
    · exact argumentList_complete hitem h hp (by simp) rest
    · rintro rest' ⟨⟩
      exact ht.ne_rparen rfl

theorem brackets_complete {ts : List Token} {es : List Expr} (h : Indices ts es) (hp : conformsAll p es)
    {fuel : Nat} (hfuel : ts.length ≤ fuel) {rest : List Token} (hrest : rest.head? ≠ some .lbracket) :
    Yields (brackets item fuel (ts ++ rest)) (es, rest) := by
  match fuel, h with
  | fuel, .nil =>
    rw [List.nil_append, brackets_stop item hrest]
    exact .ok _
  | fuel + 1, .cons he hes =>
    obtain ⟨hpe, hpes⟩ := conformsAll_cons.1 hp
    simp only [List.length_append, List.length_cons] at hfuel
    simp only [List.append_assoc, List.cons_append]
    refine (hitem he hpe (stops_delimiter 0 (by simp) _)).bind ?_
    exact (Yields.ok _).bind ((brackets_complete hes hpes (by omega) hrest).bind (.ok _))
termination_by structural h

theorem primary_complete {ts : List Token} {e : Expr} (h : Primary ts e) (hp : e.conforms p) {rest : List Token}
    (hrest : rest.head? ≠ some .lparen) : Yields (primary p item (ts ++ rest)) (e, rest) := by
  cases h with
  | number v => exact .ok _
  | true => exact .ok _
  | false => exact .ok _
  | name name =>
    have hname : p.admits name := hp
    rw [List.singleton_append, primary_name p item hrest, if_pos hname]
    exact .ok _
  | call name hargs =>
    obtain ⟨hcalls, hpargs⟩ := conforms_call.1 hp
    simp only [List.cons_append, List.append_assoc]
    rw [primary, if_pos hcalls]
    exact (callArguments_complete hitem hargs hpargs rest).bind (.ok _)
  | group he =>
    simp only [List.cons_append, List.append_assoc]
    exact (hitem he hp (stops_delimiter 0 (by simp) rest)).bind (.ok _)

theorem postfixed_complete : Complete p Postfixed (Stops 6) (postfixed p item) := by
  intro ts e rest h hp hrest
  cases h with
  | primary h =>
    refine (primary_complete hitem h hp hrest.head_ne_lparen).bind ?_
    dsimp only
    split
    · exact absurd rfl hrest.head_ne_lbracket
    · exact .ok _
  | @index _ us _ _ _ h hindices =>
    obtain ⟨hindexing, hname, hpes⟩ := conforms_index.1 hp
    obtain ⟨us', rfl⟩ := hindices.starts
    rw [List.append_assoc]
    refine (primary_complete hitem h hname (by simp)).bind ?_
    have hlen : (Token.lbracket :: us').length ≤ (Token.lbracket :: us' ++ rest).length := by simp
    dsimp only [List.cons_append]
    rw [if_pos hindexing]
    exact (brackets_complete hitem hindices hpes hlen hrest.head_ne_lbracket).bind (.ok _)

end Item

/-- **Of what is derived and allowed the parser makes its tree**, unless it is nested too deeply. -/
theorem signed_complete (p : ParsePolicy) (fuel room : Nat) :
    Complete p Signed (Stops 6) (signed p fuel room) := by
  induction fuel generalizing room with
  | zero => exact fun _ _ _ _ _ _ => .tooDeep _
  | succ fuel ih =>
    intro ts e rest h hp hrest
    have one {ts : List Token} {e : Expr} {node : Expr → Expr} (h : Signed ts e) (hp : e.conforms p) (t : Token)
        (hsign : sign? (t :: (ts ++ rest)) = some (node, ts ++ rest)) :
        Yields (signed p (fuel + 1) room (t :: (ts ++ rest))) (node e, rest) := by
      rw [signed, hsign]
      cases room with
      | zero => exact .tooDeep _
      | succ room => exact (ih room h hp hrest).bind (.ok _)
    cases h with
    | not h => exact one h hp .bang rfl
    | minus h => exact one h hp .minus rfl
    | plus h => exact one h hp .plus rfl
    | unsigned h =>
      have hnone : sign? (ts ++ rest) = none := by
        obtain ⟨t, us, rfl, ht⟩ := h.opens
        cases ht <;> rfl
      rw [signed, hnone]
      exact postfixed_complete (grouped_complete ih room) h hp hrest

theorem ofTokens_yields {ts : List Token} {e : Expr} (h : Level 0 ts e) (hp : e.conforms p) :
    Yields (ofTokens p ts) e := by
  have := grouped_complete (signed_complete p maxDepth) maxDepth h hp (stops_nil 0)
  rw [List.append_nil] at this
  exact this.bind (.ok _)

theorem ofTokens_complete {ts : List Token} {e : Expr} (h : Level 0 ts e) : Yields (ofTokens .permissive ts) e :=
  ofTokens_yields h (conforms_permissive e)

/-- **Parsing is sound and complete for the grammar**: the tree that the parser makes of a list of tokens is that of
a derivation of them, and of the tokens of a derivation it makes that derivation's tree, unless it finds them nested
too deeply.  A text is parsed by its tokens, and `===` and `!==` are the tokens of `==` and `!=`. -/
theorem ofTokens_derives (ts : List Token) (e : Expr) :
    (ofTokens .permissive ts = .ok e → Level 0 ts e) ∧
      (Level 0 ts e → ofTokens .permissive ts = .ok e ∨ ofTokens .permissive ts = .error .tooDeep) ∧
      (∀ text, Token.scan text = .ok ts → parse .permissive text = ofTokens .permissive ts) ∧
      ∀ offset cs, Token.scanOne offset '=' ('=' :: '=' :: cs) = .ok (.eqEq, cs) ∧
        Token.scanOne offset '!' ('=' :: '=' :: cs) = .ok (.notEq, cs) := by
  refine ⟨ofTokens_sound, ofTokens_complete, fun text h => ?_, fun _ _ => ⟨rfl, rfl⟩⟩
  rw [parse, h]
  rfl

example : ofTokens .permissive [.ident "a", .minus, .ident "b", .minus, .plus, .ident "c", .star, .ident "d"] =
    .ok (.binary .sub (.binary .sub (.ident "a") (.ident "b")) (.binary .mul (.ident "c") (.ident "d"))) := by
  rfl

end Expr

end RunningLights
