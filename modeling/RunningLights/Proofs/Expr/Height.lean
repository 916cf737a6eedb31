import RunningLights.Proofs.Expr.Parsing
import RunningLights.Proofs.Expr.Printing

/-!
# The height of trees

The levels that a parser may open bound the trees that it makes:

* `Expr.height` — the height of a tree;
* `Expr.tallestOperand`, `Expr.tallest` — the bound for operands and for each level of operators, by the room left;
* `Expr.signed_height`, `Expr.height_le_of_parse` — no tree is higher;
* `Expr.exists_signed_tallOperand`, `Expr.exists_parse_height` — some trees are as high.

A chain of operators opens a level for each of them, and its tree grows by one with each on the left side.  The levels
are free again behind the chain, so the chains of all six levels of operators add up over one operand.  A node over a
group costs a level, and in the group there are six chains again.
-/

namespace RunningLights.Expr

open Grammar

mutual

/-- The height of a tree; a leaf counts one. -/
def height : Expr → Nat
  | .literal _ => 1
  | .ident _ => 1
  | .unary _ e => e.height + 1
  | .binary _ l r => max l.height r.height + 1
  | .index _ es => heightAll es + 1
  | .call _ es => heightAll es + 1

def heightAll : List Expr → Nat
  | [] => 0
  | e :: es => max e.height (heightAll es)

end

theorem height_pos (e : Expr) : 0 < e.height := by
  cases e <;> simp only [height] <;> omega

/-! ### The bounds -/

/-- The height of the tallest operand in a room: of a node over the tallest group, which opens a level and has a chain
on each of the six levels of operators. -/
def tallestOperand : Nat → Nat
  | 0 => 1
  | room + 1 => tallestOperand room + 6 * room + 1

/-- The height of the tallest expression of a level of operators in a room. -/
def tallest (l room : Nat) : Nat := tallestOperand room + (6 - l) * room

theorem tallest_six (room : Nat) : tallest 6 room = tallestOperand room := by
  simp [tallest]

theorem tallest_of_lt {l : Nat} (h : l < 6) (room : Nat) : tallest l room = tallest (l + 1) room + room := by
  have hl : 6 - l = 6 - (l + 1) + 1 := by omega
  rw [tallest, tallest, hl, Nat.add_mul, Nat.one_mul, Nat.add_assoc]

theorem tallestOperand_succ (room : Nat) : tallestOperand (room + 1) = tallest 0 room + 1 := rfl

theorem tallestOperand_mono {room room' : Nat} (h : room ≤ room') : tallestOperand room ≤ tallestOperand room' := by
  induction h with
  | refl => exact Nat.le_refl _
  | step _ ih =>
    rw [tallestOperand]
    omega

theorem tallestOperand_pos (room : Nat) : 0 < tallestOperand room := tallestOperand_mono (Nat.zero_le room)

/-- The bound in a closed form: `3 * room ^ 2 - 2 * room + 1`. -/
theorem tallestOperand_add (room : Nat) : tallestOperand room + 2 * room = 3 * (room * room) + 1 := by
  induction room with
  | zero => rfl
  | succ room ih =>
    simp only [tallestOperand, Nat.add_mul, Nat.mul_add]
    omega

theorem tallestOperand_maxDepth : tallestOperand maxDepth = 12161 := by
  have h := tallestOperand_add maxDepth
  unfold maxDepth at h ⊢
  omega

theorem tallest_mono (l : Nat) {room room' : Nat} (h : room ≤ room') : tallest l room ≤ tallest l room' :=
  Nat.add_le_add (tallestOperand_mono h) (Nat.mul_le_mul_left _ h)

/-! ### No tree is higher -/

/-- The trees that a parser makes in a room are within a bound for the room. -/
def Within (bound : Nat → Nat) (x : Parser) : Prop :=
  ∀ ⦃room : Nat⦄ ⦃ts : List Token⦄ ⦃e : Expr⦄ ⦃rest : List Token⦄, x room ts = .ok (e, rest) → e.height ≤ bound room

/-- What has been read and all that the chain may still add stay within the bound of the room that the chain
started in. -/
theorem chain_height {l : Nat} (hl : l < 6) {operand : Parser} (hop : Within (tallest (l + 1)) operand)
    {start room : Nat} (hroom : room ≤ start) {lhs e : Expr} {ts rest : List Token}
    (hlhs : lhs.height + room ≤ tallest l start) (h : chain l operand room lhs ts = .ok (e, rest)) :
    e.height ≤ tallest l start := by
  fun_induction chain l operand room lhs ts with
  | case1 room lhs =>
    cases h
    omega
  | case2 room lhs t ts hnone =>
    cases h
    omega
  | case3 lhs t ts op hsome => cases h
  | case4 lhs t ts op hsome room ih =>
    obtain ⟨⟨rhs, mid⟩, hrhs, hchain⟩ := Except.bind_eq_ok_iff.1 h
    -- Even over the right operand the rest of the chain has room: its tree is one of the tighter level.
    have hright : rhs.height + (room + 1) ≤ tallest l start := by
      rw [tallest_of_lt hl]
      exact Nat.add_le_add (Nat.le_trans (hop hrhs) (tallest_mono _ (by omega))) hroom
    refine ih rhs mid (by omega) ?_ hchain
    rw [height]
    omega

theorem operatorsFrom_height {s : Parser} (hs : Within tallestOperand s) {l : Nat} (hl : l ≤ 6) :
    Within (tallest l) (operatorsFrom s l) := by
  induction l using operatorsFrom.induct with
  | case1 l hlt ih =>
    intro room ts e rest h
    rw [operatorsFrom_of_lt s hlt] at h
    obtain ⟨⟨lhs, mid⟩, hlhs, hchain⟩ := Except.bind_eq_ok_iff.1 h
    refine chain_height hlt (ih hlt) (Nat.le_refl room) ?_ hchain
    rw [tallest_of_lt hlt]
    exact Nat.add_le_add_right (ih hlt hlhs) room
  | case2 l hge =>
    obtain rfl : l = 6 := by omega
    intro room ts e rest h
    rw [operatorsFrom_six] at h
    rw [tallest_six]
    exact hs h

/-- There is a node of height left above a group. -/
theorem grouped_height {s : Parser} (hs : Within tallestOperand s) {room : Nat} {ts rest : List Token} {e : Expr}
    (h : grouped s room ts = .ok (e, rest)) : e.height < tallestOperand room := by
  cases room with
  | zero => cases h
  | succ room =>
    rw [grouped, ← operatorsFrom_zero] at h
    rw [tallestOperand_succ]
    exact Nat.lt_succ_of_le (operatorsFrom_height hs (Nat.zero_le 6) h)

section Item

variable {n : Nat} {item : List Token → Except ParseError (Expr × List Token)}
  (hitem : ∀ ⦃ts e rest⦄, item ts = .ok (e, rest) → e.height < n)
include hitem

theorem argumentList_height {fuel : Nat} {ts rest : List Token} {es : List Expr}
    (h : argumentList item fuel ts = .ok (es, rest)) : heightAll es < n := by
  induction fuel generalizing ts es with
  | zero => cases h
  | succ fuel ih =>
    obtain ⟨⟨e, mid⟩, he, htail⟩ := Except.bind_eq_ok_iff.1 h
    have hheight := hitem he
    dsimp only at htail
    split at htail
    · obtain ⟨⟨es', mid'⟩, hes, heq⟩ := Except.bind_eq_ok_iff.1 htail
      cases heq
      exact Nat.max_lt.2 ⟨hheight, ih hes⟩
    · obtain ⟨mid', hmid, heq⟩ := Except.bind_eq_ok_iff.1 htail
      cases heq
      exact Nat.max_lt.2 ⟨hheight, Nat.zero_lt_of_lt hheight⟩

variable (hn : 0 < n)
include hn

theorem callArguments_height {ts rest : List Token} {es : List Expr} (h : callArguments item ts = .ok (es, rest)) :
    heightAll es < n := by
  unfold callArguments at h
  split at h
  · cases h
    exact hn
  · exact argumentList_height hitem h

theorem brackets_height {fuel : Nat} {ts rest : List Token} {es : List Expr}
    (h : brackets item fuel ts = .ok (es, rest)) : heightAll es < n := by
  fun_induction brackets item fuel ts generalizing es with
  | case1 fuel ts ih =>
    obtain ⟨⟨e, mid⟩, he, hmid⟩ := Except.bind_eq_ok_iff.1 h
    obtain ⟨mid', -, htail⟩ := Except.bind_eq_ok_iff.1 hmid
    obtain ⟨⟨es', _⟩, hes, heq⟩ := Except.bind_eq_ok_iff.1 htail
    cases heq
    exact Nat.max_lt.2 ⟨hitem he, ih _ hes⟩
  | case2 =>
    cases h
    exact hn

theorem primary_height {p : ParsePolicy} {ts rest : List Token} {e : Expr} (h : primary p item ts = .ok (e, rest)) :
    e.height ≤ n := by
  have leaf : 1 ≤ n := hn
  revert h
  fun_cases primary p item ts with
  | case1 | case7 | case9 | case10 =>
    intro h
    cases h
  | case2 | case3 | case4 =>
    rintro ⟨⟩
    exact leaf
  | case5 ts =>
    intro h
    obtain ⟨⟨e', mid⟩, he, hmid⟩ := Except.bind_eq_ok_iff.1 h
    obtain ⟨mid', -, heq⟩ := Except.bind_eq_ok_iff.1 hmid
    cases heq
    exact Nat.le_of_lt (hitem he)
  | case6 name ts hcalls =>
    intro h
    obtain ⟨⟨args, mid⟩, hargs, heq⟩ := Except.bind_eq_ok_iff.1 h
    cases heq
    exact callArguments_height hitem hn hargs
  | case8 name ts _ hname =>
    rintro ⟨⟩
    exact leaf

theorem postfixed_height {p : ParsePolicy} {ts rest : List Token} {e : Expr}
    (h : postfixed p item ts = .ok (e, rest)) : e.height ≤ n := by
  obtain ⟨⟨e', mid⟩, he, htail⟩ := Except.bind_eq_ok_iff.1 h
  dsimp only at htail
  split at htail
  · split at htail
    · split at htail
      · obtain ⟨⟨es, _⟩, hes, heq⟩ := Except.bind_eq_ok_iff.1 htail
        cases heq
        exact brackets_height hitem hn hes
      · cases htail
    · cases htail
  · cases htail
    exact primary_height hitem hn he

end Item

theorem sign?_height {ts rest : List Token} {node : Expr → Expr} (h : sign? ts = some (node, rest)) (e : Expr) :
    (node e).height ≤ e.height + 1 := by
  unfold sign? at h
  split at h <;> cases h
  · exact Nat.le_refl _
  · exact Nat.le_refl _
  · exact Nat.le_succ _

/-- **No operand is higher than the tallest one of its room.** -/
theorem signed_height (p : ParsePolicy) (fuel : Nat) : Within tallestOperand (signed p fuel) := by
  induction fuel with
  | zero => exact fun _ _ _ _ h => by cases h
  | succ fuel ih =>
    intro room ts e rest h
    unfold signed at h
    split at h
    · exact postfixed_height (fun _ _ _ => grouped_height ih) (tallestOperand_pos room) h
    next node rest' hsign =>
      cases room with
      | zero => cases h
      | succ room =>
        obtain ⟨⟨e', mid⟩, he, heq⟩ := Except.bind_eq_ok_iff.1 h
        cases heq
        calc (node e').height ≤ e'.height + 1 := sign?_height hsign e'
          _ ≤ tallestOperand room + 1 := Nat.succ_le_succ (ih he)
          _ ≤ tallestOperand (room + 1) := by rw [tallestOperand]; omega

theorem ofTokens_height {p : ParsePolicy} {ts : List Token} {e : Expr} (h : ofTokens p ts = .ok e) :
    e.height < tallestOperand maxDepth := by
  obtain ⟨⟨e', rest⟩, he, hrest⟩ := Except.bind_eq_ok_iff.1 h
  dsimp only at hrest
  split at hrest
  · cases hrest
    exact grouped_height (signed_height p maxDepth) he
  · cases hrest

/-! ### Some trees are as high -/

def one : Token := .number (.int 1)

def operatorOf : Nat → Token
  | 0 => .orOr
  | 1 => .andAnd
  | 2 => .eqEq
  | 3 => .lt
  | 4 => .plus
  | _ => .star

theorem exists_operator {l : Nat} (h : l < 6) : ∃ op, Operator l (operatorOf l) op := by
  match l, h with
  | 0, _ => exact ⟨_, .or⟩
  | 1, _ => exact ⟨_, .and⟩
  | 2, _ => exact ⟨_, .eq⟩
  | 3, _ => exact ⟨_, .lt⟩
  | 4, _ => exact ⟨_, .add⟩
  | 5, _ => exact ⟨_, .mul⟩

/-- As many operators of a level, with a number behind each. -/
def links (l : Nat) : Nat → List Token
  | 0 => []
  | n + 1 => operatorOf l :: one :: links l n

/-- The operators of all levels from one on, on each as many as there is room for; the tightest come first. -/
def linksFrom (room l : Nat) : List Token :=
  if l < 6 then linksFrom room (l + 1) ++ links l room else []
termination_by 6 - l

/-- The tokens of a tallest operand: calls with one argument each, and in the arguments chains on all levels. -/
def tallOperand : Nat → List Token
  | 0 => [one]
  | room + 1 => .ident "f" :: .lparen :: (tallOperand room ++ linksFrom room 0 ++ [.rparen])

theorem linksFrom_of_lt (room : Nat) {l : Nat} (h : l < 6) :
    linksFrom room l = linksFrom room (l + 1) ++ links l room := by
  rw [linksFrom, if_pos h]

theorem linksFrom_six (room : Nat) : linksFrom room 6 = [] := by
  rw [linksFrom, if_neg (by omega)]

theorem stops_links {l : Nat} (h : l < 6) (n : Nat) {rest : List Token} (hrest : Stops (l + 1) rest) :
    Stops (l + 1) (links l n ++ rest) := by
  cases n with
  | zero => exact hrest
  | succ n =>
    obtain ⟨op, hop⟩ := exists_operator h
    exact stops_operator hop _

/-- A chain of numbers has as many nodes above its first operand as there is room for. -/
theorem exists_chain_links {l : Nat} (hl : l < 6) {operand : Parser}
    (hone : ∀ room rest, Stops (l + 1) rest → operand room (one :: rest) = .ok (.literal (.int 1), rest))
    (room : Nat) (lhs : Expr) : ∃ e : Expr, e.height = lhs.height + room ∧
      ∀ rest, Stops l rest → chain l operand room lhs (links l room ++ rest) = .ok (e, rest) := by
  induction room generalizing lhs with
  | zero => exact ⟨lhs, rfl, fun rest hrest => chain_of_stops hrest operand 0 lhs⟩
  | succ room ih =>
    obtain ⟨op, hop⟩ := exists_operator hl
    obtain ⟨e, hheight, he⟩ := ih (.binary op lhs (.literal (.int 1)))
    refine ⟨e, ?_, fun rest hrest => ?_⟩
    · have hpos := lhs.height_pos
      rw [hheight, height, height]
      omega
    · have hnext := hone room _ (stops_links hl room (hrest.mono (Nat.le_succ l)))
      rw [links, List.cons_append, List.cons_append, chain_succ (ofToken?_eq_some_iff.2 hop), hnext]
      exact he rest hrest

theorem operatorsFrom_operand {s : Parser} {l room : Nat} (hl : l ≤ 6) {ts rest : List Token} {e : Expr}
    (h : s room ts = .ok (e, rest)) (hrest : Stops l rest) : operatorsFrom s l room ts = .ok (e, rest) := by
  induction l using operatorsFrom.induct with
  | case1 l hlt ih =>
    rw [operatorsFrom_of_lt s hlt, level, ih hlt (hrest.mono (Nat.le_succ l))]
    exact chain_of_stops hrest _ room e
  | case2 l hge =>
    obtain rfl : l = 6 := by omega
    rw [operatorsFrom_six]
    exact h

/-- Over an operand, the chains of the levels add up. -/
theorem exists_operatorsFrom_links {s : Parser}
    (hone : ∀ room rest, Stops 6 rest → s room (one :: rest) = .ok (.literal (.int 1), rest)) {room : Nat}
    {ts : List Token} {e : Expr} (hs : ∀ rest, Stops 6 rest → s room (ts ++ rest) = .ok (e, rest)) {l : Nat}
    (hl : l ≤ 6) : ∃ e' : Expr, e'.height = e.height + (6 - l) * room ∧
      ∀ rest, Stops l rest → operatorsFrom s l room (ts ++ linksFrom room l ++ rest) = .ok (e', rest) := by
  induction l using operatorsFrom.induct with
  | case1 l hlt ih =>
    -- The tree of the tighter levels is the left end of the chain of this one, whose operands are numbers.
    obtain ⟨e₁, hheight₁, he₁⟩ := ih hlt
    have hnumber (room : Nat) (rest : List Token) (hrest : Stops (l + 1) rest) :
        operatorsFrom s (l + 1) room (one :: rest) = .ok (.literal (.int 1), rest) :=
      operatorsFrom_operand hlt (hone room rest hrest.operand) hrest
    obtain ⟨e₂, hheight₂, he₂⟩ := exists_chain_links hlt hnumber room e₁
    refine ⟨e₂, ?_, fun rest hrest => ?_⟩
    · have hlevels : 6 - l = 6 - (l + 1) + 1 := by omega
      rw [hheight₂, hheight₁, hlevels, Nat.add_mul, Nat.one_mul, Nat.add_assoc]
    · have hlinks := stops_links hlt room (hrest.mono (Nat.le_succ l))
      rw [linksFrom_of_lt room hlt, ← List.append_assoc, List.append_assoc _ (links l room),
        operatorsFrom_of_lt s hlt, level, he₁ _ hlinks]
      exact he₂ rest hrest
  | case2 l hge =>
    obtain rfl : l = 6 := by omega
    refine ⟨e, by simp, fun rest hrest => ?_⟩
    rw [linksFrom_six, List.append_nil, operatorsFrom_six]
    exact hs rest hrest

theorem postfixed_of_primary {p : ParsePolicy} {item : List Token → Except ParseError (Expr × List Token)}
    {ts rest : List Token} {e : Expr} (h : primary p item ts = .ok (e, rest)) (hrest : rest.head? ≠ some .lbracket) :
    postfixed p item ts = .ok (e, rest) := by
  rw [postfixed, h]
  simp only [bind, Except.bind]
  split
  · exact absurd rfl hrest
  · rfl

theorem callArguments_single {item : List Token → Except ParseError (Expr × List Token)} {ts rest : List Token}
    {e : Expr} {t : Token} (ht : t ≠ .rparen) (h : item (t :: ts) = .ok (e, .rparen :: rest)) :
    callArguments item (t :: ts) = .ok ([e], rest) := by
  rw [callArguments, List.length_cons, argumentList, h]
  · rfl
  · rintro _ ⟨⟩
    exact ht rfl

theorem signed_one (p : ParsePolicy) (fuel room : Nat) {rest : List Token} (hrest : Stops 6 rest) :
    signed p (fuel + 1) room (one :: rest) = .ok (.literal (.int 1), rest) :=
  postfixed_of_primary rfl hrest.head_ne_lbracket

theorem signed_call {fuel room : Nat} {name : String} {ts rest : List Token} {e : Expr}
    (h : grouped (signed .permissive fuel) room ts = .ok (e, .rparen :: rest)) (hrest : Stops 6 rest) :
    signed .permissive (fuel + 1) room (.ident name :: .lparen :: ts) = .ok (.call name [e], rest) := by
  obtain ⟨us, rfl, hus⟩ := grouped_sound (signed_sound .permissive fuel) room h
  obtain ⟨t, us, rfl, ht⟩ := hus.starts
  have hcalls : ParsePolicy.permissive.calls = true := rfl
  refine postfixed_of_primary ?_ hrest.head_ne_lbracket
  rw [List.cons_append] at h ⊢
  rw [primary, if_pos hcalls, callArguments_single ht.ne_rparen h]
  rfl

/-- **Some operand of each room is as high as the bound.** -/
theorem exists_signed_tallOperand (room : Nat) {fuel : Nat} (hfuel : room < fuel) :
    ∃ e : Expr, e.height = tallestOperand room ∧
      ∀ rest, Stops 6 rest → signed .permissive fuel room (tallOperand room ++ rest) = .ok (e, rest) := by
  induction room generalizing fuel with
  | zero =>
    obtain ⟨fuel, rfl⟩ := Nat.exists_eq_add_of_lt hfuel
    exact ⟨.literal (.int 1), rfl, fun rest hrest => signed_one _ _ 0 hrest⟩
  | succ room ih =>
    -- One is used up by the call, another by the numbers in its argument.
    obtain ⟨fuel, rfl⟩ : ∃ n, fuel = n + 1 := ⟨fuel - 1, by omega⟩
    obtain ⟨inner, rfl⟩ : ∃ n, fuel = n + 1 := ⟨fuel - 1, by omega⟩
    obtain ⟨e, hheight, he⟩ := ih (show room < inner + 1 by omega)
    obtain ⟨e', hheight', he'⟩ := exists_operatorsFrom_links
      (fun room rest hrest => signed_one .permissive inner room hrest) he (Nat.zero_le 6)
    refine ⟨.call "f" [e'], ?_, fun rest hrest => ?_⟩
    · rw [height, heightAll, heightAll, Nat.max_zero, hheight', hheight]
      rfl
    · have hgroup : grouped (signed .permissive (inner + 1)) (room + 1)
          (tallOperand room ++ linksFrom room 0 ++ (.rparen :: rest)) = .ok (e', .rparen :: rest) := by
        rw [grouped, ← operatorsFrom_zero]
        exact he' _ (stops_delimiter 0 (by simp) rest)
      rw [tallOperand, List.cons_append, List.cons_append, List.append_assoc]
      exact signed_call hgroup hrest

/-! ### The greatest height -/

theorem printable_operatorOf (l : Nat) : (operatorOf l).Printable := by
  unfold operatorOf
  split <;> trivial

theorem printable_one : one.Printable := by
  show (0 : Int) ≤ (1 : Int64).toInt
  decide

theorem printable_links (l n : Nat) : ∀ t ∈ links l n, t.Printable := by
  induction n with
  | zero => exact nofun
  | succ n ih => exact List.forall_mem_cons.2 ⟨printable_operatorOf l, List.forall_mem_cons.2 ⟨printable_one, ih⟩⟩

theorem printable_linksFrom (room l : Nat) : ∀ t ∈ linksFrom room l, t.Printable := by
  fun_induction linksFrom room l with
  | case1 l hl ih => exact List.forall_mem_append.2 ⟨ih, printable_links l room⟩
  | case2 l hl => exact nofun

theorem printable_tallOperand (room : Nat) : ∀ t ∈ tallOperand room, t.Printable := by
  induction room with
  | zero => exact List.forall_mem_singleton.2 printable_one
  | succ room ih =>
    have hname : (Token.ident "f").Printable := ⟨.name (Token.isName_singleton rfl), by decide, by decide⟩
    refine List.forall_mem_cons.2 ⟨hname, List.forall_mem_cons.2 ⟨trivial, ?_⟩⟩
    exact List.forall_mem_append.2 ⟨List.forall_mem_append.2 ⟨ih, printable_linksFrom room 0⟩,
      List.forall_mem_singleton.2 trivial⟩

theorem exists_ofTokens_tallest :
    ∃ ts e, (∀ t ∈ ts, t.Printable) ∧ ofTokens .permissive ts = .ok e ∧ e.height + 1 = tallestOperand maxDepth := by
  obtain ⟨e, hheight, he⟩ := exists_signed_tallOperand 63 (show 63 < maxDepth by decide)
  obtain ⟨e', hheight', he'⟩ := exists_operatorsFrom_links
    (fun room rest hrest => signed_one .permissive 63 room hrest) he (Nat.zero_le 6)
  refine ⟨tallOperand 63 ++ linksFrom 63 0, e', ?_, ?_, ?_⟩
  · exact List.forall_mem_append.2 ⟨printable_tallOperand 63, printable_linksFrom 63 0⟩
  · have hgroup : grouped (signed .permissive maxDepth) maxDepth (tallOperand 63 ++ linksFrom 63 0) = .ok (e', []) := by
      have h := he' [] (stops_nil 0)
      rw [List.append_nil, operatorsFrom_zero] at h
      exact h
    rw [ofTokens, hgroup]
    rfl
  · rw [hheight', hheight]
    rfl

/-- **No expression is higher than the bound**, under any policy. -/
theorem height_le_of_parse {p : ParsePolicy} {text : String} {e : Expr} (h : parse p text = .ok e) :
    e.height ≤ 12160 := by
  obtain ⟨ts, -, hts⟩ := Except.bind_eq_ok_iff.1 h
  have hheight := ofTokens_height hts
  have hmax := tallestOperand_maxDepth
  omega

/-- **Some expression is as high.** -/
theorem exists_parse_height : ∃ text e, parse .permissive text = .ok e ∧ e.height = 12160 := by
  obtain ⟨ts, e, hp, he, hheight⟩ := exists_ofTokens_tallest
  have hscan : Token.scan (Token.print ts) = .ok ts := Token.scan_of_renders (Token.renders_print ts) hp
  have hparse : parse .permissive (Token.print ts) = .ok e := by
    rw [parse, hscan]
    exact he
  have hmax := tallestOperand_maxDepth
  exact ⟨Token.print ts, e, hparse, by omega⟩

end RunningLights.Expr
