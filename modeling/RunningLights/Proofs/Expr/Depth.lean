import RunningLights.Proofs.Expr.Counting
import RunningLights.Proofs.Expr.Height

/-!
# Nesting

How deep an expression is nested, and what the parts of one leave to each other:

* `Expr.Counting.Restores` — a parser that succeeds leaves the counter as it was;
* `Expr.Counting.restoring` — all parts of the parser do;
* `Expr.Counting.arguments_eq_ok_iff`, `indices_eq_ok_iff`, `primary_lparen_eq_ok_iff` — so arguments, indices and
  groups are read one by one, each with the levels open that were open before the first;
* `Expr.nesting_bounded` — with the greatest height of a tree.
-/

namespace RunningLights.Expr

namespace Counting

variable {α : Type}

/-! ### The counter behind a parser -/

/-- Whenever the parser succeeds, the counter is what it was on entry. -/
def Restores (c : Counting α) : Prop :=
  ∀ ⦃depth : Nat⦄, depth ≤ maxDepth → ∀ ⦃ts : List Token⦄ ⦃a : α⦄ ⦃depth' : Nat⦄ ⦃rest : List Token⦄,
    c depth ts = .ok (a, depth', rest) → depth' = depth

theorem Follows.eq_ok_iff {x : List Token → Except ParseError (α × List Token)} {c : Counting α} {depth depth' : Nat}
    (h : Follows x c depth) {ts rest : List Token} {a : α} :
    c depth ts = .ok (a, depth', rest) ↔ depth' = depth ∧ x ts = .ok (a, rest) := by
  rw [h ts]
  cases x ts with
  | error e => simp [Except.map]
  | ok y =>
    obtain ⟨b, us⟩ := y
    simp only [Except.map, Except.ok.injEq, Prod.mk.injEq]
    exact ⟨fun ⟨ha, hdepth, hrest⟩ => ⟨hdepth.symm, ha, hrest⟩, fun ⟨hdepth, ha, hrest⟩ => ⟨ha, hdepth.symm, hrest⟩⟩

theorem restores_of_follows {c : Counting α}
    (h : ∀ depth ≤ maxDepth, ∃ x, Follows x c depth) : Restores c := by
  intro depth hdepth ts a depth' rest hok
  obtain ⟨x, hx⟩ := h depth hdepth
  exact (hx.eq_ok_iff.1 hok).1

theorem Tracks.restores {x : Parser} {c : Counting Expr} (h : Tracks x c) : Restores c :=
  restores_of_follows fun _ hdepth => ⟨_, h (Nat.add_sub_cancel' hdepth)⟩

/-- Every part of the parser leaves the counter as it was. -/
structure Restoring (p : ParsePolicy) (fuel : Nat) : Prop where
  expression : Restores (expression (unary p fuel))
  binary (l : Nat) : Restores (binary (unary p fuel) l)
  unary : Restores (unary p fuel)
  nested : Restores (nested (Counting.unary p fuel))
  postfixed : Restores (postfixed p (Counting.expression (Counting.unary p fuel)))
  primary : Restores (primary p (Counting.expression (Counting.unary p fuel)))
  arguments : Restores (arguments (Counting.expression (Counting.unary p fuel)))
  indices (n : Nat) : Restores (indices (Counting.expression (Counting.unary p fuel)) n)

theorem expression_follows (p : ParsePolicy) (fuel : Nat) {depth : Nat} (h : depth ≤ maxDepth) :
    Follows (grouped (signed p fuel) (maxDepth - depth)) (expression (unary p fuel)) depth :=
  expression_tracks (unary_tracks p fuel) (Nat.add_sub_cancel' h)

theorem restoring (p : ParsePolicy) (fuel : Nat) : Restoring p fuel where
  expression := (expression_tracks (unary_tracks p fuel)).restores
  binary l := (binary_tracks (unary_tracks p fuel) l).restores
  unary := (unary_tracks p fuel).restores
  nested := (nested_tracks (unary_tracks p fuel)).restores
  postfixed := restores_of_follows fun _ hdepth => ⟨_, postfixed_follows (expression_follows p fuel hdepth) p⟩
  primary := restores_of_follows fun _ hdepth => ⟨_, primary_follows (expression_follows p fuel hdepth) p⟩
  arguments := restores_of_follows fun _ hdepth => ⟨_, arguments_follows (expression_follows p fuel hdepth)⟩
  indices n := restores_of_follows fun _ hdepth => ⟨_, indices_follows (expression_follows p fuel hdepth) n⟩

/-! ### Siblings -/

/-- Expressions between commas up to a closing parenthesis, each of them read with the same levels open. -/
inductive Separated (item : Counting Expr) (depth : Nat) : List Token → List Expr → List Token → Prop
  | last {ts rest : List Token} {e : Expr} :
      item depth ts = .ok (e, depth, .rparen :: rest) → Separated item depth ts [e] rest
  | cons {ts us rest : List Token} {e : Expr} {es : List Expr} :
      item depth ts = .ok (e, depth, .comma :: us) → Separated item depth us es rest →
        Separated item depth ts (e :: es) rest

/-- Expressions in brackets one behind the other, each of them read with the same levels open. -/
inductive Bracketed (item : Counting Expr) (depth : Nat) : List Token → List Expr → List Token → Prop
  | nil {rest : List Token} : rest.head? ≠ some .lbracket → Bracketed item depth rest [] rest
  | cons {ts us rest : List Token} {e : Expr} {es : List Expr} :
      item depth ts = .ok (e, depth, .rbracket :: us) → Bracketed item depth us es rest →
        Bracketed item depth (.lbracket :: ts) (e :: es) rest

section Siblings

open Grammar

variable {x : List Token → Except ParseError (Expr × List Token)} {item : Counting Expr} {depth : Nat}
  (h : Follows x item depth) (hx : Sound (Level 0) x)
include h

theorem separated_of_argumentList {fuel depth' : Nat} {ts rest : List Token} {es : List Expr}
    (hok : argumentList item fuel depth ts = .ok (es, depth', rest)) : Separated item depth ts es rest := by
  induction fuel generalizing ts es with
  | zero => cases hok
  | succ fuel ih =>
    obtain ⟨⟨e, d, mid⟩, he, htail⟩ := Except.bind_eq_ok_iff.1 hok
    obtain ⟨rfl, -⟩ := h.eq_ok_iff.1 he
    dsimp only at htail
    split at htail
    · obtain ⟨⟨es', d, mid'⟩, hes, heq⟩ := Except.bind_eq_ok_iff.1 htail
      cases heq
      exact .cons he (ih hes)
    · obtain ⟨mid', hmid, heq⟩ := Except.bind_eq_ok_iff.1 htail
      cases heq
      obtain rfl := expectToken_eq_ok eq_of_matches.1 hmid
      exact .last he

include hx

theorem length_of_follows {ts rest : List Token} {e : Expr} {depth' : Nat}
    (hok : item depth ts = .ok (e, depth', rest)) : rest.length ≤ ts.length := by
  obtain ⟨us, rfl, -⟩ := hx (h.eq_ok_iff.1 hok).2
  simp

theorem argumentList_of_separated {fuel : Nat} {ts rest : List Token} {es : List Expr} (hfuel : ts.length ≤ fuel)
    (hes : Separated item depth ts es rest) : argumentList item fuel depth ts = .ok (es, depth, rest) := by
  induction hes generalizing fuel with
  | last he =>
    have hlen := length_of_follows h hx he
    rw [List.length_cons] at hlen
    obtain ⟨fuel, rfl⟩ : ∃ n, fuel = n + 1 := ⟨fuel - 1, by omega⟩
    rw [argumentList, he]
    rfl
  | @cons ts us rest e es he _ ih =>
    have hlen := length_of_follows h hx he
    rw [List.length_cons] at hlen
    obtain ⟨fuel, rfl⟩ : ∃ n, fuel = n + 1 := ⟨fuel - 1, by omega⟩
    rw [argumentList, he]
    show (argumentList item fuel depth us >>= _) = _
    rw [ih (by omega)]
    rfl

/-- No expression starts with a closing parenthesis. -/
theorem ne_rparen_of_follows {ts us rest : List Token} {e : Expr} {depth' : Nat}
    (hok : item depth ts = .ok (e, depth', rest)) : ts ≠ .rparen :: us := by
  obtain ⟨vs, rfl, hvs⟩ := hx (h.eq_ok_iff.1 hok).2
  obtain ⟨t, vs, rfl, ht⟩ := hvs.starts
  rintro heq
  exact ht.ne_rparen (List.cons.inj heq).1

/-- **Arguments are read one by one**, each with the levels open that were open before the first. -/
theorem arguments_eq_ok_iff {ts rest : List Token} {es : List Expr} {depth' : Nat} :
    arguments item depth ts = .ok (es, depth', rest) ↔
      depth' = depth ∧ (ts = .rparen :: rest ∧ es = [] ∨ Separated item depth ts es rest) := by
  constructor
  · intro hok
    refine ⟨((arguments_follows h).eq_ok_iff.1 hok).1, ?_⟩
    unfold arguments at hok
    split at hok
    · cases hok
      exact .inl ⟨rfl, rfl⟩
    · exact .inr (separated_of_argumentList h hok)
  · rintro ⟨rfl, ⟨rfl, rfl⟩ | hes⟩
    · rfl
    · have hne (us : List Token) : ts ≠ .rparen :: us := by
        cases hes with
        | last he | cons he _ => exact ne_rparen_of_follows h hx he
      unfold arguments
      split
      · exact absurd rfl (hne _)
      · exact argumentList_of_separated h hx (Nat.le_refl _) hes

theorem bracketed_of_indices {fuel depth' : Nat} {ts rest : List Token} {es : List Expr} (hfuel : ts.length ≤ fuel)
    (hok : indices item fuel depth ts = .ok (es, depth', rest)) : Bracketed item depth ts es rest := by
  induction fuel generalizing ts es with
  | zero =>
    obtain rfl := List.length_eq_zero_iff.1 (Nat.le_zero.1 hfuel)
    cases hok
    exact .nil nofun
  | succ fuel ih =>
    by_cases hts : ts.head? = some .lbracket
    · obtain ⟨ts, rfl⟩ := List.head?_eq_some_iff.1 hts
      obtain ⟨⟨e, d, mid⟩, he, hmid⟩ := Except.bind_eq_ok_iff.1 hok
      obtain ⟨us, hclose, htail⟩ := Except.bind_eq_ok_iff.1 hmid
      obtain ⟨⟨es', d', rest'⟩, hes, heq⟩ := Except.bind_eq_ok_iff.1 htail
      cases heq
      obtain ⟨rfl, -⟩ := h.eq_ok_iff.1 he
      obtain rfl := expectToken_eq_ok eq_of_matches.2 hclose
      have hlen := length_of_follows h hx he
      rw [List.length_cons] at hlen hfuel
      exact .cons he (ih (by omega) hes)
    · rw [(indices_follows h _).eq_ok_iff, brackets_stop x hts] at hok
      obtain ⟨-, heq⟩ := hok
      cases heq
      exact .nil hts

theorem indices_of_bracketed {fuel : Nat} {ts rest : List Token} {es : List Expr} (hfuel : ts.length ≤ fuel)
    (hes : Bracketed item depth ts es rest) : indices item fuel depth ts = .ok (es, depth, rest) := by
  induction hes generalizing fuel with
  | nil hne => exact (indices_follows h _).eq_ok_iff.2 ⟨rfl, brackets_stop x hne fuel⟩
  | @cons ts us rest e es he _ ih =>
    have hlen := length_of_follows h hx he
    rw [List.length_cons] at hlen hfuel
    obtain ⟨fuel, rfl⟩ : ∃ n, fuel = n + 1 := ⟨fuel - 1, by omega⟩
    rw [indices, he]
    show (indices item fuel depth us >>= _) = _
    rw [ih (by omega)]
    rfl

/-- **Indices are read one by one**, each with the levels open that were open before the first. -/
theorem indices_eq_ok_iff {ts rest : List Token} {es : List Expr} {depth' : Nat} :
    indices item ts.length depth ts = .ok (es, depth', rest) ↔ depth' = depth ∧ Bracketed item depth ts es rest := by
  constructor
  · intro hok
    exact ⟨((indices_follows h _).eq_ok_iff.1 hok).1, bracketed_of_indices h hx (Nat.le_refl _) hok⟩
  · rintro ⟨rfl, hes⟩
    exact indices_of_bracketed h hx (Nat.le_refl _) hes

omit hx in
/-- **A group** is read with the levels open that were open before it, and leaves them open behind it. -/
theorem primary_lparen_eq_ok_iff {p : ParsePolicy} {ts rest : List Token} {e : Expr} {depth' : Nat} :
    primary p item depth (.lparen :: ts) = .ok (e, depth', rest) ↔
      depth' = depth ∧ item depth ts = .ok (e, depth, .rparen :: rest) := by
  rw [primary]
  constructor
  · intro hok
    obtain ⟨⟨e', d, mid⟩, he, hmid⟩ := Except.bind_eq_ok_iff.1 hok
    obtain ⟨rest', hclose, heq⟩ := Except.bind_eq_ok_iff.1 hmid
    cases heq
    obtain ⟨rfl, -⟩ := h.eq_ok_iff.1 he
    obtain rfl := expectToken_eq_ok eq_of_matches.1 hclose
    exact ⟨rfl, he⟩
  · rintro ⟨rfl, he⟩
    rw [he]
    rfl

end Siblings

end Counting

/-- **Nesting is bounded**: an expression that is accepted is at most 12160 high, under every policy, and some
expression is as high.  The parser can be taken for one that counts the levels that are open.  Every part of that one
leaves the counter as it was on entry whenever it succeeds; so arguments, indices and groups are each read with the
levels open that were open before the first of them, whatever the others need. -/
theorem nesting_bounded :
    (∀ p text e, parse p text = .ok e → e.height ≤ 12160) ∧
      (∃ text e, parse .permissive text = .ok e ∧ e.height = 12160) ∧
      (∀ p text, Counting.parse p text = parse p text) ∧
      ∀ p fuel, Counting.Tracks (signed p fuel) (Counting.unary p fuel) ∧ Counting.Restoring p fuel ∧
        let item := Counting.expression (Counting.unary p fuel)
        ∀ depth ≤ maxDepth, ∀ ts rest depth',
          (∀ es, Counting.arguments item depth ts = .ok (es, depth', rest) ↔
            depth' = depth ∧ (ts = .rparen :: rest ∧ es = [] ∨ Counting.Separated item depth ts es rest)) ∧
          (∀ es, Counting.indices item ts.length depth ts = .ok (es, depth', rest) ↔
            depth' = depth ∧ Counting.Bracketed item depth ts es rest) ∧
          ∀ e, Counting.primary p item depth (.lparen :: ts) = .ok (e, depth', rest) ↔
            depth' = depth ∧ item depth ts = .ok (e, depth, .rparen :: rest) := by
  refine ⟨fun p text e h => height_le_of_parse h, exists_parse_height, Counting.parse_eq, fun p fuel => ?_⟩
  refine ⟨Counting.unary_tracks p fuel, Counting.restoring p fuel, ?_⟩
  intro item depth hdepth ts rest depth'
  have hitem := Counting.expression_follows p fuel hdepth
  have hsound := grouped_sound (signed_sound p fuel) (maxDepth - depth)
  exact ⟨fun es => Counting.arguments_eq_ok_iff hitem hsound, fun es => Counting.indices_eq_ok_iff hitem hsound,
    fun e => Counting.primary_lparen_eq_ok_iff hitem⟩

/-- Where two levels are left, both arguments may be groups, each of which needs both. -/
theorem nesting_bounded_groups :
    (parse .permissive "f((a), (b))" = .ok (.call "f" [.ident "a", .ident "b"]) ∧
        (Expr.call "f" [.ident "a", .ident "b"]).height ≤ 12160) ∧
      Counting.arguments (Counting.expression (Counting.unary .permissive 3)) 62
          [.lparen, .ident "a", .rparen, .comma, .lparen, .ident "b", .rparen, .rparen] =
        .ok ([.ident "a", .ident "b"], 62, []) := by
  obtain ⟨hheight, -, -, hparts⟩ := nesting_bounded
  obtain ⟨-, -, hsiblings⟩ := hparts .permissive 3
  have hparse : parse .permissive "f((a), (b))" = .ok (.call "f" [.ident "a", .ident "b"]) := by cbv
  refine ⟨⟨hparse, hheight _ _ _ hparse⟩, ((hsiblings 62 (by decide) _ _ _).1 _).2 ⟨rfl, .inr ?_⟩⟩
  have hfirst : Counting.expression (Counting.unary .permissive 3) 62
      [.lparen, .ident "a", .rparen, .comma, .lparen, .ident "b", .rparen, .rparen] =
        .ok (.ident "a", 62, [.comma, .lparen, .ident "b", .rparen, .rparen]) := by cbv
  have hsecond : Counting.expression (Counting.unary .permissive 3) 62 [.lparen, .ident "b", .rparen, .rparen] =
        .ok (.ident "b", 62, [.rparen]) := by cbv
  exact .cons hfirst (.last hsecond)

end RunningLights.Expr
