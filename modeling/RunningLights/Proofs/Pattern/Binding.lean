import Mathlib
import RunningLights.Pattern.Compiled
import RunningLights.Proofs.Expr.Policy
import RunningLights.Proofs.Expr.Substitution

/-!
# Values that are written into a text bind names

The values of a pattern's parameters are written into its text before the text is split into tokens.  Where slots
stand apart from the text around them, that is the same as parsing the text with names in the slots and binding these
names to the values:

* `Template.Separate` — every slot stands between blanks, parentheses and the ends of the text;
* `Template.Named`, `Template.Fresh` — a text with names in the place of its slots, and names that serve for that;
* `Template.Named.exists_fill` — the tokens of a text with values are those of the text with names, with the values
  put in;
* `Compiled.evaluateAt_named` — so its channels are those of the text with names.
-/

namespace RunningLights

open Token

/-- Nothing has to be put in where no name is one of the constants. -/
theorem Token.flatMap_fill {σ : String → Option Constant} {ts : List Token}
    (h : ∀ name c, σ name = some c → Token.ident name ∉ ts) : ts.flatMap (Token.fill σ) = ts := by
  induction ts with
  | nil => rfl
  | cons t ts ih =>
    have hrest := ih fun name c hc hmem => h name c hc (List.mem_cons_of_mem t hmem)
    have hone : t.fill σ = [t] := by
      unfold Token.fill
      split
      next name =>
        cases hname : σ name with
        | none => rfl
        | some c => exact absurd List.mem_cons_self (h name c hname)
      · rfl
    rw [List.flatMap_cons, hone, hrest]
    rfl

namespace TemplatePart

def isEdge : TemplatePart → Bool
  | .char c => Token.isEdge c
  | .slot _ => false

def isSlot : TemplatePart → Bool
  | .char _ => false
  | .slot _ => true

/-- A slot is next to an edge. -/
def Meets (a b : TemplatePart) : Prop := (a.isSlot → b.isEdge) ∧ (b.isSlot → a.isEdge)

instance (a b : TemplatePart) : Decidable (Meets a b) := inferInstanceAs (Decidable (_ ∧ _))

end TemplatePart

namespace Template

/-- Every slot stands between blanks, parentheses and the ends of the text. -/
def Separate (parts : List TemplatePart) : Prop := parts.IsChain TemplatePart.Meets

/-- The text with blanks in the place of its slots. -/
def blanked (parts : List TemplatePart) : List Char :=
  parts.map fun
    | .char c => c
    | .slot _ => ' '

/-- A text with names in the place of its slots.  Each name is bound to the constant as which the value of its slot is
written. -/
inductive Named (ps : Parameters) (bound : List (String × Constant)) : List TemplatePart → List Char → Prop
  | nil : Named ps bound [] []
  | char (c : Char) {parts : List TemplatePart} {cs : List Char} :
      Named ps bound parts cs → Named ps bound (.char c :: parts) (c :: cs)
  | slot {name x : String} {v : ParamValue} {c : Constant} {parts : List TemplatePart} {cs : List Char} :
      ps.get? name = some v → Constant.ofText? v.text.toList = some c → bound.lookup x = some c →
      Named ps bound parts cs → Named ps bound (.slot name :: parts) (x.toList ++ cs)

variable {ps : Parameters} {bound : List (String × Constant)} {parts : List TemplatePart} {cs : List Char}

theorem fill_char (c : Char) (h : fill ps parts = .ok cs) : fill ps (.char c :: parts) = .ok (c :: cs) := by
  rw [fill, fillPart, h]
  rfl

theorem fill_slot {name : String} {v : ParamValue} (hv : ps.get? name = some v) (h : fill ps parts = .ok cs) :
    fill ps (.slot name :: parts) = .ok (v.text.toList ++ cs) := by
  rw [fill, fillPart, hv, h]
  rfl

/-- The text behind a slot starts as its parts do. -/
theorem Named.startsApart (h : Named ps bound parts cs) (hparts : ∀ part ∈ parts.head?, part.isEdge) :
    StartsApart cs := by
  cases h with
  | nil => exact nofun
  | char c h =>
    rintro _ ⟨⟩
    exact hparts _ rfl
  | slot hv hc hx h => exact absurd (hparts _ rfl) Bool.false_ne_true

theorem startsApart_of_fill (h : fill ps parts = .ok cs) (hparts : ∀ part ∈ parts.head?, part.isEdge) :
    StartsApart cs := by
  match parts with
  | [] =>
    cases h
    exact nofun
  | .char c :: parts =>
    obtain ⟨_, hc, h⟩ := Except.bind_eq_ok_iff.1 h
    obtain ⟨rest, -, h⟩ := Except.bind_eq_ok_iff.1 h
    cases hc
    cases h
    rintro _ ⟨⟩
    exact hparts _ rfl
  | .slot _ :: _ => exact absurd (hparts _ rfl) Bool.false_ne_true

/-- The tokens of a text with values are those of the text with names, with the values put in.  The induction is on
the parts; `pre` is what has been read since the last slot. -/
theorem Named.exists_fill (hname : ∀ {x c}, bound.lookup x = some c → tokens? x.toList = some [.ident x])
    (h : Named ps bound parts cs) (pre : List Char) {ts : List Token}
    (hparts : Separate (pre.map .char ++ parts)) (hts : tokens? (pre ++ cs) = some ts) :
    ∃ us filled, tokens? (pre ++ blanked parts) = some us ∧ fill ps parts = .ok filled ∧
      ((∀ x c, bound.lookup x = some c → Token.ident x ∉ us) →
        tokens? (pre ++ filled) = some (ts.flatMap (Token.fill (bound.lookup ·)))) := by
  induction h generalizing pre ts with
  | nil =>
    refine ⟨ts, [], hts, rfl, fun hfresh => ?_⟩
    rw [Token.flatMap_fill hfresh]
    exact hts
  | @char c parts cs h ih =>
    have hmoved : Separate ((pre ++ [c]).map .char ++ parts) := by
      simpa using hparts
    obtain ⟨us, filled, hus, hfilled, htokens⟩ := ih (pre ++ [c]) hmoved (by simpa using hts)
    refine ⟨us, c :: filled, by simpa [blanked] using hus, fill_char c hfilled, fun hfresh => ?_⟩
    simpa using htokens hfresh
  | @slot name x v c parts cs hv hc hx h ih =>
    obtain ⟨-, hrest, hmeets⟩ := List.isChain_append.1 hparts
    obtain ⟨hnext, hrest⟩ := List.isChain_cons.1 hrest
    have hpre : EndsApart pre := by
      intro d hd
      have hlast : TemplatePart.char d ∈ (pre.map TemplatePart.char).getLast? := by
        rw [List.getLast?_map, hd]
        rfl
      exact (hmeets _ hlast _ rfl).2 rfl
    have hedge : ∀ part ∈ parts.head?, part.isEdge := fun part hpart => (hnext part hpart).1 rfl
    obtain ⟨us, _, hus, hbehind, rfl⟩ := (hpre.joins _).eq_some_iff.1 hts
    obtain ⟨_, vs, hx', hvs, rfl⟩ := ((h.startsApart hedge).joins x.toList).eq_some_iff.1 hbehind
    obtain rfl := Option.some.inj (hx'.symm.trans (hname hx))
    obtain ⟨bs, filled, hbs, hfilled, htokens⟩ := ih [] hrest hvs
    have hblank : Text.isBlank ' ' = Bool.true := by decide
    refine ⟨us ++ bs, v.text.toList ++ filled, ?_, fill_slot hv hfilled, fun hfresh => ?_⟩
    · exact (hpre.joins _).eq_some_iff.2 ⟨us, bs, hus, (tokens?_blank hblank _).trans hbs, rfl⟩
    · have hvalue : tokens? (v.text.toList ++ filled) =
          some (c.tokens ++ vs.flatMap (Token.fill (bound.lookup ·))) :=
        ((startsApart_of_fill hfilled hedge).joins _).eq_some_iff.2
          ⟨_, _, tokens?_of_ofText? hc, htokens fun x c hx hmem => hfresh x c hx (List.mem_append_right us hmem), rfl⟩
      have hone : (Token.ident x).fill (bound.lookup ·) = c.tokens := by
        rw [Token.fill, hx]
      rw [List.flatMap_append, List.singleton_append, List.flatMap_cons, hone,
        Token.flatMap_fill fun x c hx hmem => hfresh x c hx (List.mem_append_left bs hmem)]
      exact (hpre.joins _).eq_some_iff.2 ⟨us, _, hus, hvalue, rfl⟩

/-- The names stand for slots only: each is a token of its own, and none is a token of the text around the slots. -/
structure Fresh (bound : List (String × Constant)) (parts : List TemplatePart) : Prop where
  token {x : String} {c : Constant} : bound.lookup x = some c → tokens? x.toList = some [.ident x]
  absent {ts : List Token} : tokens? (blanked parts) = some ts →
    ∀ x c, bound.lookup x = some c → Token.ident x ∉ ts

end Template

namespace Compiled

open Template

/-- What is left when constants are put in are the two names that every channel knows. -/
theorem admits_of_lookup_none {bound : List (String × Constant)} {name : String}
    (h : ([indexName, totalName] ++ bound.map Prod.fst).contains name) (hnone : bound.lookup name = none) :
    (ParsePolicy.restricted [indexName, totalName]).admits name := by
  have habsent : name ∉ bound.map Prod.fst := by
    rintro hmem
    obtain ⟨⟨x, c⟩, hentry, rfl⟩ := List.mem_map.1 hmem
    simpa using List.lookup_eq_none_iff.1 hnone _ hentry
  rw [List.contains_iff_mem] at h
  exact List.contains_iff_mem.2 ((List.mem_append.1 h).resolve_right habsent)

/-- **Values written into a text bind names.**  If each slot of a text stands between blanks, parentheses and the ends
of the text, and its value is written as up to fifteen digits, perhaps behind a minus sign, or as a truth value, and if
the text with fresh names in its slots can be parsed, then the text compiles with its parameters, unless the signs of
its values nest it too deeply.  On every channel it then has the value or the error of the tree with the names bound
to the values. -/
theorem evaluateAt_named {text named : String} {ps : Parameters} {bound : List (String × Constant)} {e : Expr}
    (hseparate : Separate (read text.toList)) (hfresh : Fresh bound (read text.toList))
    (hnamed : Named ps bound (read text.toList) named.toList)
    (hparse : Expr.parse (.restricted ([indexName, totalName] ++ bound.map Prod.fst)) named = .ok e) :
    compile text ps = .error (.parse .tooDeep) ∨
      ∃ c, compile text ps = .ok c ∧ ∀ i total, c.evaluateAt i total =
        (e.eval (Environment.ofNames (boundNames (bound.lookup ·) (names i total))) .real).map Value.truthy := by
  obtain ⟨ts, hscan, htree⟩ := Except.bind_eq_ok_iff.1 hparse
  obtain ⟨us, filled, hus, hfilled, htokens⟩ :=
    hnamed.exists_fill hfresh.token [] hseparate (scan_eq_ok_iff.1 hscan)
  have hderived := Expr.ofTokens_sound htree
  have hconforms := ((Expr.ofTokens_filters _ ts e).1 htree).2
  have hsource : substitute text ps = .ok (String.ofList filled) := by
    rw [substitute, hfilled]
    rfl
  have hscanned : Token.scan (String.ofList filled) = .ok (ts.flatMap (Token.fill (bound.lookup ·))) := by
    rw [scan_eq_ok_iff, String.toList_ofList]
    exact htokens (hfresh.absent hus)
  have hparsed : Expr.parse (.restricted [indexName, totalName]) (String.ofList filled) =
      Expr.ofTokens (.restricted [indexName, totalName]) (ts.flatMap (Token.fill (bound.lookup ·))) := by
    rw [Expr.parse, hscanned]
    rfl
  have hadmitted : (e.fill (bound.lookup ·)).conforms (.restricted [indexName, totalName]) :=
    Expr.conforms_fill (fun _ => admits_of_lookup_none) e hconforms
  rcases Expr.ofTokens_yields (hderived.fill hconforms) hadmitted with hok | hdeep
  · refine .inr ⟨⟨String.ofList filled, e.fill (bound.lookup ·)⟩, ?_, fun i total => ?_⟩
    · rw [compile, hsource]
      dsimp only
      rw [hparsed, hok]
    · rw [evaluateAt]
      dsimp only
      rw [Expr.eval_fill]
      cases e.eval (Environment.ofNames (boundNames (bound.lookup ·) (names i total))) .real <;> rfl
  · refine .inl ?_
    rw [compile, hsource]
    dsimp only
    rw [hparsed, hdeep]

/-- A name for a number below zero. -/
def belowZero : List (String × Constant) := [("a", .negative 2 (by norm_num))]

def aboveTwice : Expr := .binary .gt (.ident "i") (.binary .mul (.ident "a") (.literal (.int 2)))

theorem evaluateAt_named_belowZero :
    let text := "i > ${low} * 2"
    let ps : Parameters := ⟨[("low", .number (-2))]⟩
    Separate (read text.toList) ∧ Fresh belowZero (read text.toList) ∧
      Named ps belowZero (read text.toList) "i > a * 2".toList ∧
      Expr.parse (.restricted ([indexName, totalName] ++ belowZero.map Prod.fst)) "i > a * 2" = .ok aboveTwice ∧
      ∃ c, compile text ps = .ok c ∧ ∀ i total, c.evaluateAt i total =
        (aboveTwice.eval (Environment.ofNames (boundNames (belowZero.lookup ·) (names i total))) .real).map
          Value.truthy := by
  intro text ps
  have hread : read text.toList = [.char 'i', .char ' ', .char '>', .char ' ', .slot "low", .char ' ', .char '*',
      .char ' ', .char '2'] := by cbv
  have hseparate : Separate (read text.toList) := by
    rw [hread, Separate]
    decide
  have hname {x : String} {c : Constant} (hx : belowZero.lookup x = some c) : x = "a" := by
    by_contra hne
    have hnone : belowZero.lookup x = none := List.lookup_eq_none_iff.2 (by simpa [belowZero] using hne)
    cases hnone.symm.trans hx
  have hfresh : Fresh belowZero (read text.toList) := by
    have hblanked : tokens? (blanked (read text.toList)) = some [.ident "i", .gt, .star, .number (.int 2)] := by cbv
    constructor
    · intro x c hx
      rw [hname hx]
      cbv
    · intro ts hts x c hx
      obtain rfl := Option.some.inj (hblanked.symm.trans hts)
      rw [hname hx]
      simp
  have htext : (ParamValue.number (-2)).text.toList = ['-', '2'] := by decide +kernel
  have hnamed : Named ps belowZero (read text.toList) "i > a * 2".toList := by
    have hlow : Constant.ofText? (ParamValue.number (-2)).text.toList = some (.negative 2 (by norm_num)) := by
      rw [htext]
      rfl
    have hlist : "i > a * 2".toList = 'i' :: ' ' :: '>' :: ' ' :: ("a".toList ++ [' ', '*', ' ', '2']) := by decide
    rw [hread, hlist]
    exact .char _ (.char _ (.char _ (.char _ (.slot rfl hlow rfl (.char _ (.char _ (.char _ (.char _ .nil))))))))
  have hparse : Expr.parse (.restricted ([indexName, totalName] ++ belowZero.map Prod.fst)) "i > a * 2" =
      .ok aboveTwice := by
    cbv
  have hcompiles : compile text ps ≠ .error (.parse .tooDeep) := by
    have hslot : fillPart ps (.slot "low") = .ok ['-', '2'] := congrArg Except.ok htext
    have hfilled : fill ps (read text.toList) = .ok ['i', ' ', '>', ' ', '-', '2', ' ', '*', ' ', '2'] := by
      rw [hread]
      simp only [Template.fill, hslot]
      rfl
    have hsource : substitute text ps = .ok "i > -2 * 2" := by
      rw [substitute, hfilled]
      rfl
    have hparsed : ∃ e, Expr.parse (.restricted [indexName, totalName]) "i > -2 * 2" = .ok e := ⟨_, by cbv⟩
    obtain ⟨e, he⟩ := hparsed
    rw [compile, hsource]
    dsimp only
    rw [he]
    intro h
    cases h
  exact ⟨hseparate, hfresh, hnamed, hparse, (evaluateAt_named hseparate hfresh hnamed hparse).resolve_left hcompiles⟩

end Compiled

end RunningLights
