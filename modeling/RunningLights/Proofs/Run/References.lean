import RunningLights.Proofs.Run.Naming

/-!
# Parameters that stand for arrays

A parameter that is given an array stands for the name under which that is stored:

* `bindParams_alias` — the name that a parameter is bound to;
* `During`, `During.of_eval`, `During.of_block` — the states of a run until a call ends, and what leads from one to
  another;
* `During.names` — until then the names of the call and of those below it stay as they are;
* `Machine.Designates`, `designates_iff` — reading, storing, library functions and calls take the array that a name
  stands for;
* `Simulation.parameter_designates` — in a function a parameter designates the array that it was given; in a lambda the
  one that the caller takes the stored name for;
* `Simulation.lambda_parameter_misled` — which may be another one.
-/

namespace RunningLights.Procedure

/-! ### Binding -/

section

variable {env : Environment Eval} {p x : String}

theorem bindParams_cons {q : String} {qs : List String} {e : Expr} {es : List Expr} {a b : Activation} {m m' : Machine}
    (henv : ∀ e : Expr, Keeps SameNames _ (e.eval env .integer).run)
    (hb : (bindParams a (q :: qs) (Expr.arguments env .integer (e :: es))).run m = (.ok b, m')) :
    ∃ c n, SameNames m n ∧ (bindParams c qs (Expr.arguments env .integer es)).run n = (.ok b, m') ∧
      c.aliases = match passedArray? ⟨e, e.eval env .integer⟩ m with
        | some target => a.aliases.set q target
        | none => a.aliases := by
  have hpassed : (Eval.read fun m => .ok (passedArray? ⟨e, e.eval env .integer⟩ m)).run m =
      (.ok (passedArray? ⟨e, e.eval env .integer⟩ m), m) := rfl
  rw [Expr.arguments, bindParams, ExceptT.run_bind, bind_of_eq hpassed] at hb
  cases htarget : passedArray? ⟨e, e.eval env .integer⟩ m with
  | some target =>
    rw [htarget] at hb
    exact ⟨_, m, .refl m, hb, rfl⟩
  | none =>
    rw [htarget] at hb
    have hkeeps := henv e m
    dsimp only at hb
    rw [ExceptT.run_bind] at hb
    cases hv : (e.eval env .integer).run m with
    | mk r n =>
      rw [bind_of_eq hv] at hb
      rw [hv] at hkeeps
      cases r with
      | ok v => exact ⟨_, n, hkeeps, hb, rfl⟩
      | error err => cases congrArg Prod.fst hb

theorem passedArray?_ident {e : Expr} {value : Eval Value} {m : Machine} {target : String}
    (h : passedArray? ⟨e, value⟩ m = some target) : ∃ y, e = .ident y ∧ (m.array? y).isSome := by
  unfold passedArray? at h
  split at h
  · rename_i y hy
    cases e <;> cases hy
    split at h
    · exact ⟨_, rfl, ‹_›⟩
    · cases h
  · cases h

/-- A parameter that is passed no array by the arguments to come keeps what it stands for. -/
theorem bindParams_unpassed (henv : ∀ e : Expr, Keeps SameNames _ (e.eval env .integer).run) :
    ∀ (ps : List String) (es : List Expr) {a b : Activation} {m m' : Machine},
      (bindParams a ps (Expr.arguments env .integer es)).run m = (.ok b, m') →
      (∀ j : Nat, ps[j]? = some p → ∀ y, es[j]? = some (Expr.ident y) → m'.array? y = none) →
      SameNames m m' ∧ b.aliases.get? p = a.aliases.get? p
  | [], _, _, _, m, _, hb, _ => by
    cases hb
    exact ⟨.refl m, rfl⟩
  | q :: qs, [], a, b, m, m', hb, _ => by
    have hrest : (bindParams { a with locals := a.locals.set q ⟨none, false, .int 0⟩ } qs
        (Expr.arguments env .integer [])).run m = (.ok b, m') := hb
    obtain ⟨hnames, hget⟩ := bindParams_unpassed henv qs [] hrest fun _ _ _ h => by cases h
    exact ⟨hnames, hget⟩
  | q :: qs, e :: es, a, b, m, m', hb, hp => by
    obtain ⟨c, n, hmn, hb, hc⟩ := bindParams_cons henv hb
    obtain ⟨hnm, hget⟩ := bindParams_unpassed henv qs es hb fun j hj => hp (j + 1) hj
    refine ⟨hmn.trans hnm, hget.trans ?_⟩
    rw [hc]
    cases htarget : passedArray? ⟨e, e.eval env .integer⟩ m with
    | none => rfl
    | some target =>
      obtain ⟨y, rfl, hy⟩ := passedArray?_ident htarget
      have hq : q ≠ p := by
        rintro rfl
        have hy' := (hmn.trans hnm).array? hy
        rw [hp 0 rfl y rfl] at hy'
        cases hy'
      exact (Bindings.get?_set _ _ _ _).trans (if_neg hq)

/-- A parameter stands for the array that its argument names, if it is the last of its name that is passed one. -/
theorem bindParams_alias (henv : ∀ e : Expr, Keeps SameNames _ (e.eval env .integer).run) :
    ∀ (i : Nat) (ps : List String) (es : List Expr) {a b : Activation} {m m' : Machine},
      (bindParams a ps (Expr.arguments env .integer es)).run m = (.ok b, m') →
      ps[i]? = some p → es[i]? = some (Expr.ident x) → (m.array? x).isSome →
      (∀ j > i, ps[j]? = some p → ∀ y, es[j]? = some (Expr.ident y) → m'.array? y = none) →
      SameNames m m' ∧ b.aliases.get? p = some (m.arrayName x)
  | _, [], _, _, _, _, _, _, hp, _, _, _ => by simp at hp
  | _, _ :: _, [], _, _, _, _, _, _, hx, _, _ => by simp at hx
  | 0, q :: qs, e :: es, a, b, m, m', hb, hp, hx, hm, hlast => by
    cases hp
    cases hx
    obtain ⟨c, n, hmn, hb, hc⟩ := bindParams_cons henv hb
    have hpassed : passedArray? ⟨.ident x, (Expr.ident x).eval env .integer⟩ m = some (m.arrayName x) := if_pos hm
    rw [hpassed] at hc
    obtain ⟨hnm, hget⟩ := bindParams_unpassed henv qs es hb fun j hj => hlast (j + 1) (Nat.succ_pos j) hj
    refine ⟨hmn.trans hnm, hget.trans ?_⟩
    rw [hc]
    exact (Bindings.get?_set _ _ _ _).trans (if_pos rfl)
  | i + 1, q :: qs, e :: es, a, b, m, m', hb, hp, hx, hm, hlast => by
    obtain ⟨c, n, hmn, hb, -⟩ := bindParams_cons henv hb
    obtain ⟨hnm, hget⟩ := bindParams_alias henv i qs es hb hp hx (hmn.array? hm)
      fun j hj => hlast (j + 1) (Nat.succ_lt_succ hj)
    exact ⟨hmn.trans hnm, hget.trans (congrArg some (hmn.arrayName x))⟩

end

/-! ### While a call is active -/

/-- The state is reached from another one without ending the calls that were active there. -/
abbrev During (s : Machine) : Machine → Prop :=
  Relation.ReflTransGen (fun m n => Change m n ∧ s.calls.length ≤ n.calls.length) s

/-- As many calls are active before as behind, and in between none of the first `depth` of them ends. -/
def Returns (depth : Nat) (m n : Machine) : Prop :=
  depth ≤ m.calls.length → n.calls.length = m.calls.length ∧
    Relation.ReflTransGen (fun m n => Change m n ∧ depth ≤ n.calls.length) m n

namespace Returns

variable {depth : Nat} {m n o : Machine}

theorem refl (m : Machine) : Returns depth m m := fun _ => ⟨rfl, .refl⟩

theorem trans (hmn : Returns depth m n) (hno : Returns depth n o) : Returns depth m o := by
  intro hd
  obtain ⟨hn, hmn⟩ := hmn hd
  obtain ⟨ho, hno⟩ := hno (hn ▸ hd)
  exact ⟨ho.trans hn, hmn.trans hno⟩

theorem single (h : Change m n) (hn : n.calls.length = m.calls.length) : Returns depth m n :=
  fun hd => ⟨hn, .single ⟨h, hn ▸ hd⟩⟩

theorem workStep : WorkStep (Returns depth) where
  refl := refl
  trans := trans
  edit m hf := single (.edit hf) (SameNames.edit m hf).length
  sleep {m n} d _ hn := by
    have hbegin : Returns depth m m.beginSleep := single .beginSleep rfl
    have hend : Returns depth n n.endSleep := single .endSleep rfl
    exact ((hbegin.trans hn).trans hend).trans (single (.capture d none) (SameNames.capture n.endSleep d none).length)
  switchAll {m} on _ := by
    have hfill : Returns depth m { m with channels := m.channels.fill on } := single (.fill on) rfl
    exact hfill.trans (single (.capture _ _) (SameNames.capture _ _ _).length)
  tick m := single .tick (SameNames.tick m).length
  loop {m n} credit l hn := by
    have hgrant : Returns depth m (m.grant credit) := single (.grant credit) rfl
    have hpush : Returns depth (m.grant credit) ((m.grant credit).pushLoop l) :=
      single (.pushLoop l) (SameNames.pushLoop (m.grant credit) l).length
    have hpop : Returns depth n n.popLoop := single .popLoop (SameNames.popLoop n).length
    exact ((hgrant.trans hpush).trans hn).trans hpop
  learn _ name f := single (.learn name f) rfl

/-- **Every computation of a run ends the calls that it starts, and no others.** -/
theorem lawful (depth : Nat) : Lawful (Keeps (Returns depth)) (KeepsLive (Returns depth)) where
  toTicking := workStep.ticking
  inCall {a x} ha hx m hd := by
    obtain ⟨hlength, hbody⟩ := hx (m.pushCall a) (Nat.le_succ_of_le hd)
    have hpop : (x (m.pushCall a)).2.popCall.calls.length = m.calls.length := by
      simp only [Machine.popCall, List.length_tail, hlength]
      rfl
    have hstart : Change m (m.pushCall a) ∧ depth ≤ (m.pushCall a).calls.length :=
      ⟨.pushCall ha, Nat.le_succ_of_le hd⟩
    exact ⟨hpop, .tail (.head hstart hbody) ⟨.popCall, hpop ▸ hd⟩⟩
  exhaust _ := single .exhaust rfl

end Returns

namespace During

variable {s n : Machine}

theorem length (h : During s n) : s.calls.length ≤ n.calls.length := by
  cases h with
  | refl => exact Nat.le_refl _
  | tail _ h => exact h.2

theorem of_returns {o : Machine} (h : During s n) (hno : Returns s.calls.length n o) : During s o :=
  h.trans (hno h.length).2

section

variable (h : During s n) (fuel : Nat)
include h

theorem of_eval (e : Expr) : During s ((e.eval (environment (invoke fuel)) .integer).run n).2 :=
  have hl := Returns.lawful s.calls.length
  h.of_returns (hl.toOperational.eval (hl.environment (hl.invoke fuel)) (fun _ _ => trivial) n)

theorem of_block (ss : List Stmt) : During s (execBlock (environment (invoke fuel)) ss n).2 :=
  have hl := Returns.lawful s.calls.length
  h.of_returns (hl.working.block (hl.environment (hl.invoke fuel)) ss n)

end

/-- Meanwhile the calls that were active keep their names, the arrays stay stored, and what is called comes on top. -/
theorem names (h : During s n) :
    s.naming <:+ n.naming ∧ n.root.aliases = s.root.aliases ∧
      ∀ name, (s.arrays.get? name).isSome → (n.arrays.get? name).isSome := by
  induction h with
  | refl => exact ⟨List.suffix_refl _, rfl, fun _ h => h⟩
  | tail _ hchange ih =>
    obtain ⟨hchange, hlength⟩ := hchange
    obtain ⟨hsuffix, hroot, hstored⟩ := ih
    rcases hchange.names with hn | ⟨a, rfl⟩ | rfl
    · exact ⟨hn.calls ▸ hsuffix, hn.root.trans hroot, fun name hs => hn.stored name (hstored name hs)⟩
    · exact ⟨hsuffix.trans (List.suffix_cons _ _), hroot, hstored⟩
    · refine ⟨?_, hroot, hstored⟩
      obtain ⟨inner, hinner⟩ := hsuffix
      have hpop (m : Machine) : m.popCall.naming = m.naming.tail := List.map_tail
      rw [hpop, ← hinner]
      cases inner with
      | cons c inner => exact List.suffix_append inner s.naming
      | nil =>
        -- the call that ended was not above those of `s`, so that there are none
        have hnil := congrArg List.length hinner
        simp only [Machine.naming, List.nil_append, List.length_map, Machine.popCall, List.length_tail] at hnil hlength
        have hs : s.naming = [] := List.length_eq_zero_iff.1 (by simp only [Machine.naming, List.length_map]; omega)
        rw [hs]
        exact List.suffix_refl _

end During

/-! ### What a name designates -/

/-- Reading an element, storing, library functions and calls all take the array that is stored as `target`. -/
structure Machine.Designates (m : Machine) (name target : String) (a : TypedArray) : Prop where
  stored : m.arrays.get? target = some a
  array : m.array? name = some a
  element (indices : List Int64) : m.element name indices =
    match a.get? indices with
    | some v => .ok v
    | none => .error (.indexOutOfBounds name (indices.head?.getD 0))
  modify (f : TypedArray → TypedArray) : m.modifyArray name f = { m with arrays := m.arrays.modify target f }
  ints : m.ints name = .ok a.ints
  segments (value : Eval Value) :
    segmentRows m ⟨.ident name, value⟩ = if 1 < a.rows then a.intRows else Library.matrix
  passed (value : Eval Value) : passedArray? ⟨.ident name, value⟩ m = some target

theorem Machine.designates_iff {m : Machine} {name target : String} {a : TypedArray}
    (h : m.arrays.get? target = some a) : m.Designates name target a ↔ m.arrayName name = target := by
  constructor
  · intro hd
    have hpassed : (if (m.array? name).isSome then some (m.arrayName name) else none) = some target :=
      hd.passed (pure (.int 0))
    split at hpassed
    · exact Option.some.inj hpassed
    · cases hpassed
  · rintro rfl
    have harray : m.array? name = some a := h
    refine ⟨h, harray, fun indices => ?_, fun f => rfl, ?_, fun value => ?_, fun value => ?_⟩
    · cases hv : a.get? indices <;> simp only [Machine.element, harray, hv]
    · simp only [Machine.ints, harray]
    · simp only [segmentRows, Expr.ident?, Option.bind_some, harray]
    · simp only [passedArray?, Expr.ident?, harray, Option.isSome_some, if_true]

/-- What a parameter stands for is seen: the calls above that of `s` are of lambdas that have no array under its
name. -/
def Sees (name : String) (s n : Machine) : Prop :=
  ∀ a ∈ n.calls.take (n.calls.length - s.calls.length), a.transparent = true ∧ a.aliases.get? name = none

theorem During.arrayName {s n : Machine} {name : String} (h : During s n) (hsees : Sees name s n) :
    n.arrayName name = s.arrayName name := by
  obtain ⟨⟨inner, hinner⟩, hroot, -⟩ := h.names
  have htake : inner = (n.calls.take (n.calls.length - s.calls.length)).map Activation.naming := by
    have hlength := congrArg List.length hinner
    simp only [Machine.naming, List.length_append, List.length_map] at hlength
    rw [List.map_take, show n.calls.map Activation.naming = inner ++ s.naming from hinner.symm,
      show n.calls.length - s.calls.length = inner.length by omega, List.take_left']
    rfl
  rw [n.arrayName_eq, s.arrayName_eq, ← hinner, hroot]
  refine resolve_append (fun c hc => ?_) s.naming
  rw [htake] at hc
  obtain ⟨a, ha, rfl⟩ := List.mem_map.1 hc
  exact hsees a ha

/-! ### The call itself -/

section

variable {fuel : Nat} {f : Closure} {args : List Arg} {a : Activation} {m m' : Machine}

theorem runBody_state (env : Environment Eval) (body : List Stmt) (a : Activation) (m : Machine) :
    (runBody env body a m).2 = (execBlock env body (m.pushCall a)).2.popCall := by
  cases hcall : inCall a (execBlock env body) m with
  | mk flow n =>
    have hn : (execBlock env body (m.pushCall a)).2.popCall = n := congrArg Prod.snd hcall
    rw [hn, runBody, bind_of_eq hcall]
    cases flow with
    | ret value => cases value <;> rfl
    | _ => rfl

/-- A call whose parameters are bound runs the body on top of the state in which they were, and ends. -/
theorem invoke_state (hd : m.calls.length < maxCalls)
    (hb : (bindParams { Activation.empty with transparent := f.isLambda } f.params args).run m = (.ok a, m')) :
    ((invoke (fuel + 1) f args).run m).2 =
      (execBlock (environment (invoke fuel)) f.body (m'.pushCall a)).2.popCall := by
  have hdepth : (Eval.read fun m => .ok m.calls.length).run m = (.ok m.calls.length, m) := rfl
  rw [invoke, ExceptT.run_bind, bind_of_eq hdepth]
  show ((if maxCalls ≤ m.calls.length then _ else _ : Eval Value).run m).2 = _
  rw [if_neg (Nat.not_le.2 hd), ExceptT.run_bind, bind_of_eq hb]
  exact runBody_state _ f.body a m'

end

end RunningLights.Procedure

namespace RunningLights.Simulation

open Procedure

variable {total : Nat} {baseDelay : Duration} {limits : RunLimits} {commands : List Command}

/-- **Parameters that stand for arrays.**  Take a state of any run in which a function or lambda is called and
parameter `p` is passed the name `x` of an array; no later parameter of the same name is passed one.  Until the call
ends, and wherever `p` is seen, the array that is stored as the caller's `x` stays stored.  In a function, `p`
designates it.  In a lambda, `p` designates what the caller takes the stored name for, which is the same array exactly
if that name is not a parameter of the caller that stands for another one. -/
theorem parameter_designates {m m' : Machine} {fuel : Nat} {f : Closure} {es : List Expr} {a : Activation} {i : Nat}
    {p x : String} (hm : Reaches (startMachine total baseDelay limits commands) m)
    (hb : (bindParams { Activation.empty with transparent := f.isLambda } f.params
      (Expr.arguments (environment (invoke (fuel + 1))) .integer es)).run m = (.ok a, m'))
    (hp : f.params[i]? = some p) (hx : es[i]? = some (Expr.ident x)) (harray : (m.array? x).isSome)
    (hlast : ∀ j > i, f.params[j]? = some p → ∀ y, es[j]? = some (Expr.ident y) → m'.array? y = none) :
    let s := m'.pushCall a
    (∀ n, During s n → Sees p s n →
      n.arrayName p = (if f.isLambda then m.arrayName (m.arrayName x) else m.arrayName x) ∧
      ∃ array, n.arrays.get? (m.arrayName x) = some array ∧
        (n.Designates p (m.arrayName x) array ↔
          f.isLambda = false ∨ m.arrayName (m.arrayName x) = m.arrayName x)) ∧
    (∀ n, During s n → (∀ e : Expr, During s ((e.eval (environment (invoke fuel)) .integer).run n).2) ∧
      ∀ ss, During s (execBlock (environment (invoke fuel)) ss n).2) ∧
    (m.calls.length < maxCalls →
      ((invoke (fuel + 1) f (Expr.arguments (environment (invoke (fuel + 1))) .integer es)).run m).2 =
        (execBlock (environment (invoke fuel)) f.body s).2.popCall) := by
  intro s
  have hl := SameNames.step.lawful
  have henv : ∀ e : Expr, Keeps SameNames _ (e.eval (environment (invoke (fuel + 1))) .integer).run := fun e =>
    hl.toOperational.eval (hl.environment (hl.invoke (fuel + 1))) fun _ _ => trivial
  obtain ⟨hnames, halias⟩ := bindParams_alias henv i f.params es hb hp hx harray hlast
  have htransparent : a.transparent = f.isLambda := transparent_bindParams (congrArg Prod.fst hb)
  have hroot : m'.root.aliases = [] := hnames.root.trans (hm.keeps Change.root_aliases rfl)
  have hs : s.arrayName p = if f.isLambda then m.arrayName (m.arrayName x) else m.arrayName x := by
    have hcons : s.naming = (a.aliases, f.isLambda) :: m'.naming := by rw [← htransparent]; rfl
    rw [s.arrayName_eq, hcons, show s.root = m'.root from rfl]
    simp only [resolve, halias, Option.getD_some, hroot]
    split
    · rw [← hroot, ← m'.arrayName_eq, hnames.arrayName]
    · rfl
  refine ⟨fun n hn hsees => ?_, fun n hn => ⟨hn.of_eval fuel, hn.of_block fuel⟩, fun hd => invoke_state hd hb⟩
  have hname := (hn.arrayName hsees).trans hs
  have hstored : (n.arrays.get? (m.arrayName x)).isSome := hn.names.2.2 _ (hnames.stored _ harray)
  obtain ⟨array, hget⟩ := Option.isSome_iff_exists.1 hstored
  refine ⟨hname, array, hget, ?_⟩
  rw [Machine.designates_iff hget, hname]
  cases f.isLambda <;> simp

/-- The start of a run that may do ten units of work. -/
def tenUnits : Machine := startMachine 2 (.ofMillis 30) ⟨10, 600, 0⟩ [.act .allOn]

def firstSet : TypedArray := ⟨1, 2, .integer, #[.int 1, .int 0]⟩

def twoArrays : Machine :=
  let zeros := TypedArray.zeroed 1 2 .integer
  { tenUnits with arrays := (tenUnits.arrays.set "a" zeros).set "b" zeros }

theorem reaches_twoArrays : Reaches tenUnits twoArrays := by
  have hzeros : (TypedArray.zeroed 1 2 .integer).Sound := TypedArray.sound_zeroed _ (by decide)
  exact .tail (.single (.edit (.setArray "a" hzeros))) (.edit (.setArray "b" hzeros))

/-- What sets the first element of its parameter, as a function or as a lambda. -/
def marker (isLambda : Bool) : Closure :=
  ⟨"mark", ["target"], [.act (.assign "target" [.ofWord 0] .set (some (.ofWord 1)))], isLambda⟩

/-- An activation in which one parameter stands for an array. -/
def standing (p target : String) (transparent : Bool) : Activation :=
  { Activation.empty with aliases := [(p, target)], transparent }

theorem parameter_designates_marker :
    let s := twoArrays.pushCall (standing "target" "b" false)
    let n := (execBlock (environment (invoke 0)) (marker false).body s).2
    During s n ∧ n.arrays.get? "b" = some firstSet ∧ n.Designates "target" "b" firstSet := by
  have hlast : ∀ j > 0, (marker false).params[j]? = some "target" → ∀ y, [Expr.ident "b"][j]? = some (Expr.ident y) →
      twoArrays.array? y = none := by
    intro j hj h
    cases j with
    | zero => cases hj
    | succ j => cases h
  obtain ⟨hduring, hblock, -⟩ := @parameter_designates 2 (.ofMillis 30) ⟨10, 600, 0⟩ [.act .allOn] twoArrays twoArrays 0
    (marker false) [.ident "b"] (standing "target" "b" false) 0 "target" "b" reaches_twoArrays rfl rfl rfl rfl hlast
  have hn := (hblock _ .refl).2 (marker false).body
  obtain ⟨-, array, hget, hiff⟩ := hduring _ hn fun b hb => by cases hb
  cases hget
  exact ⟨hn, rfl, hiff.2 (.inl rfl)⟩

/-- In a function whose parameters `a` and `b` stand for the arrays `b` and `a`, a lambda is given `a`, which stands for
the array `b`.  What it sets is the array `a`. -/
theorem lambda_parameter_misled :
    let m := twoArrays.pushCall { Activation.empty with aliases := [("a", "b"), ("b", "a")] }
    let s := m.pushCall (standing "target" "b" true)
    let n := (execBlock (environment (invoke 0)) (marker true).body s).2
    Reaches tenUnits m ∧
    (bindParams { Activation.empty with transparent := (marker true).isLambda } (marker true).params
      (Expr.arguments (environment (invoke 1)) .integer [.ident "a"])).run m = (.ok (standing "target" "b" true), m) ∧
    m.arrayName "a" = "b" ∧ m.arrays.get? "b" = some (.zeroed 1 2 .integer) ∧
    n.arrays.get? "a" = some firstSet ∧ n.arrays.get? "b" = some (.zeroed 1 2 .integer) ∧
    ¬ ∃ array, s.Designates "target" "b" array := by
  refine ⟨reaches_twoArrays.tail (.pushCall fun _ _ h => by cases h), rfl, rfl, rfl, rfl, rfl, ?_⟩
  rintro ⟨array, hd⟩
  exact absurd ((Machine.designates_iff hd.stored).1 hd) (by decide)

end RunningLights.Simulation
