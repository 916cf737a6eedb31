import RunningLights.Proofs.Run.Kinds

/-!
# Laws of computations

A `Law` is a property of the computations of a run.  One that holds of what the machine is asked for and of every
change of it, and that composes, holds of all that an expression does:

* `Query`, `Edit` — the elementary computations of expressions and assignments;
* `Operational.eval` — a law holds of an expression if it holds of the calls in it;
* `Operational.callBuiltin` — a law holds of a library function if it holds of the arguments.
-/

namespace RunningLights

/-! ### The functions that are called -/

mutual

/-- The functions that an expression calls. -/
def Expr.calls : Expr → List String
  | .literal _ => []
  | .ident _ => []
  | .unary _ e => e.calls
  | .binary _ l r => l.calls ++ r.calls
  | .index _ indices => Expr.callsOfAll indices
  | .call name args => name :: Expr.callsOfAll args

def Expr.callsOfAll : List Expr → List String
  | [] => []
  | e :: es => e.calls ++ Expr.callsOfAll es

end

def Operand.calls (o : Operand) : List String :=
  match o.tree with
  | some e => e.calls
  | none => []

def Initializer.calls : Initializer → List String
  | .none => []
  | .scalar o => o.calls
  | .rows values => values.flatten.flatMap Operand.calls

def Action.calls : Action → List String
  | .set channel state => channel.calls ++ state.calls
  | .sleep delay => delay.toList.flatMap Operand.calls
  | .allOn => []
  | .allOff => []
  | .declare d => d.sizes.flatMap Operand.calls ++ d.initializer.calls
  | .assign _ indices _ value => indices.flatMap Operand.calls ++ value.toList.flatMap Operand.calls
  | .callBuiltin b args => b.name :: args.flatMap Operand.calls
  | .callUser name args => name :: args.flatMap Operand.calls

def LoopHeader.calls (h : LoopHeader) : List String := h.start.calls ++ h.bound.calls ++ h.step.calls

namespace Procedure

/-! ### Elementary computations -/

/-- What a computation asks the machine for. -/
inductive Query : ∀ {α : Type}, (Machine → α) → Prop
  | total : Query Machine.total
  | baseDelay : Query Machine.baseDelay
  | halted : Query Machine.halted
  | workLeft : Query Machine.workLeft
  | lookup (name : String) : Query fun m => m.lookup name
  | element (name : String) (indices : List Int64) : Query fun m => m.element name indices
  | ints (name : String) : Query fun m => m.ints name
  | known (name : String) : Query fun m => (m.array? name).isSome
  | passed (arg : Arg) : Query (passedArray? arg)
  | segments (arg : Arg) : Query fun m => segmentRows m arg
  | closure (name : String) : Query fun m => m.function name
  | depth : Query fun m => m.calls.length
  | drawn {α : Type} (f : Generator → α × Generator) : Query fun m => (f m.generator).1

/-- The changes of variables, arrays, channels and the generator, and the operations on words. -/
inductive Edit : (Machine → Machine) → Prop
  | assign (name : String) (v : Value) : Edit fun m => m.assign name v
  | declare (name : String) (kind : VarKind) (isConst : Bool) (v : Value) :
      Edit fun m => m.declare name kind isConst v
  | loopVar (n : Int64) : Edit fun m => m.setLoopVar n
  | setArray (name : String) {a : TypedArray} (ha : a.Sound) : Edit fun m => { m with arrays := m.arrays.set name a }
  | resetArray (name : String) : Edit fun m => m.modifyArray name TypedArray.reset
  | putAll (name : String) (place : Nat) (ns : List Int64) :
      Edit fun m => m.modifyArray name fun a => putAll a place ns
  | element (name : String) (place : List Int64) (f : Value → Value) :
      Edit fun m => m.modifyArray name fun a => a.set place (f ((a.get? place).getD (.int 0)))
  | channel (i : Nat) (on : Bool) : Edit fun m => { m with channels := m.channels.set i on }
  | draw {α : Type} {f : Generator → α × Generator} (hf : ∀ g : Generator, g.Sound → (f g).2.Sound) :
      Edit fun m => { m with generator := (f m.generator).2 }
  | place (n : Nat) : Edit fun m => m.require (.place n)
  | behind (used added : Nat) : Edit fun m => m.require (.behind used added)

/-- A property of computations, whatever they give. -/
abbrev Law := ∀ α : Type, Run α → Prop

/-- A law that composes and holds of queries and edits.  Of what follows a computation it is asked for the values
that the computation can give. -/
structure Operational (C : Law) : Prop where
  pure {α : Type} (a : α) : C α (pure a)
  follow {α β : Type} {x : Run α} {f : α → Run β} : C α x → (∀ m, C β (f (x m).1)) → C β (x >>= f)
  query {α : Type} {f : Machine → α} : Query f → C α (Run.read f)
  edit {f : Machine → Machine} : Edit f → C Unit (Run.change f)

/-- A law that also holds of what records frames.  Of what only runs while the machine has not halted, a weaker law
`A` is asked for. -/
structure Active (C A : Law) : Prop extends Operational C where
  weaken {α : Type} {x : Run α} : C α x → A α x
  andThen {α β : Type} {x : Run α} {f : α → Run β} : A α x → (∀ a, C β (f a)) → A β (x >>= f)
  sleepFor {x : Run Duration} : C Duration x → A Unit (sleepFor x)
  switchAll (on : Bool) : A Unit (switchAll on)

/-- A law that also holds of what asks for work, of what counted loops add to their passes and of lambdas. -/
structure Ticking (C A : Law) : Prop extends Active C A where
  ticked {α : Type} {x y : Run α} : A α x → C α y → C α (do if ← Machine.tick then x else y)
  inLoop (credit : Nat) (l : LoopVar) {x : Run Flow} : C Flow x → C Flow (inLoop credit l x)
  learn (name : String) (f : Closure) : C Unit (Run.change fun m => { m with functions := m.functions.set name f })

/-- A law that also holds of loops that are tested at their end. -/
structure Working (C A : Law) : Prop extends Ticking C A where
  runTested {body : Run Flow} {again : Run Bool} : C Flow body → C Bool again → C Flow (runTested body again)

/-- A law that also holds of what calls add to their bodies, and of fuel that is used up. -/
structure Lawful (C A : Law) : Prop extends Ticking C A where
  inCall {a : Activation} {x : Run Flow} : a.Fresh → C Flow x → C Flow (inCall a x)
  exhaust : C Unit (Run.change Machine.exhaust)

/-- The law holds of names, elements and the calls of some functions in an environment, for arguments that obey
it. -/
structure Obeys (C : Law) (P : String → Prop) (env : Environment Eval) : Prop where
  lookup (name : String) : C _ (env.lookup name).run
  element (name : String) (indices : List Int64) : C _ (env.element name indices).run
  call {name : String} {args : List Arg} : P name → (∀ a ∈ args, C _ a.value.run) → C _ (env.call name args).run

namespace Operational

variable {C : Law} (h : Operational C) {α β : Type}
include h

theorem bind {x : Run α} {f : α → Run β} (hx : C _ x) (hf : ∀ a, C _ (f a)) : C _ (x >>= f) :=
  h.follow hx fun m => hf (x m).1

theorem read {f : Machine → α} (hf : Query f) (g : α → β) : C β (Run.read fun m => g (f m)) :=
  h.bind (h.query hf) fun a => h.pure (g a)

/-! ### Computations that may have no value -/

theorem settle (r : Except EvalError α) : C _ (settle r : Eval α).run := by
  cases r <;> exact h.pure _

theorem evalPure (a : α) : C _ (Pure.pure a : Eval α).run := h.pure _

theorem evalFollow {x : Eval α} {f : α → Eval β} (hx : C _ x.run)
    (hf : ∀ m a, (x.run m).1 = .ok a → C _ (f a).run) : C _ (x >>= f).run := by
  show C _ (x.run >>= ExceptT.bindCont f)
  refine h.follow hx fun m => ?_
  cases hr : (x.run m).1 with
  | ok a => exact hf m a hr
  | error e => exact h.pure _

theorem evalBind {x : Eval α} {f : α → Eval β} (hx : C _ x.run) (hf : ∀ a, C _ (f a).run) : C _ (x >>= f).run :=
  h.evalFollow hx fun _ a _ => hf a

theorem evalRead {f : Machine → α} (hf : Query f) (g : α → Except EvalError β) :
    C _ (Eval.read fun m => g (f m)).run := h.read hf g

theorem evalChange {f : Machine → Machine} (hf : Edit f) : C _ (Eval.change f).run :=
  h.bind (h.edit hf) fun _ => h.pure (Except.ok ())

theorem orElse {x : Eval α} (hx : C _ x.run) (fallback : α) : C _ (orElse x fallback) := by
  refine h.bind hx fun r => ?_
  cases r <;> exact h.pure _

theorem attempt {x : Eval α} (hx : C _ x.run) : C _ (attempt x) := by
  refine h.bind hx fun r => ?_
  cases r <;> exact h.pure _

end Operational

/-! ### Expressions -/

mutual

theorem Operational.eval {C : Law} {P : String → Prop} {env : Environment Eval} {arithmetic : Arithmetic}
    (h : Operational C) (he : Obeys C P env) : ∀ {e : Expr}, (∀ n ∈ e.calls, P n) → C _ (e.eval env arithmetic).run
  | .literal v, _ => h.evalPure v
  | .ident name, _ => he.lookup name
  | .unary _ _, hP => h.evalBind (h.eval he hP) fun _ => h.settle _
  | .binary op l r, hP => by
    have hl : C _ (l.eval env arithmetic).run := h.eval he fun n hn => hP n (List.mem_append_left _ hn)
    have hr : C _ (r.eval env arithmetic).run := h.eval he fun n hn => hP n (List.mem_append_right _ hn)
    cases op with
    | and =>
      refine h.evalBind hl fun v => ?_
      split
      · exact h.evalBind hr fun w => h.evalPure _
      · exact h.evalPure _
    | or =>
      refine h.evalBind hl fun v => ?_
      split
      · exact h.evalPure _
      · exact h.evalBind hr fun w => h.evalPure _
    | _ => exact h.evalBind hl fun v => h.evalBind hr fun w => h.settle _
  | .index name _, hP => h.evalBind (h.evalIndices he hP) fun place => he.element name place
  | .call _ _, hP => he.call (hP _ List.mem_cons_self) (h.arguments he fun n hn => hP n (List.mem_cons_of_mem _ hn))

theorem Operational.evalIndices {C : Law} {P : String → Prop} {env : Environment Eval} {arithmetic : Arithmetic}
    (h : Operational C) (he : Obeys C P env) :
    ∀ {es : List Expr}, (∀ n ∈ Expr.callsOfAll es, P n) → C _ (Expr.evalIndices env arithmetic es).run
  | [], _ => h.evalPure []
  | _ :: _, hP => by
    refine h.evalBind (h.eval he fun n hn => hP n (List.mem_append_left _ hn)) fun v => ?_
    refine h.evalBind (h.settle _) fun n => ?_
    exact h.evalBind (h.evalIndices he fun n hn => hP n (List.mem_append_right _ hn)) fun ns => h.evalPure _

theorem Operational.arguments {C : Law} {P : String → Prop} {env : Environment Eval} {arithmetic : Arithmetic}
    (h : Operational C) (he : Obeys C P env) :
    ∀ {es : List Expr}, (∀ n ∈ Expr.callsOfAll es, P n) →
      ∀ a ∈ Expr.arguments env arithmetic es, C _ a.value.run
  | [], _, _, ha => by cases ha
  | _ :: _, hP, _, ha => by
    rcases List.mem_cons.1 ha with rfl | ha
    · exact h.eval he fun n hn => hP n (List.mem_append_left _ hn)
    · exact h.arguments he (fun n hn => hP n (List.mem_append_right _ hn)) _ ha

end

/-! ### Library functions -/

namespace Operational

variable {C : Law} (h : Operational C)
include h

theorem int {arg : Arg} (ha : C _ arg.value.run) : C _ (Eval.int arg).run :=
  h.evalBind ha fun _ => h.settle _

theorem values : ∀ {args : List Arg}, (∀ a ∈ args, C _ a.value.run) → C _ (Eval.values args).run
  | [], _ => h.evalPure []
  | arg :: args, ha => by
    refine h.evalBind (ha arg List.mem_cons_self) fun v => ?_
    exact h.evalBind (values fun a hm => ha a (List.mem_cons_of_mem _ hm)) fun vs => h.evalPure _

theorem resetCounters (b : Builtin) : ∀ args : List Arg, C _ (resetCounters b args).run
  | [] => h.evalPure ()
  | arg :: args => by
    refine h.evalBind (h.settle _) fun name => ?_
    exact h.evalBind (h.evalChange (.assign name (.int 0))) fun _ => resetCounters b args

theorem resetArray (args : List Arg) : C _ (resetArray args).run := by
  cases args with
  | nil => exact h.settle (.error _)
  | cons array counters =>
    refine h.evalBind (h.settle _) fun name => ?_
    refine h.evalBind (h.evalChange (.resetArray name)) fun _ => ?_
    exact h.evalBind (h.resetCounters _ counters) fun _ => h.evalPure _

theorem appendSegment (found : List Int64) (array last : String) : C _ (appendSegment found array last).run := by
  unfold Procedure.appendSegment
  split
  · exact h.evalPure _
  · refine h.evalBind (h.query (.lookup last)) fun v => ?_
    refine h.evalBind (h.settle _) fun n => ?_
    refine h.evalBind (h.evalRead (.known array) .ok) fun known => ?_
    split
    · refine h.evalBind (h.evalChange (.putAll array _ found)) fun _ => ?_
      refine h.evalBind (h.evalChange (.behind _ _)) fun _ => ?_
      refine h.evalBind (h.settle _) fun moved => ?_
      exact h.evalBind (h.evalChange (.assign last _)) fun _ => h.evalPure _
    · exact h.settle _

theorem shiftByOrder {args : List Arg} (ha : ∀ a ∈ args, C _ a.value.run) : C _ (shiftByOrder args).run := by
  unfold Procedure.shiftByOrder
  split
  · rename_i sizes rows main mainSize array last target reverse
    split
    · exact h.settle _
    · refine h.evalBind (h.evalRead (.segments sizes) .ok) fun table => ?_
      refine h.evalBind (h.int (ha rows (by simp))) fun rowLimit => ?_
      refine h.evalBind (h.settle _) fun mainName => ?_
      refine h.evalBind (h.query (.ints mainName)) fun channels => ?_
      refine h.evalBind (h.int (ha mainSize (by simp))) fun size => ?_
      refine h.evalBind (h.settle _) fun arrayName => ?_
      refine h.evalBind (h.settle _) fun lastName => ?_
      refine h.evalBind (h.int (ha target (by simp))) fun segment => ?_
      cases reverse with
      | nil => exact h.evalBind (h.evalPure false) fun _ => h.appendSegment _ arrayName lastName
      | cons arg rest =>
        refine h.evalBind (ha arg (by simp)) fun v => ?_
        exact h.evalBind (h.evalPure v.truthy) fun _ => h.appendSegment _ arrayName lastName
  · exact h.settle _

theorem draw {α : Type} {f : Generator → α × Generator} (hf : ∀ g : Generator, g.Sound → (f g).2.Sound) :
    C _ (Eval.draw f).run :=
  h.bind (h.query (.drawn f)) fun a => h.bind (h.edit (.draw hf)) fun _ => h.pure (Except.ok a)

theorem randomNumber (vs : List Value) : C _ (randomNumber vs).run := by
  unfold Procedure.randomNumber
  split
  · refine h.evalBind (h.settle _) fun max => ?_
    exact h.evalBind (h.draw fun g _ => g.sound_next) fun n => h.evalPure _
  · refine h.evalBind (h.settle _) fun min => ?_
    refine h.evalBind (h.settle _) fun max => ?_
    exact h.evalBind (h.draw fun _ hg => hg.between min max) fun n => h.settle _
  · exact h.settle _

theorem callBuiltin (b : Builtin) {args : List Arg} (ha : ∀ a ∈ args, C _ a.value.run) :
    C _ (callBuiltin b args).run := by
  cases b with
  | resetArray => exact h.resetArray args
  | shiftByOrder => exact h.shiftByOrder ha
  | random => exact h.evalBind (h.values ha) fun vs => h.randomNumber vs
  | _ => exact h.evalBind (h.values ha) fun vs => h.settle _

end Operational

end Procedure

end RunningLights
