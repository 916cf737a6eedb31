import RunningLights.Proofs.Script.Strokes
import RunningLights.Script.Executor

/-!
# Runs as sequences of events

All that the run of a script does to the session is to carry out operations and requests, one after another, up to the
first that is refused:

* `Event` — an operation, a request, or someone's wish that the run stops;
* `Session.follow` — the end of a run in which these events happen;
* `Engine.Runs.follows` — every engine that stops at the first event that is refused runs scripts so;
* `Traced` — a computation on the stage that is such a sequence, as far as the session is concerned;
* `runTree_follows` — the run of every script is one.
-/

namespace RunningLights.Script

/-- What can happen to the session while a script runs. -/
inductive Event where
  | operation
  /-- Someone asks the run to stop. -/
  | stop
  | call (r : Request)
  deriving DecidableEq

def Event.play : Event → Play Unit
  | operation => Session.operation
  | stop => modify fun s => { s with stopRequested := true }
  | call r => Session.perform r

namespace Session

/-- The end of a run in which these events happen, up to the first that is refused.  A run of which none is refused
ends as the script makes it end. -/
def follow (events : List Event) (ending : Except ScriptError Unit) (s : Session) : Except ScriptError Unit × Session :=
  match (forM events Event.play : Play Unit) s with
  | (.ok _, s) => (ending, s)
  | (.error a, s) => (.error (.aborted a), s)

variable {events : List Event} {ending : Except ScriptError Unit} {s s' : Session}

theorem follow_of_ok (h : forM events Event.play s = (.ok (), s')) : s.follow events ending = (ending, s') := by
  rw [follow, h]

theorem follow_of_error {a : Abort} (h : forM events Event.play s = (.error a, s')) :
    s.follow events ending = (.error (.aborted a), s') := by
  rw [follow, h]

theorem follow_cons {event : Event} (h : event.play s = (.ok (), s')) :
    s.follow (event :: events) ending = s'.follow events ending := by
  unfold follow
  rw [List.forM_cons, bind_apply, h]

theorem follow_cons_of_refused {event : Event} {a : Abort} (h : event.play s = (.error a, s')) :
    s.follow (event :: events) ending = (.error (.aborted a), s') := by
  unfold follow
  rw [List.forM_cons, bind_apply, h]

end Session

/-! ### Engines -/

/-- What an engine does next: an event happens and it goes on from another state, or the script ends. -/
inductive Emission (State : Type) where
  | event (e : Event) (rest : State)
  | done (ending : Except ScriptError Unit)

/-- An engine that runs scripts, whatever their language is. -/
structure Engine where
  State : Type
  next : State → Emission State

namespace Engine

variable {engine : Engine} {q : engine.State} {s : Session} {ended : Except ScriptError Unit × Session}

/-- The run of an engine from one of its states.  It stops at the first event that is refused. -/
inductive Runs (engine : Engine) : engine.State → Session → Except ScriptError Unit × Session → Prop
  | done {q : engine.State} {s : Session} {ending : Except ScriptError Unit} (h : engine.next q = .done ending) :
      Runs engine q s (ending, s)
  | refused {q rest : engine.State} {s s' : Session} {event : Event} {a : Abort} (h : engine.next q = .event event rest)
      (hplay : event.play s = (.error a, s')) : Runs engine q s (.error (.aborted a), s')
  | event {q rest : engine.State} {s s' : Session} {event : Event} {ended : Except ScriptError Unit × Session}
      (h : engine.next q = .event event rest) (hplay : event.play s = (.ok (), s')) (hrest : Runs engine rest s' ended) :
      Runs engine q s ended

/-- However the engine makes a script end by itself, it has the property. -/
def Ends (engine : Engine) (P : Except ScriptError Unit → Prop) : Prop :=
  ∀ q ending, engine.next q = .done ending → P ending

/-- **Engines.**  A run is the sequence of the events that the engine brings about, up to the first that is refused. -/
theorem Runs.follows (h : engine.Runs q s ended) {P : Except ScriptError Unit → Prop} (hends : engine.Ends P)
    (hok : P (.ok ())) : ∃ events ending, ended = s.follow events ending ∧ P ending := by
  induction h with
  | @done q s ending hnext => exact ⟨[], ending, rfl, hends q ending hnext⟩
  | @refused q rest s s' event a hnext hplay =>
    exact ⟨[event], .ok (), (Session.follow_cons_of_refused hplay).symm, hok⟩
  | @event q rest s s' event ended hnext hplay hrest ih =>
    obtain ⟨events, ending, hended, hending⟩ := ih
    exact ⟨event :: events, ending, hended.trans (Session.follow_cons hplay).symm, hending⟩

/-- The engine that brings about the events of a list. -/
def ofEnding (ending : Except ScriptError Unit) : Engine where
  State := List Event
  next
    | [] => .done ending
    | event :: rest => .event event rest

/-- Every sequence of events is the run of an engine. -/
theorem runs_ofEnding (events : List Event) (ending : Except ScriptError Unit) (s : Session) :
    (ofEnding ending).Runs events s (s.follow events ending) := by
  induction events generalizing s with
  | nil => exact .done rfl
  | cons event rest ih =>
    cases hplay : event.play s with
    | mk result s' =>
      cases result with
      | ok _ =>
        rw [Session.follow_cons hplay]
        exact .event rfl hplay (ih s')
      | error a =>
        rw [Session.follow_cons_of_refused hplay]
        exact .refused rfl hplay

end Engine

/-! ### Traced computations -/

/-- An abort that is no event's can only be for the time. -/
def Signal.Late (e : Signal) : Prop := ∀ a, e = .abort a → ∃ limit, a = .timeout limit

/-- Some events lead from a session to that of a stage, or up to the one that is refused, and then the result is the
abort. -/
inductive Leads {α : Type} (s : Session) : Except Signal α × Stage → Prop
  | through {events : List Event} {result : Except Signal α} {stage : Stage}
      (h : forM events Event.play s = (.ok (), stage.session)) (hlate : ∀ e, result = .error e → e.Late) :
      Leads s (result, stage)
  | aborted {events : List Event} {a : Abort} {stage : Stage}
      (h : forM events Event.play s = (.error a, stage.session)) : Leads s (.error (.abort a), stage)

namespace Leads

variable {α β : Type} {s : Session} {stage : Stage}

/-- Another result and another stage are as good, but for an abort and the session. -/
theorem map {result : Except Signal α} {result' : Except Signal β} {stage' : Stage} (h : Leads s (result, stage))
    (habort : ∀ a, result = .error (.abort a) ↔ result' = .error (.abort a)) (hstage : stage'.session = stage.session) :
    Leads s (result', stage') := by
  cases h with
  | through h hlate =>
    refine .through (hstage ▸ h) ?_
    rintro _ he a rfl
    exact hlate _ ((habort a).2 he) a rfl
  | aborted h =>
    rw [(habort _).1 rfl]
    exact .aborted (hstage ▸ h)

/-- Events follow each other unless the first of them end with an abort. -/
theorem trans {result : Except Signal α} {r : Except Signal β × Stage} (h : Leads s (result, stage))
    (hresult : ∀ a, result ≠ .error (.abort a)) (h' : Leads stage.session r) : Leads s r := by
  cases h with
  | @through events _ _ h _ =>
    -- None of the first events was refused, so the second go on where these have led.
    have happ (more : List Event) :
        (forM (events ++ more) Event.play : Play Unit) s = (forM more Event.play : Play Unit) stage.session := by
      rw [List.forM_append, bind_apply, h]
    cases h' with
    | through h' hlate => exact .through ((happ _).trans h') hlate
    | aborted h' => exact .aborted ((happ _).trans h')
  | aborted h => exact absurd rfl (hresult _)

end Leads

/-- What a computation does to the session is a sequence of events, and it is aborted if one of these is refused. -/
def Traced {α : Type} (act : Act α) : Prop := ∀ stage, Leads stage.session (act stage)

/-- What the functions of a script do is traced. -/
def Calls.AllTraced (calls : Calls) : Prop := ∀ name args act, calls.call? name args = some act → Traced act

namespace Traced

open Act

variable {α β : Type}

/-- A computation that leaves the session alone is traced. -/
theorem of_session {act : Act α} (h : ∀ stage, (act stage).2.session = stage.session)
    (hlate : ∀ stage e, (act stage).1 = .error e → e.Late) : Traced act := by
  intro stage
  rw [← Prod.eta (act stage)]
  refine @Leads.through _ _ [] _ _ ?_ (hlate stage)
  rw [h]
  rfl

theorem pure (a : α) : Traced (pure a : Act α) := of_session (fun _ => rfl) fun _ => nofun

theorem throw (e : Signal) (hlate : e.Late) : Traced (throw e : Act α) :=
  of_session (fun _ => rfl) fun _ _ h => Except.error.inj h ▸ hlate

theorem bind {act : Act α} {f : α → Act β} (hact : Traced act) (hf : ∀ a, Traced (f a)) : Traced (act >>= f) := by
  intro stage
  have h := hact stage
  rw [bind_apply]
  cases hresult : act stage with
  | mk result stage' =>
    rw [hresult] at h
    cases result with
    | ok a => exact h.trans nofun (hf a stage')
    | error e => exact h.map (fun _ => by simp) rfl

theorem play (event : Event) : Traced (Act.play event.play) := by
  intro stage
  have hone : (forM [event] Event.play : Play Unit) stage.session = event.play stage.session := by
    rw [List.forM_cons, List.forM_nil, bind_pure_unit]
  unfold Act.play
  cases h : event.play stage.session with
  | mk result session =>
    cases result with
    | ok a => exact .through (hone.trans h) nofun
    | error a => exact .aborted (hone.trans h)

theorem leaving (restore : List Binding → List Binding) {act : Act α} (h : Traced act) :
    Traced (Act.leaving restore act) := by
  intro stage
  have hact := h stage
  unfold Act.leaving
  cases hresult : act stage with
  | mk result stage' =>
    rw [hresult] at hact
    exact hact.map (fun _ => Iff.rfl) rfl

theorem enclosed {act : Act α} (h : Traced act) : Traced (Act.enclosed act) :=
  fun stage => h.leaving _ stage

theorem inScope (scope : List Binding) {act : Act α} (h : Traced act) : Traced (Act.inScope scope act) :=
  fun stage => leaving (fun _ => stage.scope) h { stage with scope }

theorem returning {act : Act Datum} (h : Traced act) : Traced (Act.returning act) := by
  intro stage
  have hact := h stage
  unfold Act.returning
  cases hresult : act stage with
  | mk result stage' =>
    rw [hresult] at hact
    split
    · rename_i heq
      cases heq
      exact hact.map (by simp) rfl
    · exact hact

theorem pass {act : Act Datum} (h : Traced act) : Traced (Act.pass act) := by
  intro stage
  have hact := h stage
  unfold Act.pass
  cases hresult : act stage with
  | mk result stage' =>
    rw [hresult] at hact
    split
    all_goals
      rename_i heq
      cases heq
      exact hact.map (by simp) rfl

theorem handling {act : Act Datum} {handler : Datum → Act Datum} (h : Traced act) (hhandler : ∀ v, Traced (handler v)) :
    Traced (Act.handling act handler) := by
  intro stage
  have hact := h stage
  unfold Act.handling
  cases hresult : act stage with
  | mk result stage' =>
    rw [hresult] at hact
    split
    · rename_i f p stage'' heq
      cases heq
      split
      -- Only a failure is handled, never an abort, so the handler goes on with the events.
      · exact hact.trans (by simp) (hhandler f.value stage')
      · exact hact
    · exact hact

/-! ### Variables -/

theorem get : Traced (get : Act Stage) := of_session (fun _ => rfl) fun _ => nofun

theorem change {f : Stage → Stage} (h : ∀ stage, (f stage).session = stage.session) :
    Traced (modify f : Act Unit) := of_session h fun _ => nofun

theorem settleAt (place : Position) (r : Except Failure α) : Traced (Act.settleAt place r) := by
  cases r with
  | ok a => exact pure a
  | error f => exact throw _ nofun

theorem define (name : String) (isConst : Bool) (value : Datum) : Traced (Act.define name isConst value) :=
  of_session (fun _ => rfl) fun _ => nofun

theorem changeVariable (name : String) (keys : List Datum) (position : Position)
    (f : Datum → Except Failure α × Datum) : Traced (Act.changeVariable name keys position f) := by
  refine of_session (fun stage => ?_) fun stage e => ?_
  · unfold Act.changeVariable
    split
    split <;> rfl
  · unfold Act.changeVariable
    split
    split
    · exact nofun
    · rintro ⟨⟩
      exact nofun

theorem read (p : Place) : Traced (Act.read p) := by
  cases p with
  | value d => exact pure d
  | cell name keys position =>
    refine get.bind fun stage => ?_
    cases Binding.find? name stage.scope with
    | none => exact throw _ nofun
    | some b => exact settleAt position _

theorem readAll (ps : List Place) : Traced (Act.readAll ps) := by
  induction ps with
  | nil => exact pure []
  | cons p ps ih => exact (read p).bind fun v => ih.bind fun vs => pure (v :: vs)

theorem elementOf (p : Place) (key : Datum) (position : Position) : Traced (Act.elementOf p key position) := by
  cases p with
  | value d => exact (settleAt position _).bind fun _ => pure _
  | cell name keys place => exact pure _

theorem store (op : Option Operator) (p : Place) (new : Datum) (position : Position) :
    Traced (Act.store op p new position) := by
  cases p with
  | value d => exact pure ()
  | cell name keys place =>
    cases op with
    | none => exact changeVariable name keys place _
    | some op => exact changeVariable name keys position _

theorem requireVariable (name : String) (position : Position) : Traced (Act.requireVariable name position) :=
  (read _).bind fun _ => pure _

theorem isConstant (p : Place) : Traced (Act.isConstant p) := by
  cases p with
  | value d => exact pure false
  | cell name keys place => exact get.bind fun stage => pure _

theorem truth (d : Datum) : Traced (Act.truth d) := by
  unfold Act.truth
  split
  · exact pure _
  · exact throw _ nofun

theorem property (d : Datum) (name : String) (position : Position) : Traced (Act.property d name position) := by
  unfold Act.property
  split
  · exact pure _
  · exact throw _ nofun

/-! ### Calls -/

theorem operation : Traced Act.operation := play .operation

theorem randomBelow (bound : Nat) : Traced (Act.randomBelow bound) := by
  intro stage
  unfold Act.randomBelow
  generalize stage.generator.next = g
  exact @Leads.through _ _ [] _ _ rfl nofun

theorem draw : Traced (modify fun stage => { stage with generator := stage.generator.next } : Act Unit) := by
  refine change fun stage => ?_
  dsimp only

theorem randomFrom (low : Int64) (count : Int) : Traced (Act.randomFrom low count) := by
  unfold Act.randomFrom
  split
  · exact pure _
  · exact (randomBelow _).bind fun k => pure _

theorem random {name : String} {args : List Datum} {act : Act Datum} (h : Act.random? name args = some act) :
    Traced act := by
  unfold Act.random? at h
  split at h
  · exact Option.some.inj h ▸ randomFrom _ _
  · exact Option.some.inj h ▸ randomFrom _ _
  · cases h

theorem callLibrary (name : String) (args : List Datum) (position : Position) :
    Traced (Act.callLibrary name args position) := by
  refine get.bind fun stage => ?_
  split
  · rename_i r _
    exact (play (.call r)).bind fun _ => draw.bind fun _ => pure _
  · split
    · exact random ‹_›
    · split
      · exact settleAt position _
      · exact throw _ nofun

theorem callMethod (p : Place) (name : String) (args : List Datum) (position : Position) :
    Traced (Act.callMethod p name args position) := by
  unfold Act.callMethod
  split
  · refine (isConstant _).bind fun constant => ?_
    split
    · exact throw _ nofun
    · exact changeVariable _ _ position _
  · exact settleAt position _
  · exact (read _).bind fun v => callLibrary name _ position

theorem callFunction {calls : Calls} (h : calls.AllTraced) (name : String) (args : List Place) (position : Position) :
    Traced (Act.callFunction calls name args position) := by
  refine operation.bind fun _ => (readAll args).bind fun values => ?_
  split
  · rename_i act hact
    exact h name values act hact
  · split
    · split
      · refine (isConstant _).bind fun constant => ?_
        split
        · exact callMethod _ name _ position
        · exact callMethod _ name _ position
      · exact callLibrary name values position
    · exact callLibrary name values position

/-! ### Loops -/

theorem cyclePasses {test : Act Bool} {body : Act Datum} (htest : Traced test) (hbody : Traced body) (fuel : Nat) :
    Traced (Act.cyclePasses test body fuel) := by
  induction fuel with
  | zero => exact get.bind fun _ => throw _ fun _ h => ⟨_, (Signal.abort.inj h).symm⟩
  | succ fuel ih =>
    refine operation.bind fun _ => htest.bind fun go => ?_
    split
    · refine hbody.pass.bind fun left => ?_
      cases left with
      | none => exact ih
      | some v => exact pure v
    · exact pure _

theorem cycle {test : Act Bool} {body : Act Datum} (htest : Traced test) (hbody : Traced body) :
    Traced (Act.cycle test body) := by
  unfold Act.cycle
  exact get.bind fun stage => cyclePasses htest hbody _

theorem spanPasses (s : Span) {body : Datum → Nat → Act Datum} (hbody : ∀ d k, Traced (body d k)) (left k : Nat) :
    Traced (Act.spanPasses s body left k) := by
  induction left generalizing k with
  | zero => exact pure _
  | succ left ih =>
    refine operation.bind fun _ => (hbody _ k).pass.bind fun ending => ?_
    cases ending with
    | none => exact ih (k + 1)
    | some v => exact pure v

theorem listPasses {body : Datum → Nat → Act Datum} (hbody : ∀ d k, Traced (body d k)) (ds : List Datum) (k : Nat) :
    Traced (Act.listPasses body ds k) := by
  induction ds generalizing k with
  | nil => exact pure _
  | cons d ds ih =>
    refine operation.bind fun _ => (hbody d k).pass.bind fun ending => ?_
    cases ending with
    | none => exact ih (k + 1)
    | some v => exact pure v

theorem overItems (d : Datum) (position : Position) {body : Datum → Nat → Act Datum}
    (hbody : ∀ d k, Traced (body d k)) : Traced (Act.overItems d position body) := by
  unfold Act.overItems
  split
  · exact spanPasses _ hbody _ 0
  · exact listPasses hbody _ 0
  · exact listPasses hbody _ 0
  · exact throw _ nofun

/-! ### Terms and statements -/

end Traced

open Traced

mutual

theorem Calls.AllTraced.term {calls : Calls} (h : calls.AllTraced) : ∀ t : Term, Traced (resolve calls t)
  | .literal v => by
    unfold resolve
    exact operation.bind fun _ => pure _
  | .var name place => by
    unfold resolve
    exact operation.bind fun _ => pure _
  | .array items => by
    unfold resolve
    exact operation.bind fun _ => (h.values items).bind fun _ => pure _
  | .unary s t place => by
    unfold resolve
    exact operation.bind fun _ => (h.term t).bind fun p => (read p).bind fun v => (settleAt place _).bind fun _ =>
      pure _
  | .binary op l r place => by
    unfold resolve
    exact operation.bind fun _ => (h.term l).bind fun p => (read p).bind fun a => (h.term r).bind fun q =>
      (read q).bind fun b => (settleAt place _).bind fun _ => pure _
  | .both l r => by
    unfold resolve
    refine operation.bind fun _ => (h.term l).bind fun p => (read p).bind fun a => (truth a).bind fun holds => ?_
    split
    · exact (h.term r).bind fun q => (read q).bind fun b => (truth b).bind fun _ => pure _
    · exact pure _
  | .either l r => by
    unfold resolve
    refine operation.bind fun _ => (h.term l).bind fun p => (read p).bind fun a => (truth a).bind fun holds => ?_
    split
    · exact pure _
    · exact (h.term r).bind fun q => (read q).bind fun b => (truth b).bind fun _ => pure _
  | .call name args place => by
    unfold resolve
    exact operation.bind fun _ => (h.terms args).bind fun ps => (callFunction h name ps place).bind fun _ => pure _
  | .index base key place => by
    unfold resolve
    exact operation.bind fun _ => (h.term base).bind fun p => (h.term key).bind fun q => (read q).bind fun k =>
      elementOf p k place
  | .property base name place => by
    unfold resolve
    exact operation.bind fun _ => (h.term base).bind fun p => (read p).bind fun d =>
      (property d name place).bind fun _ => pure _
  | .method base name args place => by
    unfold resolve
    refine operation.bind fun _ => (h.term base).bind fun p => (h.values args).bind fun vs => ?_
    split
    · rename_i act hact
      exact (h name vs act hact).bind fun _ => pure _
    · exact (callMethod p name vs place).bind fun _ => pure _
  | .statement s => by
    unfold resolve
    exact (h.statement s).bind fun _ => pure _

theorem Calls.AllTraced.terms {calls : Calls} (h : calls.AllTraced) : ∀ ts : List Term, Traced (resolveAll calls ts)
  | [] => by
    unfold resolveAll
    exact pure _
  | t :: ts => by
    unfold resolveAll
    refine (h.term t).bind fun p => ?_
    split
    · exact (pure _).bind fun p => (h.terms ts).bind fun ps => pure _
    · exact (read _).bind fun v => (pure _).bind fun p => (h.terms ts).bind fun ps => pure _

theorem Calls.AllTraced.values {calls : Calls} (h : calls.AllTraced) : ∀ ts : List Term, Traced (valuesOf calls ts)
  | [] => by
    unfold valuesOf
    exact pure _
  | t :: ts => by
    unfold valuesOf
    exact (h.term t).bind fun p => (read p).bind fun v => (h.values ts).bind fun vs => pure _

theorem Calls.AllTraced.optional {calls : Calls} (h : calls.AllTraced) : ∀ t : Option Term, Traced (valueOr calls t)
  | none => by
    unfold valueOr
    exact pure _
  | some t => by
    unfold valueOr
    exact (h.term t).bind fun p => read p

theorem Calls.AllTraced.statement {calls : Calls} (h : calls.AllTraced) : ∀ s : Statement, Traced (runStatement calls s)
  | .term t => by
    unfold runStatement
    exact operation.bind fun _ => (h.term t).bind fun p => read p
  | .define name isConst value => by
    unfold runStatement
    exact operation.bind fun _ => (h.optional value).bind fun v => (define name isConst v).bind fun _ => pure _
  | .store op target value place => by
    unfold runStatement
    exact operation.bind fun _ => (h.term value).bind fun q => (read q).bind fun v => (h.term target).bind fun p =>
      (store op p v place).bind fun _ => pure _
  | .block body => by
    unfold runStatement
    exact operation.bind fun _ => (h.body true body).enclosed
  | .branch condition yes no => by
    unfold runStatement
    refine operation.bind fun _ => (h.term condition).bind fun p => (read p).bind fun v =>
      (truth v).bind fun holds => ?_
    split
    · exact (h.body true yes).enclosed
    · exact (h.body true no).enclosed
  | .cycle condition body => by
    unfold runStatement
    refine operation.bind fun _ => cycle ?_ (h.body false body).enclosed
    cases condition with
    | none => exact pure true
    | some t => exact (h.term t).bind fun p => (read p).bind fun v => truth v
  | .each name counter items body place => by
    unfold runStatement
    refine operation.bind fun _ => (h.term items).bind fun p => (read p).bind fun d =>
      overItems d place fun item k => ?_
    refine enclosed ?_
    cases counter with
    | none => exact (define name false item).bind fun _ => h.body false body
    | some n => exact (define n false _).bind fun _ => (define name false item).bind fun _ => h.body false body
  | .leave value => by
    unfold runStatement
    exact operation.bind fun _ => (h.optional value).bind fun v => throw _ nofun
  | .again => by
    unfold runStatement
    exact operation.bind fun _ => throw _ nofun
  | .ret value => by
    unfold runStatement
    exact operation.bind fun _ => (h.optional value).bind fun v => throw _ nofun
  | .raise value => by
    unfold runStatement
    exact operation.bind fun _ => (h.optional value).bind fun v => throw _ nofun
  | .attempt body name handler => by
    unfold runStatement
    refine operation.bind fun _ => (h.body true body).enclosed.handling fun v => enclosed ?_
    cases name with
    | none => exact h.body true handler
    | some n => exact (define n false v).bind fun _ => h.body true handler
  | .load path place => by
    unfold runStatement
    refine operation.bind fun _ => (h.term path).bind fun p => (read p).bind fun v => ?_
    split
    · exact throw _ nofun
    · exact throw _ nofun
  | .publish name place => by
    unfold runStatement
    exact operation.bind fun _ => requireVariable name place

theorem Calls.AllTraced.body {calls : Calls} (h : calls.AllTraced) :
    ∀ (wanted : Bool) (body : List Statement), Traced (runBody calls wanted body)
  | wanted, [] => by
    unfold runBody
    exact pure _
  | wanted, [s] => by
    unfold runBody
    split
    · exact pure _
    · exact h.statement s
  | wanted, s :: s' :: ss => by
    unfold runBody
    split
    · exact (h.statement s).bind fun _ => h.body wanted (s' :: ss)
    · exact h.body wanted (s' :: ss)

end

/-! ### Scripts -/

theorem callScript_allTraced (functions : List ScriptFunction) (levels : Nat) :
    (callScript functions levels).AllTraced := by
  induction levels with
  | zero =>
    intro name args act hact
    obtain ⟨f, -, rfl⟩ := Option.map_eq_some_iff.1 hact
    split
    · exact pure _
    · exact throw _ nofun
  | succ levels ih =>
    intro name args act hact
    obtain ⟨f, -, rfl⟩ := Option.map_eq_some_iff.1 hact
    split
    · exact pure _
    · exact operation.bind fun _ => inScope _ (ih.body true f.body).returning

theorem ScriptTree.traced_run (tree : ScriptTree) (levels : Nat) : Traced (tree.run levels) :=
  ((callScript_allTraced tree.functions levels).body true tree.body).returning.bind fun _ => Traced.pure _

/-- **Runs are sequences of events.** Whatever a script is, its run does to the session what some events do, one after
another up to the first that is refused.  If none is, then the only abort that there can be is for the time. -/
theorem runTree_follows (tree : ScriptTree) (levels : Nat) (s : Session) :
    ∃ events ending, runTree tree levels s = s.follow events ending ∧
      ∀ a, ending = .error (.aborted a) → ∃ limit, a = .timeout limit := by
  have hrun := tree.traced_run levels (.start s)
  unfold runTree
  cases hresult : tree.run levels (.start s) with
  | mk result stage =>
    rw [hresult] at hrun
    cases hrun with
    | @through events _ _ h hlate =>
      cases result with
      | ok a => exact ⟨events, .ok (), (Session.follow_of_ok h).symm, nofun⟩
      | error e =>
        cases e with
        | abort a =>
          refine ⟨events, .error (.aborted a), (Session.follow_of_ok h).symm, ?_⟩
          rintro _ ⟨⟩
          exact hlate _ rfl a rfl
        | failed f p => exact ⟨events, .error (.runtime f p), (Session.follow_of_ok h).symm, nofun⟩
        | leave v => exact ⟨events, .ok (), (Session.follow_of_ok h).symm, nofun⟩
        | again => exact ⟨events, .ok (), (Session.follow_of_ok h).symm, nofun⟩
        | ret v => exact ⟨events, .ok (), (Session.follow_of_ok h).symm, nofun⟩
    | @aborted events a _ h => exact ⟨events, .ok (), (Session.follow_of_error h).symm, nofun⟩

theorem runTree_eq_follow (tree : ScriptTree) (levels : Nat) (s : Session) :
    ∃ events ending, runTree tree levels s = s.follow events ending := by
  obtain ⟨events, ending, hrun, -⟩ := runTree_follows tree levels s
  exact ⟨events, ending, hrun⟩

end RunningLights.Script
