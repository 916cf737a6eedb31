import Mathlib.Logic.Relation
import RunningLights.Procedure.Simulation
import RunningLights.Proofs.Run.Relation

/-!
# The states of a run

A run goes from state to state by elementary changes:

* `Change` — one elementary change;
* `Reaches` — what comes of such changes, one after another;
* `Reaches.lawful` — every computation of a run leads from a state to one that it reaches;
* `Reaches.keeps` — what every elementary change keeps holds in every state that is reached.
-/

namespace RunningLights.Procedure

inductive Change (m : Machine) : Machine → Prop
  | edit {f : Machine → Machine} : Edit f → Change m (f m)
  | fill (on : Bool) : Change m { m with channels := m.channels.fill on }
  | beginSleep : Change m m.beginSleep
  | endSleep : Change m m.endSleep
  | capture (d : Duration) (label : Option String) : Change m (m.capture d label)
  | tick : Change m m.tick.2
  | grant (credit : Nat) : Change m (m.grant credit)
  | pushLoop (l : LoopVar) : Change m (m.pushLoop l)
  | popLoop : Change m m.popLoop
  /-- A call starts with its parameters. -/
  | pushCall {a : Activation} : a.Fresh → Change m (m.pushCall a)
  | popCall : Change m m.popCall
  | learn (name : String) (f : Closure) : Change m { m with functions := m.functions.set name f }
  | exhaust : Change m m.exhaust

abbrev Reaches : Machine → Machine → Prop := Relation.ReflTransGen Change

namespace Reaches

variable {m n : Machine}

theorem workStep : WorkStep Reaches where
  refl _ := .refl
  trans hmn hno := hmn.trans hno
  edit _ hf := .single (.edit hf)
  sleep {m n} d _ hn := by
    have hend : Reaches n (n.endSleep.capture d none) := .tail (.single .endSleep) (.capture d none)
    exact .head .beginSleep (hn.trans hend)
  switchAll {m} on _ := by
    have hfill : Reaches m { m with channels := m.channels.fill on } := .single (.fill on)
    exact hfill.tail (.capture m.baseDelay (some (switchLabel on)))
  tick _ := .single .tick
  loop {m n} credit l hn := by
    have hstart : Reaches m ((m.grant credit).pushLoop l) := .tail (.single (.grant credit)) (.pushLoop l)
    exact (hstart.trans hn).tail .popLoop
  learn _ name f := .single (.learn name f)

/-- **States of a run.**  Whatever a computation of a run does, it does by elementary changes. -/
theorem lawful : Lawful (Keeps Reaches) (KeepsLive Reaches) where
  toTicking := workStep.ticking
  inCall {a x} ha hx m := by
    have hbody : Reaches (m.pushCall a) (x (m.pushCall a)).2 := hx (m.pushCall a)
    exact .tail (.head (.pushCall ha) hbody) .popCall
  exhaust _ := .single .exhaust

/-- What a name, an element and a call stand for in a program is found by elementary changes, if the arguments are. -/
theorem environment : Obeys (Keeps Reaches) (fun _ => True) programEnvironment :=
  lawful.toOperational.environment (lawful.invoke _)

theorem of_eval (e : Expr) (m : Machine) : Reaches m ((e.eval programEnvironment .integer).run m).2 :=
  lawful.toOperational.eval environment (fun _ _ => trivial) m

theorem of_block (ss : List Stmt) (m : Machine) : Reaches m (execBlock programEnvironment ss m).2 :=
  lawful.working.block environment ss m

theorem keeps {Q : Machine → Prop} (hQ : ∀ {m n}, Change m n → Q m → Q n) (h : Reaches m n) (hm : Q m) : Q n := by
  induction h with
  | refl => exact hm
  | tail _ hc ih => exact hQ hc ih

end Reaches

end RunningLights.Procedure

namespace RunningLights.Simulation

open Procedure

/-- The state in which the run of some commands starts. -/
abbrev startMachine (total : Nat) (baseDelay : Duration) (limits : RunLimits) (commands : List Command) : Machine :=
  .start total baseDelay limits.frameCap (workLimit limits commands.length) limits.seed

/-- The run of some commands goes from its start to its end by elementary changes. -/
theorem reaches_finalMachine (total : Nat) (baseDelay : Duration) (limits : RunLimits) (commands : List Command) :
    Reaches (startMachine total baseDelay limits commands) (finalMachine total baseDelay limits commands) :=
  Reaches.lawful.program _ _

end RunningLights.Simulation
