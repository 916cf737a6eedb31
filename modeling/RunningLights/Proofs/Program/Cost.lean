import RunningLights.Proofs.Program.Weight
import RunningLights.Proofs.Run.Law

/-!
# The work of a program that is read off its commands

A program is plain if no loop of it is tested at its end and it calls no function of its own.  One pass through all
of it is no more work than it has commands:

* `Commands.Plain`, `Program.Plain` — plain lists of commands and plain programs;
* `Program.Builder.Fits` — all that is built from plain commands is plain;
* `Program.plain_ofCommands` — the program of plain commands is plain, and its cost is bounded by their number.
-/

namespace RunningLights

open Procedure

/-! ### Plain commands -/

def Command.calls : Command → List String
  | .act a => a.calls
  | .ret value => value.toList.flatMap Operand.calls
  | .loopStart header => header.calls
  | .ifStart c => c.calls
  | .doEnd c => c.toList.flatMap Operand.calls
  | _ => []

/-- The function or lambda that a command opens. -/
def Command.makes? : Command → Option String
  | .lambdaStart name _ _ => some name
  | .functionStart name _ => some name
  | _ => none

/-- Commands without loops that are tested at their end, which call nothing but library functions and names that
none of them opens a function or lambda for. -/
structure Commands.Plain (cs : List Command) : Prop where
  counted : ∀ c ∈ cs, c ≠ .doStart
  foreign : ∀ c ∈ cs, ∀ name ∈ c.calls, Builtin.ofName? name = none → ∀ d ∈ cs, d.makes? ≠ some name

/-- The name is that of a library function, or of no function that the program makes. -/
def Foreign (made : String → Prop) (name : String) : Prop := Builtin.ofName? name = none → ¬ made name

/-! ### Plain programs -/

variable {made : String → Prop}

mutual

/-- A statement that makes and calls only what it may, with plain statements in it.  The body of a lambda is not
looked at: it is not run. -/
def Stmt.Plain (made : String → Prop) : Stmt → Prop
  | .act a => ∀ name ∈ a.calls, Foreign made name
  | .ret value => ∀ o ∈ value, ∀ name ∈ o.calls, Foreign made name
  | .loop header body => (∀ name ∈ header.calls, Foreign made name) ∧ Stmt.AllPlain made body
  | .branch c yes no => (∀ name ∈ c.calls, Foreign made name) ∧ Stmt.AllPlain made yes ∧ Stmt.AllPlain made no
  | .doLoop _ _ => False
  | .lambda name _ _ _ => made name

def Stmt.AllPlain (made : String → Prop) : List Stmt → Prop
  | [] => True
  | s :: ss => s.Plain made ∧ Stmt.AllPlain made ss

end

theorem Stmt.allPlain_iff {ss : List Stmt} : AllPlain made ss ↔ ∀ s ∈ ss, s.Plain made := by
  induction ss with
  | nil => simp [AllPlain]
  | cons s ss ih => simp [AllPlain, ih]

theorem Stmt.allPlain_reverse {ss : List Stmt} : AllPlain made ss.reverse ↔ AllPlain made ss := by
  simp [allPlain_iff]

structure FunctionDef.Plain (made : String → Prop) (f : FunctionDef) : Prop where
  name : made f.name
  body : Stmt.AllPlain made f.body

structure Program.Plain (made : String → Prop) (p : Program) : Prop where
  body : Stmt.AllPlain made p.body
  functions : ∀ f ∈ p.functions, f.Plain made

/-! ### The cost of statements -/

theorem one_le_stmtCost (s : Stmt) : 1 ≤ stmtCost s := by
  cases s <;> simp only [stmtCost] <;> omega

def functionsCost : List FunctionDef → Nat
  | [] => 0
  | f :: fs => bodyCost f.body + functionsCost fs

theorem bodyCost_le_functionsCost {f : FunctionDef} {fs : List FunctionDef} (h : f ∈ fs) :
    bodyCost f.body ≤ functionsCost fs := by
  induction fs with
  | nil => cases h
  | cons g fs ih =>
    show bodyCost f.body ≤ bodyCost g.body + functionsCost fs
    rcases List.mem_cons.1 h with rfl | h
    · exact Nat.le_add_right _ _
    · exact Nat.le_trans (ih h) (Nat.le_add_left _ _)

/-- The work of one straight pass through a program and all functions of it. -/
def Program.cost (p : Program) : Nat := bodyCost p.body + functionsCost p.functions

theorem functionsCost_le_functionsWeight (fs : List FunctionDef) : functionsCost fs ≤ functionsWeight fs := by
  induction fs with
  | nil => exact Nat.le_refl 0
  | cons f fs ih =>
    have hbody := Stmt.bodyCost_le_weightOfAll f.body
    simp only [functionsCost, functionsWeight, List.map_cons, List.sum_cons] at ih ⊢
    omega

namespace Program

theorem cost_le_weight (p : Program) : p.cost ≤ p.weight :=
  Nat.add_le_add (Stmt.bodyCost_le_weightOfAll p.body) (functionsCost_le_functionsWeight p.functions)

/-! ### Blocks that are being built -/

def Opener.Plain (made : String → Prop) : Opener → Prop
  | .loop header => ∀ name ∈ header.calls, Foreign made name
  | .yes c => ∀ name ∈ c.calls, Foreign made name
  | .no c first => (∀ name ∈ c.calls, Foreign made name) ∧ Stmt.AllPlain made first
  | .doLoop => False
  | .lambda name _ _ => made name
  | .function name _ => made name

structure Pending.Plain (made : String → Prop) (p : Pending) : Prop where
  opener : p.opener.Plain made
  latest : Stmt.AllPlain made p.latest

namespace Builder

/-- All that is built is plain. -/
structure Fits (made : String → Prop) (b : Builder) : Prop where
  pending : ∀ p ∈ b.pending, p.Plain made
  latest : Stmt.AllPlain made b.latest
  functions : ∀ f ∈ b.functions, f.Plain made

namespace Fits

variable {b : Builder}

theorem addStmt {s : Stmt} (h : Fits made b) (hs : s.Plain made) : Fits made (b.addStmt s) := by
  obtain ⟨pending, latest, functions⟩ := h
  unfold Builder.addStmt
  split
  · exact ⟨by assumption, ⟨hs, latest⟩, functions⟩
  · rename_i p ps hp
    rw [hp] at pending
    obtain ⟨hinner, houter⟩ := List.forall_mem_cons.1 pending
    exact ⟨List.forall_mem_cons.2 ⟨⟨hinner.opener, hs, hinner.latest⟩, houter⟩, latest, functions⟩

theorem openBlock {o : Opener} (h : Fits made b) (ho : o.Plain made) : Fits made (b.openBlock o) := by
  obtain ⟨pending, latest, functions⟩ := h
  exact ⟨List.forall_mem_cons.2 ⟨⟨ho, trivial⟩, pending⟩, latest, functions⟩

theorem inner {p : Pending} {ps : List Pending} (h : Fits made b) (hp : b.pending = p :: ps) :
    p.Plain made ∧ Fits made { b with pending := ps } := by
  obtain ⟨pending, latest, functions⟩ := h
  rw [hp] at pending
  obtain ⟨hinner, houter⟩ := List.forall_mem_cons.1 pending
  exact ⟨hinner, houter, latest, functions⟩

theorem complete {p : Pending} (h : Fits made b) (hp : p.Plain made) (c : Option Operand) :
    Fits made (b.complete p c) := by
  obtain ⟨opener, latest⟩ := p
  obtain ⟨ho, hl⟩ := hp
  have hr : Stmt.AllPlain made latest.reverse := Stmt.allPlain_reverse.2 hl
  simp only [Builder.complete]
  cases opener with
  | loop header => exact h.addStmt (s := .loop header latest.reverse) ⟨ho, hr⟩
  | yes c => exact h.addStmt (s := .branch c latest.reverse []) ⟨ho, hr, trivial⟩
  | no c yes => exact h.addStmt (s := .branch c yes latest.reverse) ⟨ho.1, ho.2, hr⟩
  | doLoop => exact ho.elim
  | lambda name capture params => exact h.addStmt (s := .lambda name capture params latest.reverse) ho
  | function name params =>
    obtain ⟨pending, outer, functions⟩ := h
    exact ⟨pending, outer, List.forall_mem_cons.2 ⟨⟨ho, hr⟩, functions⟩⟩

theorem closeWith {p : Pending} (h : Fits made b) (hp : p.Plain made) (c : Closer) :
    Fits made (b.closeWith p c) := by
  unfold Builder.closeWith
  split
  · rename_i condition ho
    have hyes : (Opener.no condition p.latest.reverse).Plain made := by
      refine ⟨?_, Stmt.allPlain_reverse.2 hp.latest⟩
      have hc := hp.opener
      rw [ho] at hc
      exact hc
    exact h.openBlock hyes
  · exact h.complete hp _

theorem close (h : Fits made b) (c : Closer) : Fits made (b.close c) := by
  fun_induction Builder.close c b with
  | case1 b hb => exact h
  | case2 b p ps hb outer hc =>
    obtain ⟨hp, ho⟩ := h.inner hb
    exact ho.closeWith hp c
  | case3 b p ps hb outer hc _ ih =>
    obtain ⟨hp, ho⟩ := h.inner hb
    exact ih (ho.complete hp none)

theorem closeAll (h : Fits made b) : Fits made b.closeAll := by
  fun_induction Builder.closeAll b with
  | case1 b hb => exact h
  | case2 b p ps hb outer _ ih =>
    obtain ⟨hp, ho⟩ := h.inner hb
    exact ih (ho.complete hp none)

theorem push {c : Command} (h : Fits made b) (hd : c ≠ .doStart) (hc : ∀ name ∈ c.calls, Foreign made name)
    (hm : ∀ name, c.makes? = some name → made name) : Fits made (b.push c) := by
  cases c with
  | act a => exact h.addStmt (s := .act a) hc
  | ret value =>
    refine h.addStmt (s := .ret value) fun o ho name hn => hc name ?_
    exact List.mem_flatMap.2 ⟨o, Option.mem_toList.2 ho, hn⟩
  | loopStart header => exact h.openBlock (o := .loop header) hc
  | ifStart c => exact h.openBlock (o := .yes c) hc
  | doStart => exact absurd rfl hd
  | lambdaStart name capture params => exact h.openBlock (o := .lambda name capture params) (hm name rfl)
  | functionStart name params => exact h.openBlock (o := .function name params) (hm name rfl)
  | loopEnd => exact h.close _
  | elseMark => exact h.close _
  | ifEnd => exact h.close _
  | doEnd c => exact h.close _
  | functionEnd => exact h.close _

theorem foldl_push : ∀ (cs : List Command) {b : Builder}, Fits made b →
    (∀ c ∈ cs, c ≠ .doStart) → (∀ c ∈ cs, ∀ name ∈ c.calls, Foreign made name) →
    (∀ c ∈ cs, ∀ name, c.makes? = some name → made name) → Fits made (cs.foldl Builder.push b)
  | [], _, h, _, _, _ => h
  | c :: cs, b, h, hd, hc, hm => by
    rw [List.forall_mem_cons] at hd hc hm
    exact foldl_push cs (h.push hd.1 hc.1 hm.1) hd.2 hc.2 hm.2

theorem empty : Fits made Builder.empty where
  pending _ hp := by cases hp
  latest := trivial
  functions _ hf := by cases hf

end Fits

end Builder

/-- **Plain commands make a plain program**, and one pass through it is no more work than there are commands. -/
theorem plain_ofCommands {cs : List Command} (h : Commands.Plain cs) :
    (ofCommands cs).Plain (fun name => ∃ c ∈ cs, c.makes? = some name) ∧ (ofCommands cs).cost ≤ cs.length := by
  have hfit : Builder.Fits (fun name => ∃ c ∈ cs, c.makes? = some name)
      (cs.foldl Builder.push Builder.empty).closeAll := by
    refine (Builder.Fits.empty.foldl_push cs h.counted ?_ fun c hc name hn => ⟨c, hc, hn⟩).closeAll
    rintro c hc name hn hb ⟨d, hd, hm⟩
    exact h.foreign c hc name hn hb d hd hm
  have hweight : (cs.map Command.weight).sum = cs.length := by
    have hone : ∀ c ∈ cs, c.weight = 1 := by
      intro c hc
      have hcounted := h.counted c hc
      cases c with
      | doStart => exact absurd rfl hcounted
      | _ => rfl
    rw [List.map_congr_left hone, List.map_const', List.sum_replicate_nat, Nat.mul_one]
  refine ⟨⟨Stmt.allPlain_reverse.2 hfit.latest, fun f hf => hfit.functions f (List.mem_reverse.1 hf)⟩, ?_⟩
  exact hweight ▸ Nat.le_trans (cost_le_weight _) (weight_ofCommands cs)

end Program

end RunningLights
