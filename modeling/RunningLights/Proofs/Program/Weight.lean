import Mathlib.Algebra.GroupWithZero.Nat
import Mathlib.Algebra.Order.BigOperators.Group.List
import Mathlib.Algebra.Order.Group.Nat
import RunningLights.Procedure.Exec

/-!
# The weight of a program

The weight of a statement counts everything in it, also what one pass through it does not run:

* `Stmt.bodyCost_le_weight` — one pass through a list of statements is no more work than what it is part of weighs;
* `Program.weight_ofCommands` — a program weighs no more than its commands.
-/

namespace RunningLights

open Procedure

/-! ### Statements -/

mutual

/-- The work of one pass through a statement and through all blocks in it. -/
def Stmt.weight : Stmt → Nat
  | .act _ => 1
  | .ret _ => 1
  | .loop _ body => 1 + Stmt.weightOfAll body
  | .branch _ yes no => 1 + Stmt.weightOfAll yes + Stmt.weightOfAll no
  | .doLoop body _ => 2 + Stmt.weightOfAll body
  | .lambda _ _ _ body => 1 + Stmt.weightOfAll body

def Stmt.weightOfAll : List Stmt → Nat
  | [] => 0
  | s :: ss => s.weight + Stmt.weightOfAll ss

end

mutual

def Stmt.blocks : Stmt → List (List Stmt)
  | .act _ => []
  | .ret _ => []
  | .loop _ body => body :: Stmt.blocksOfAll body
  | .branch _ yes no => yes :: no :: (Stmt.blocksOfAll yes ++ Stmt.blocksOfAll no)
  | .doLoop body _ => body :: Stmt.blocksOfAll body
  | .lambda _ _ _ body => body :: Stmt.blocksOfAll body

def Stmt.blocksOfAll : List Stmt → List (List Stmt)
  | [] => []
  | s :: ss => s.blocks ++ Stmt.blocksOfAll ss

end

namespace Stmt

mutual

theorem stmtCost_le_weight : ∀ s : Stmt, stmtCost s ≤ s.weight
  | .act _ => Nat.le_refl 1
  | .ret _ => Nat.le_refl 1
  | .loop _ _ => Nat.le_add_right _ _
  | .branch _ yes no => by
    have hyes := bodyCost_le_weightOfAll yes
    have hno := bodyCost_le_weightOfAll no
    simp only [stmtCost, weight]
    omega
  | .doLoop body _ => Nat.add_le_add_left (bodyCost_le_weightOfAll body) 2
  | .lambda _ _ _ _ => Nat.le_add_right _ _

theorem bodyCost_le_weightOfAll : ∀ ss : List Stmt, bodyCost ss ≤ weightOfAll ss
  | [] => Nat.le_refl 0
  | s :: ss => Nat.add_le_add (stmtCost_le_weight s) (bodyCost_le_weightOfAll ss)

end

mutual

/-- A block weighs no more than the statement that it is in. -/
theorem weightOfAll_le_weight : ∀ {s : Stmt} {block : List Stmt}, block ∈ s.blocks → weightOfAll block ≤ s.weight
  | .act _, _, h => by cases h
  | .ret _, _, h => by cases h
  | .loop _ body, block, h => by
    rcases List.mem_cons.1 h with rfl | h
    · exact Nat.le_add_left _ _
    · exact Nat.le_add_left_of_le (weightOfAll_le_weightOfAll h)
  | .branch _ yes no, block, h => by
    simp only [weight]
    rcases List.mem_cons.1 h with rfl | h
    · omega
    · rcases List.mem_cons.1 h with rfl | h
      · omega
      · rcases List.mem_append.1 h with h | h
        · have := weightOfAll_le_weightOfAll h
          omega
        · have := weightOfAll_le_weightOfAll h
          omega
  | .doLoop body _, block, h => by
    rcases List.mem_cons.1 h with rfl | h
    · exact Nat.le_add_left _ _
    · exact Nat.le_add_left_of_le (weightOfAll_le_weightOfAll h)
  | .lambda _ _ _ body, block, h => by
    rcases List.mem_cons.1 h with rfl | h
    · exact Nat.le_add_left _ _
    · exact Nat.le_add_left_of_le (weightOfAll_le_weightOfAll h)

theorem weightOfAll_le_weightOfAll : ∀ {ss : List Stmt} {block : List Stmt}, block ∈ blocksOfAll ss →
    weightOfAll block ≤ weightOfAll ss
  | [], _, h => by cases h
  | s :: ss, block, h => by
    rcases List.mem_append.1 h with h | h
    · exact Nat.le_add_right_of_le (weightOfAll_le_weight h)
    · exact Nat.le_add_left_of_le (weightOfAll_le_weightOfAll h)

end

theorem weightOfAll_append (ss ts : List Stmt) : weightOfAll (ss ++ ts) = weightOfAll ss + weightOfAll ts := by
  induction ss with
  | nil => simp only [List.nil_append, weightOfAll, Nat.zero_add]
  | cons s ss ih => simp only [List.cons_append, weightOfAll, ih, Nat.add_assoc]

theorem weightOfAll_reverse (ss : List Stmt) : weightOfAll ss.reverse = weightOfAll ss := by
  induction ss with
  | nil => rfl
  | cons s ss ih =>
    rw [List.reverse_cons, weightOfAll_append, ih]
    simp only [weightOfAll]
    omega

end Stmt

/-! ### Programs -/

def functionsWeight (fs : List FunctionDef) : Nat := (fs.map fun f => Stmt.weightOfAll f.body).sum

namespace Program

def weight (p : Program) : Nat := Stmt.weightOfAll p.body + functionsWeight p.functions

/-- All blocks of a program: its statements, the bodies of its functions, and the blocks in these. -/
def blocks (p : Program) : List (List Stmt) :=
  (p.body :: Stmt.blocksOfAll p.body) ++ p.functions.flatMap fun f => f.body :: Stmt.blocksOfAll f.body

/-- One pass through a block of a program is no more work than the program weighs. -/
theorem bodyCost_le_weight {p : Program} {block : List Stmt} (h : block ∈ p.blocks) : bodyCost block ≤ p.weight := by
  refine Nat.le_trans (Stmt.bodyCost_le_weightOfAll block) ?_
  rcases List.mem_append.1 h with h | h
  · refine Nat.le_add_right_of_le ?_
    rcases List.mem_cons.1 h with rfl | h
    · exact Nat.le_refl _
    · exact Stmt.weightOfAll_le_weightOfAll h
  · obtain ⟨f, hf, hblock⟩ := List.mem_flatMap.1 h
    have hle : Stmt.weightOfAll f.body ≤ functionsWeight p.functions :=
      List.le_sum_of_mem (List.mem_map_of_mem hf)
    refine Nat.le_add_left_of_le (Nat.le_trans ?_ hle)
    rcases List.mem_cons.1 hblock with rfl | hblock
    · exact Nat.le_refl _
    · exact Stmt.weightOfAll_le_weightOfAll hblock

/-! ### Programs that are being built -/

/-- What the opener of a block adds to the weight of the block. -/
def Opener.weight : Opener → Nat
  | .no _ first => 1 + Stmt.weightOfAll first
  | .doLoop => 2
  | _ => 1

/-- The weight of a block, as far as it is built. -/
def Pending.weight (p : Pending) : Nat := p.opener.weight + Stmt.weightOfAll p.latest

namespace Builder

def weight (b : Builder) : Nat :=
  (b.pending.map Pending.weight).sum + Stmt.weightOfAll b.latest + functionsWeight b.functions

variable {b : Builder}

theorem weight_addStmt (s : Stmt) : (b.addStmt s).weight = b.weight + s.weight := by
  unfold Builder.addStmt
  split
  · simp only [weight, Stmt.weightOfAll]
    omega
  · rename_i p ps hp
    simp only [weight, hp, List.map_cons, List.sum_cons, Pending.weight, Stmt.weightOfAll]
    omega

theorem weight_openBlock (o : Opener) : (b.openBlock o).weight = b.weight + o.weight := by
  simp only [weight, Builder.openBlock, List.map_cons, List.sum_cons, Pending.weight, Stmt.weightOfAll]
  omega

theorem weight_inner {p : Pending} {ps : List Pending} (h : b.pending = p :: ps) :
    b.weight = weight { b with pending := ps } + p.weight := by
  simp only [weight, h, List.map_cons, List.sum_cons]
  omega

theorem weight_complete (p : Pending) (c : Option Operand) : (b.complete p c).weight ≤ b.weight + p.weight := by
  obtain ⟨opener, latest⟩ := p
  cases opener <;>
    simp only [Builder.complete, weight_addStmt, Stmt.weight, Stmt.weightOfAll, Pending.weight, Opener.weight,
      Stmt.weightOfAll_reverse]
  case function name params =>
    simp only [weight, functionsWeight, List.map_cons, List.sum_cons, Stmt.weightOfAll_reverse]
    omega
  all_goals omega

theorem weight_closeWith (p : Pending) (c : Closer) : (b.closeWith p c).weight ≤ b.weight + p.weight := by
  unfold Builder.closeWith
  split
  · rename_i condition ho
    rw [weight_openBlock]
    simp only [Pending.weight, Opener.weight, ho, Stmt.weightOfAll_reverse]
    omega
  · exact weight_complete p _

theorem weight_close (c : Closer) (b : Builder) : (b.close c).weight ≤ b.weight := by
  fun_induction Builder.close c b with
  | case1 b hb => exact Nat.le_refl _
  | case2 b p ps hb outer hc =>
    rw [weight_inner hb]
    exact weight_closeWith p c
  | case3 b p ps hb outer hc _ ih =>
    rw [weight_inner hb]
    exact Nat.le_trans ih (weight_complete p none)

theorem weight_closeAll (b : Builder) : b.closeAll.weight ≤ b.weight := by
  fun_induction Builder.closeAll b with
  | case1 b hb => exact Nat.le_refl _
  | case2 b p ps hb outer _ ih =>
    rw [weight_inner hb]
    exact Nat.le_trans ih (weight_complete p none)

end Builder

end Program

/-- What a command can add to the weight of a program. -/
def Command.weight : Command → Nat
  | .doStart => 2
  | _ => 1

namespace Program

/-- **Every command adds no more than its own weight.** -/
theorem Builder.weight_push (b : Builder) (c : Command) : (b.push c).weight ≤ b.weight + c.weight := by
  cases c <;> simp only [Builder.push, Command.weight]
  case act | ret =>
    rw [weight_addStmt]
    exact Nat.le_refl _
  case loopStart | ifStart | doStart | lambdaStart | functionStart =>
    rw [weight_openBlock]
    exact Nat.le_refl _
  all_goals exact Nat.le_succ_of_le (weight_close _ b)

theorem Builder.weight_foldl (cs : List Command) (b : Builder) :
    (cs.foldl Builder.push b).weight ≤ b.weight + (cs.map Command.weight).sum := by
  induction cs generalizing b with
  | nil => exact Nat.le_refl _
  | cons c cs ih =>
    have hfirst := b.weight_push c
    have hrest := ih (b.push c)
    simp only [List.foldl_cons, List.map_cons, List.sum_cons]
    omega

/-- **A program weighs no more than its commands.** -/
theorem weight_ofCommands (cs : List Command) : (ofCommands cs).weight ≤ (cs.map Command.weight).sum := by
  have hall := Builder.weight_closeAll (cs.foldl Builder.push Builder.empty)
  have hbuilt := Builder.weight_foldl cs Builder.empty
  have hempty : Builder.empty.weight = 0 := rfl
  simp only [weight, ofCommands, functionsWeight, Stmt.weightOfAll_reverse, List.map_reverse, List.sum_reverse]
  simp only [Builder.weight, functionsWeight] at hall hbuilt hempty
  omega

end Program

end RunningLights
