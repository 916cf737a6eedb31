import Mathlib.Algebra.GroupWithZero.Nat
import RunningLights.Proofs.Run.Initializing
import RunningLights.Proofs.Run.Reach

/-!
# Runs that fail

A run fails when an operation that nothing has checked has a result that is no word:

* `Machine.failed_require` — an operation leaves the run as it is exactly if its result fits;
* `appendSegment_fits`, `appendSegment_unfit` — the index of the last used element, when a segment is appended;
* `fillArray_failed_iff` — the places of the values that a declaration stores;
* `Edit.failed` — expressions and assignments fail in no other way.
-/

namespace RunningLights.Procedure

open Number

/-! ### Operations on words -/

section

variable {op : WordOperation} {m : Machine}

theorem WordOperation.failure?_eq_none : op.failure? = none ↔ op.Fits := by
  unfold failure?
  split <;> simp [*]

theorem WordOperation.failure?_eq_some {op' : WordOperation} :
    op.failure? = some op' ↔ ¬ op.Fits ∧ op = op' := by
  unfold failure?
  split <;> simp [*]

theorem Machine.failed_require : (m.require op).failed = none ↔ m.failed = none ∧ op.Fits := by
  rw [← WordOperation.failure?_eq_none]
  exact Option.or_eq_none_iff

/-- An edit fails only for a place or an index. -/
theorem Edit.failed {f : Machine → Machine} (hf : Edit f) (m : Machine) :
    (f m).failed = m.failed ∨
      ∃ op : WordOperation, (∀ work, op ≠ .count work) ∧ (f m).failed = m.failed.or op.failure? := by
  have hcurrent (g : Activation → Activation) : (m.modifyCurrent g).failed = m.failed := by
    obtain ⟨calls, root, hg⟩ := m.modifyCurrent_eq g
    rw [hg]
  cases hf with
  | assign name v =>
    refine .inl ?_
    simp only [Machine.assign]
    split
    · rfl
    · exact hcurrent _
  | declare | loopVar => exact .inl (hcurrent _)
  | place n => exact .inr ⟨.place n, fun _ h => (by cases h), rfl⟩
  | behind used added => exact .inr ⟨.behind used added, fun _ h => (by cases h), rfl⟩
  | _ => exact .inl rfl

end

/-! ### Segments that are appended -/

section

variable {m : Machine} {found : List Int64} {array last : String} {v : Value} {n : Int64} (hfound : found ≠ [])
  (hlast : m.lookup last = .ok v) (hn : v.asInt = .ok n) (harray : (m.array? array).isSome = true)
include hfound hlast hn harray

/-- The segment is stored before the index is moved. -/
theorem appendSegment_run :
    (appendSegment found array last).run m =
      (do
        let moved ← settle (Eval.word (n.toInt.toNat + found.length))
        Eval.change fun m => m.assign last (.int moved)
        pure (.int (Int64.ofNat found.length)) : Eval Value).run
        ((m.modifyArray array fun a => putAll a n.toInt.toNat found).require (.behind n.toInt.toNat found.length)) := by
  have hempty : found.isEmpty = false := by
    cases found with
    | nil => exact absurd rfl hfound
    | cons c found => rfl
  have hread : (Eval.read fun m => m.lookup last).run m = (.ok v, m) := congrArg (·, m) hlast
  have hint : (settle v.asInt : Eval Int64).run m = (.ok n, m) := by rw [hn]; rfl
  have hknown : (Eval.read fun m => .ok (m.array? array).isSome : Eval Bool).run m = (.ok true, m) :=
    congrArg (fun known => (Except.ok known, m)) harray
  rw [appendSegment, hempty, if_neg Bool.false_ne_true, run_bind_ok hread, run_bind_ok hint]
  dsimp only
  rw [run_bind_ok hknown, if_pos rfl]
  rfl

/-- The index is moved to the exact sum, if that fits. -/
theorem appendSegment_fits {moved : Int64} (hmoved : moved.toInt = n.toInt.toNat + found.length) :
    (appendSegment found array last).run m =
      (.ok (.int (Int64.ofNat found.length)),
        (m.modifyArray array fun a => putAll a n.toInt.toNat found).assign last (.int moved)) := by
  have hfits : (WordOperation.behind n.toInt.toNat found.length).Fits := by
    have h := fits_toInt moved
    rwa [hmoved] at h
  have hword : Eval.word (n.toInt.toNat + found.length) = .ok moved := by
    rw [← hmoved, Eval.word, fit?, if_pos (fits_toInt moved), Int64.ofInt_toInt]
  rw [appendSegment_run hfound hlast hn harray, Machine.require_of_fits hfits, hword]
  rfl

/-- If the sum does not fit the run fails, and the index is not moved. -/
theorem appendSegment_unfit (hunfit : ¬ Fits (n.toInt.toNat + found.length)) :
    (appendSegment found array last).run m =
      (.error .overflow,
        (m.modifyArray array fun a => putAll a n.toInt.toNat found).require (.behind n.toInt.toNat found.length)) := by
  have hword : Eval.word (n.toInt.toNat + found.length) = .error .overflow := by rw [Eval.word, fit?, if_neg hunfit]
  rw [appendSegment_run hfound hlast hn harray, hword]
  rfl

end

/-! ### Values that are declared -/

/-- Computing the value does not make a run fail. -/
def Unfailing (env : Environment Eval) (o : Operand) : Prop :=
  ∀ m, (Operand.valueOrZero env o m).2.failed = m.failed

/-- How far apart the rows begin that are stored in an array. -/
def rowStride (a : TypedArray) (rows : List (List Operand)) : Nat :=
  if a.rows = 1 ∨ rows.length = 1 then widest rows else a.cols

/-- The rows that are stored in an array, each as far as that has columns. -/
def shownRows (a : TypedArray) (rows : List (List Operand)) : List (List Operand) :=
  if a.rows = 1 ∨ rows.length = 1 then rows else rows.map fun row => row.take a.cols

section

variable {env : Environment Eval} {a : TypedArray}

theorem size_fillRow (env : Environment Eval) (a : TypedArray) (os : List Operand) (place : Nat) (m : Machine) :
    (fillRow env a place os m).1.data.size = a.data.size := by
  induction os generalizing a place m with
  | nil => rfl
  | cons o os ih =>
    unfold fillRow
    split
    · rfl
    · exact (ih _ _ _).trans (a.size_store place _)

/-- A row makes a run fail exactly if it has a value and begins at no word. -/
theorem fillRow_failed {os : List Operand} (hos : ∀ o ∈ os, Unfailing env o) (place : Nat)
    (hsize : a.data.size < wordBound) (m : Machine) :
    (fillRow env a place os m).2.failed = none ↔ m.failed = none ∧ (os ≠ [] → place < wordBound) := by
  induction os generalizing a place m with
  | nil => exact ⟨fun h => ⟨h, fun hnil => absurd rfl hnil⟩, And.left⟩
  | cons o os ih =>
    obtain ⟨ho, hrest⟩ := List.forall_mem_cons.1 hos
    have hne : o :: os ≠ [] := List.cons_ne_nil o os
    by_cases hfull : a.data.size ≤ place
    · rw [fillRow, if_pos hfull]
      have hrequire : (m.require (.place place)).failed = none ↔ m.failed = none ∧ place < wordBound :=
        Machine.failed_require
      refine hrequire.trans (and_congr_right fun _ => ?_)
      exact ⟨fun h _ => h, fun h => h hne⟩
    · obtain ⟨v, m', hv⟩ : ∃ v m', Operand.valueOrZero env o m = (v, m') := ⟨_, _, rfl⟩
      have hkept : m'.failed = m.failed := by
        have h := ho m
        rwa [hv] at h
      rw [fillRow, if_neg hfull, bind_of_eq hv, ih hrest (place + 1) (by rwa [a.size_store]) m', hkept]
      exact and_congr_right fun _ => ⟨fun _ _ => by omega, fun _ _ => by omega⟩

/-- Rows make a run fail exactly if one that has a value begins at no word. -/
theorem fillRows_failed {stride : Nat} {rows : List (List Operand)} (hrows : ∀ row ∈ rows, ∀ o ∈ row, Unfailing env o)
    (place : Nat) (hsize : a.data.size < wordBound) (m : Machine) :
    (fillRows env stride a place rows m).2.failed = none ↔
      m.failed = none ∧ ∀ r row, rows[r]? = some row → row ≠ [] → place + r * stride < wordBound := by
  induction rows generalizing a place m with
  | nil => exact ⟨fun h => ⟨h, fun r row hr => by simp at hr⟩, And.left⟩
  | cons row rows ih =>
    obtain ⟨hrow, hrest⟩ := List.forall_mem_cons.1 hrows
    obtain ⟨b, m', hb⟩ : ∃ b m', fillRow env a place row m = (b, m') := ⟨_, _, rfl⟩
    have hfirst := fillRow_failed hrow place hsize m
    have hsame : b.data.size = a.data.size := by
      have h := size_fillRow env a row place m
      rwa [hb] at h
    rw [hb] at hfirst
    rw [fillRows, bind_of_eq hb, ih hrest (place + stride) (hsame ▸ hsize) m', hfirst, and_assoc]
    refine and_congr_right fun _ => ⟨?_, fun h => ⟨fun hne => ?_, fun r s hs hne => ?_⟩⟩
    · rintro ⟨hzero, hsucc⟩ r s hs hne
      cases r with
      | zero =>
        cases hs
        rw [Nat.zero_mul]
        exact hzero hne
      | succ r =>
        rw [Nat.succ_mul]
        have hlt := hsucc r s hs hne
        omega
    · have hlt := h 0 row rfl hne
      omega
    · have hlt := h (r + 1) s hs hne
      rw [Nat.succ_mul] at hlt
      omega

theorem fillArray_eq (rows : List (List Operand)) :
    fillArray env a rows = fillRows env (rowStride a rows) a 0 (shownRows a rows) := by
  unfold fillArray rowStride shownRows
  split <;> rfl

theorem mem_shownRows {rows : List (List Operand)} {row : List Operand} (h : row ∈ shownRows a rows) :
    ∀ o ∈ row, o ∈ rows.flatten := by
  intro o ho
  unfold shownRows at h
  split at h
  · exact List.mem_flatten.2 ⟨row, h, ho⟩
  · obtain ⟨whole, hwhole, rfl⟩ := List.mem_map.1 h
    exact List.mem_flatten.2 ⟨whole, hwhole, List.mem_of_mem_take ho⟩

/-- **First values of arrays.**  Storing them makes a run fail exactly if a row that is stored and has a value begins
at no word. -/
theorem fillArray_failed_iff (ha : a.Sound) {rows : List (List Operand)} (hrows : ∀ o ∈ rows.flatten, Unfailing env o)
    (m : Machine) :
    (fillArray env a rows m).2.failed = none ↔
      m.failed = none ∧ ∀ r row, (shownRows a rows)[r]? = some row → row ≠ [] → r * rowStride a rows < wordBound := by
  have hsize : a.data.size < wordBound := Nat.lt_of_le_of_lt ha.atMost (by decide)
  have hshown : ∀ row ∈ shownRows a rows, ∀ o ∈ row, Unfailing env o :=
    fun row hrow o ho => hrows o (mem_shownRows hrow o ho)
  rw [fillArray_eq, fillRows_failed hshown 0 hsize m]
  simp only [Nat.zero_add]

/-- The rows of an array that has any begin at words, if there is memory for what is listed. -/
theorem place_lt_wordBound (ha : a.Sound) (hrows : 0 < a.rows) {rows : List (List Operand)}
    (hlength : rows.length ≤ 2 ^ 32) (hwidth : widest rows ≤ 2 ^ 32) {r : Nat} (hr : r < rows.length) :
    r * rowStride a rows < wordBound := by
  have hcols : a.cols ≤ 2 ^ 32 := by
    have hshape := Nat.le_trans ha.shape ha.atMost
    have hle : a.cols ≤ a.rows * a.cols := Nat.le_mul_of_pos_left _ hrows
    simp only [maxArrayLength] at hshape
    omega
  have hstride : rowStride a rows ≤ 2 ^ 32 := by
    unfold rowStride
    split
    · exact hwidth
    · exact hcols
  have hmul : r * rowStride a rows ≤ (2 ^ 32 - 1) * 2 ^ 32 := Nat.mul_le_mul (by omega) hstride
  simp only [wordBound]
  omega

end

end RunningLights.Procedure
