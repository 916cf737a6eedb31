import RunningLights.Procedure.Exec

/-!
# Values of a kind

What is stored in a variable or an array is converted to the kind that it was declared with.  These lemmas follow a
value through every way by which it can be stored:

* `TypedArray.Sound` — the elements of an array are of its kind, its rows and columns lie within its elements, and it
  has no more elements than an array may have;
* `Activation.Sound` — the variables of an activation hold values of their kinds;
* `sound_fillArray`, `fresh_bindParams` — what a declaration and a call build is sound;
* `Generator.Sound` — the seed of the generator is one of its states, also after a draw.
-/

namespace RunningLights

namespace TypedArray

/-- The elements are of the kind of the array, every row and column has an element, and there are not too many. -/
structure Sound (a : TypedArray) : Prop where
  kinds : ∀ v ∈ a.data, a.kind.HasKind v
  shape : a.rows * a.cols ≤ a.data.size
  atMost : a.data.size ≤ maxArrayLength

variable {a : TypedArray}

theorem sound_zeroed {rows cols : Nat} (kind : VarKind) (h : rows * cols ≤ maxArrayLength) :
    (zeroed rows cols kind).Sound where
  kinds v hv := by
    obtain ⟨-, rfl⟩ := Array.mem_replicate.1 hv
    exact VarKind.hasKind_convert kind _
  shape := by simp [zeroed]
  atMost := by simpa [zeroed] using h

theorem Sound.store (h : a.Sound) (i : Nat) (v : Value) : (a.store i v).Sound where
  kinds w hw := by
    rcases Array.mem_or_eq_of_mem_setIfInBounds hw with hw | rfl
    · exact h.kinds w hw
    · exact VarKind.hasKind_convert a.kind v
  shape := by simpa [TypedArray.store] using h.shape
  atMost := by simpa [TypedArray.store] using h.atMost

theorem Sound.set (h : a.Sound) (indices : List Int64) (v : Value) : (a.set indices v).Sound := by
  unfold TypedArray.set
  split
  · exact h.store _ v
  · exact h

theorem Sound.extend (h : a.Sound) {n : Nat} (hn : n ≤ maxArrayLength) : (a.extend n).Sound := by
  unfold TypedArray.extend
  split
  · exact h
  · have hkinds : ∀ v ∈ a.data ++ Array.replicate (n - a.data.size) a.kind.zero, a.kind.HasKind v := by
      intro v hv
      rcases Array.mem_append.1 hv with hv | hv
      · exact h.kinds v hv
      · obtain ⟨-, rfl⟩ := Array.mem_replicate.1 hv
        exact VarKind.hasKind_convert a.kind _
    have hsize : (a.data ++ Array.replicate (n - a.data.size) a.kind.zero).size = n := by
      rw [Array.size_append, Array.size_replicate]
      omega
    have hmost : (a.data ++ Array.replicate (n - a.data.size) a.kind.zero).size ≤ maxArrayLength := by omega
    have hshape : a.rows * a.cols ≤ (a.data ++ Array.replicate (n - a.data.size) a.kind.zero).size := by
      have := h.shape
      omega
    split
    · exact ⟨hkinds, Nat.le_of_eq (Nat.one_mul _), hmost⟩
    · exact ⟨hkinds, hshape, hmost⟩

theorem Sound.put (h : a.Sound) (i : Nat) (v : Value) : (a.put i v).Sound := by
  unfold TypedArray.put
  split
  · exact h
  · exact (h.extend (by omega)).store i v

theorem Sound.putAll (h : a.Sound) (place : Nat) (ns : List Int64) : (Procedure.putAll a place ns).Sound := by
  induction ns generalizing a place with
  | nil => exact h
  | cons n ns ih => exact ih (h.put place (.int n)) (place + 1)

theorem Sound.reset (h : a.Sound) : a.reset.Sound where
  kinds v hv := by
    obtain ⟨-, rfl⟩ := Array.mem_replicate.1 hv
    exact VarKind.hasKind_convert a.kind _
  shape := by simpa [TypedArray.reset] using h.shape
  atMost := by simpa [TypedArray.reset] using h.atMost

/-! ### Rows and columns -/

structure InRange (a : TypedArray) (r c : Int64) : Prop where
  row : 0 ≤ r.toInt
  rowLt : r.toInt.toNat < a.rows
  col : 0 ≤ c.toInt
  colLt : c.toInt.toNat < a.cols

theorem place_lt {r c : Int64} (hr : a.InRange r c) : r.toInt.toNat * a.cols + c.toInt.toNat < a.rows * a.cols := by
  have hc := hr.colLt
  calc r.toInt.toNat * a.cols + c.toInt.toNat < r.toInt.toNat * a.cols + a.cols := by omega
    _ = (r.toInt.toNat + 1) * a.cols := (Nat.succ_mul _ _).symm
    _ ≤ a.rows * a.cols := Nat.mul_le_mul_right _ hr.rowLt

theorem Sound.offset? (h : a.Sound) {r c : Int64} (hr : a.InRange r c) :
    a.offset? [r, c] = some (r.toInt.toNat * a.cols + c.toInt.toNat) := by
  have hlt : r.toInt.toNat * a.cols + c.toInt.toNat < a.data.size := Nat.lt_of_lt_of_le (place_lt hr) h.shape
  have hin : 0 ≤ r.toInt ∧ 0 ≤ c.toInt ∧ r.toInt.toNat < a.rows ∧ c.toInt.toNat < a.cols :=
    ⟨hr.row, hr.col, hr.rowLt, hr.colLt⟩
  simp only [TypedArray.offset?, if_pos hin, Option.bind_some, if_pos hlt]

theorem Sound.exists_get? (h : a.Sound) {r c : Int64} (hr : a.InRange r c) : ∃ v, a.get? [r, c] = some v := by
  have ho := h.offset? hr
  have hlt := offset?_lt ho
  refine ⟨a.data[r.toInt.toNat * a.cols + c.toInt.toNat], ?_⟩
  rw [TypedArray.get?, ho, Option.bind_some]
  exact Array.getElem?_eq_getElem hlt

/-- Different rows or columns have different elements. -/
theorem Sound.eq_of_offset? (h : a.Sound) {r c r' c' : Int64} (hr : a.InRange r c) (hr' : a.InRange r' c')
    (he : a.offset? [r, c] = a.offset? [r', c']) : r = r' ∧ c = c' := by
  rw [h.offset? hr, h.offset? hr', Option.some_inj] at he
  have hpos : 0 < a.cols := by have := hr.colLt; omega
  have hrow : r.toInt.toNat = r'.toInt.toNat := by
    have hdiv := congrArg (· / a.cols) he
    simp only [Nat.mul_comm _ a.cols, Nat.mul_add_div hpos, Nat.div_eq_of_lt hr.colLt,
      Nat.div_eq_of_lt hr'.colLt] at hdiv
    exact hdiv
  have hcol : c.toInt.toNat = c'.toInt.toNat := by
    rw [hrow] at he
    omega
  have hrn := hr.row
  have hrn' := hr'.row
  have hcn := hr.col
  have hcn' := hr'.col
  exact ⟨Int64.toInt_inj.1 (by omega), Int64.toInt_inj.1 (by omega)⟩

end TypedArray

namespace Procedure

/-! ### Variables -/

/-- A variable that was declared with a kind holds a value of the kind. -/
def Slot.Sound (s : Slot) : Prop := ∀ k, s.kind = some k → k.HasKind s.value

theorem Slot.Sound.assign {s : Slot} (h : s.Sound) (v : Value) : (s.assign v).Sound := by
  unfold Slot.assign
  split
  · exact h
  · intro k hk
    have hk : s.kind = some k := hk
    simp only [hk, VarKind.convert?]
    exact VarKind.hasKind_convert k v

theorem Slot.sound_of_none {s : Slot} (h : s.kind = none) : s.Sound := by
  intro k hk
  rw [h] at hk
  cases hk

namespace Activation

/-- The variables hold values of the kinds that they were declared with. -/
def Sound (a : Activation) : Prop := ∀ name s, a.locals.get? name = some s → s.Sound

/-- No variable was declared with a kind: these are the parameters of a call. -/
def Fresh (a : Activation) : Prop := ∀ name s, a.locals.get? name = some s → s.kind = none

variable {a b : Activation}

theorem sound_empty : Sound .empty := fun _ _ hs => by cases hs

theorem fresh_empty (transparent : Bool) : Fresh { Activation.empty with transparent } := fun _ _ hs => by cases hs

theorem Fresh.sound (h : a.Fresh) : a.Sound := fun name s hs => Slot.sound_of_none (h name s hs)

theorem Sound.define (h : a.Sound) (name : String) {s : Slot} (hs : s.Sound) :
    Sound { a with locals := a.locals.set name s } :=
  Bindings.forall_get?_set h hs

theorem Fresh.define (h : a.Fresh) (name : String) {s : Slot} (hs : s.kind = none) :
    Fresh { a with locals := a.locals.set name s } :=
  Bindings.forall_get?_set h hs

theorem Sound.assign? (h : a.Sound) {name : String} {v : Value} (hb : a.assign? name v = some b) : b.Sound := by
  unfold Activation.assign? at hb
  split at hb
  · cases hb
    exact h
  · split at hb
    · cases hb
      exact Bindings.forall_get?_modify h fun s hs => hs.assign v
    · cases hb

end Activation

/-! ### What is built from values -/

section

variable {env : Environment Eval} {m : Machine}

theorem sound_fillRow (os : List Operand) {a : TypedArray} (h : a.Sound) (place : Nat) :
    (fillRow env a place os m).1.Sound := by
  induction os generalizing a place m with
  | nil => exact h
  | cons o os ih =>
    unfold fillRow
    split
    · exact h
    · exact ih (h.store place _) (place + 1)

theorem sound_fillRows (stride : Nat) (rows : List (List Operand)) {a : TypedArray} (h : a.Sound) (place : Nat) :
    (fillRows env stride a place rows m).1.Sound := by
  induction rows generalizing a place m with
  | nil => exact h
  | cons row rows ih => exact ih (sound_fillRow row h place) (place + stride)

theorem sound_fillArray (rows : List (List Operand)) {a : TypedArray} (h : a.Sound) :
    (fillArray env a rows m).1.Sound := by
  unfold fillArray
  split
  · exact sound_fillRows _ _ h 0
  · exact sound_fillRows _ _ h 0

end

theorem Eval.of_bind_eq_ok {α β : Type} {x : Eval α} {f : α → Eval β} {m : Machine} {b : β}
    (h : ((x >>= f).run m).1 = .ok b) :
    ∃ a, (x.run m).1 = .ok a ∧ ((f a).run (x.run m).2).1 = .ok b := by
  change (ExceptT.bindCont f (x.run m).1 (x.run m).2).1 = .ok b at h
  cases hx : (x.run m).1 with
  | ok a =>
    rw [hx] at h
    exact ⟨a, rfl, h⟩
  | error e =>
    rw [hx] at h
    cases h

/-- What binding a value and binding an array both keep holds when all parameters are bound. -/
theorem bindParams_keeps {Q : Activation → Prop}
    (hv : ∀ a p v, Q a → Q { a with locals := a.locals.set p ⟨none, false, v⟩ })
    (ht : ∀ a p target, Q a → Q { a with aliases := a.aliases.set p target }) :
    ∀ (ps : List String) (args : List Arg) {a b : Activation} {m : Machine}, Q a →
      ((bindParams a ps args).run m).1 = .ok b → Q b
  | [], _, _, _, _, ha, hb => by
    cases hb
    exact ha
  | p :: ps, [], a, _, _, ha, hb => bindParams_keeps hv ht ps [] (hv a p _ ha) hb
  | p :: ps, arg :: args, a, b, m, ha, hb => by
    rw [bindParams] at hb
    obtain ⟨target, -, hb⟩ := Eval.of_bind_eq_ok hb
    cases target with
    | some target => exact bindParams_keeps hv ht ps args (ht a p target ha) hb
    | none =>
      obtain ⟨v, -, hb⟩ := Eval.of_bind_eq_ok hb
      exact bindParams_keeps hv ht ps args (hv a p v ha) hb

variable {ps : List String} {args : List Arg} {a b : Activation} {m : Machine}

theorem fresh_bindParams (ha : a.Fresh) (hb : ((bindParams a ps args).run m).1 = .ok b) : b.Fresh :=
  bindParams_keeps (fun _ p _ h => h.define p rfl) (fun _ _ _ h => h) ps args ha hb

/-- A call is of a function or of a lambda, whatever its arguments are. -/
theorem transparent_bindParams (hb : ((bindParams a ps args).run m).1 = .ok b) : b.transparent = a.transparent :=
  bindParams_keeps (Q := fun c => c.transparent = a.transparent) (fun _ _ _ h => h) (fun _ _ _ h => h) ps args rfl hb

/-! ### Random numbers -/

namespace Generator

/-- The seed is one of the states of the generator. -/
def Sound (g : Generator) : Prop := g.seed < randomModulus

theorem sound_ofSeed (seed : Nat) : (ofSeed seed).Sound := Nat.mod_lt seed (by decide)

theorem sound_next (g : Generator) : g.next.Sound := Nat.mod_lt _ (by decide)

/-- A range that is too wide draws nothing. -/
theorem Sound.between {g : Generator} (h : g.Sound) (min max : Int64) : (g.between min max).2.Sound := by
  unfold Generator.between
  split
  · exact h
  · dsimp only [Generator.below]
    split <;> exact sound_next g

end Generator

end Procedure

end RunningLights
