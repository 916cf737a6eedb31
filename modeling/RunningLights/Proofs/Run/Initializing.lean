import RunningLights.Proofs.Run.Sharing

/-!
# The values of an array that is declared

The values in the braces of a declaration are evaluated one after another and stored at their places:

* `TypedArray.storeAll`, `TypedArray.storeRows` — values stored one after another, and rows of them;
* `fillRow_apply`, `fillRows_apply` — filling an array evaluates the values and stores them;
* `Shaped` — the shape of an array by the sizes and the values of its declaration;
* `Simulation.initializer_kept` — what is listed is read back at its place, and all else is zero;
* `Simulation.initializer_lost` — a single list for rows that are not counted loses all but the first row.
-/

namespace RunningLights

namespace TypedArray

/-- Stores values one after another. -/
def storeAll (a : TypedArray) (place : Nat) : List Value → TypedArray
  | [] => a
  | v :: vs => storeAll (a.store place v) (place + 1) vs

/-- Stores rows of values that begin `stride` places apart. -/
def storeRows (stride : Nat) (a : TypedArray) (place : Nat) : List (List Value) → TypedArray
  | [] => a
  | row :: rows => storeRows stride (a.storeAll place row) (place + stride) rows

section

variable (a : TypedArray) (place : Nat)

@[simp] theorem size_store (i : Nat) (v : Value) : (a.store i v).data.size = a.data.size :=
  Array.size_setIfInBounds

/-- Only the elements differ. -/
structure SameShape (a b : TypedArray) : Prop where
  rows : b.rows = a.rows
  cols : b.cols = a.cols
  kind : b.kind = a.kind
  size : b.data.size = a.data.size

theorem SameShape.trans {a b c : TypedArray} (hab : SameShape a b) (hbc : SameShape b c) : SameShape a c :=
  ⟨hbc.rows.trans hab.rows, hbc.cols.trans hab.cols, hbc.kind.trans hab.kind, hbc.size.trans hab.size⟩

theorem sameShape_storeAll (vs : List Value) : SameShape a (a.storeAll place vs) := by
  induction vs generalizing a place with
  | nil => exact ⟨rfl, rfl, rfl, rfl⟩
  | cons v vs ih =>
    have hstore : SameShape a (a.store place v) := ⟨rfl, rfl, rfl, a.size_store place v⟩
    exact hstore.trans (ih (a.store place v) (place + 1))

theorem sameShape_storeRows (stride : Nat) (rows : List (List Value)) :
    SameShape a (a.storeRows stride place rows) := by
  induction rows generalizing a place with
  | nil => exact ⟨rfl, rfl, rfl, rfl⟩
  | cons row rows ih => exact (a.sameShape_storeAll place row).trans (ih _ _)

/-! ### What is read back -/

theorem getElem?_store {i k : Nat} (v : Value) (hk : k < a.data.size) :
    (a.store i v).data[k]? = if k = i then some (a.kind.convert v) else a.data[k]? := by
  unfold store
  rw [Array.getElem?_setIfInBounds]
  grind

/-- Nothing is stored in front of the first place. -/
theorem getElem?_storeAll_of_lt (vs : List Value) {k : Nat} (hk : k < place) :
    (a.storeAll place vs).data[k]? = a.data[k]? := by
  induction vs generalizing a place with
  | nil => rfl
  | cons v vs ih =>
    rw [storeAll, ih _ _ (Nat.lt_succ_of_lt hk), store, Array.getElem?_setIfInBounds_ne (Nat.ne_of_gt hk)]

/-- The element behind the first place by `k` is the value of that number, or what it was if there is none. -/
theorem getElem?_storeAll (vs : List Value) {k : Nat} (hk : place + k < a.data.size) :
    (a.storeAll place vs).data[place + k]? = (vs[k]?.map a.kind.convert).or a.data[place + k]? := by
  induction vs generalizing a place k with
  | nil => rfl
  | cons v vs ih =>
    cases k with
    | zero =>
      rw [Nat.add_zero] at hk ⊢
      rw [storeAll, getElem?_storeAll_of_lt _ _ vs (Nat.lt_succ_self place), a.getElem?_store v hk, if_pos rfl]
      rfl
    | succ k =>
      have hnext : place + (k + 1) = place + 1 + k := by omega
      rw [hnext] at hk ⊢
      rw [storeAll, ih _ _ (by simpa using hk), a.getElem?_store v hk, if_neg (by omega)]
      rfl

theorem getElem?_storeRows_of_lt (stride : Nat) (rows : List (List Value)) {k : Nat} (hk : k < place) :
    (a.storeRows stride place rows).data[k]? = a.data[k]? := by
  induction rows generalizing a place with
  | nil => rfl
  | cons row rows ih => rw [storeRows, ih _ _ (by omega), getElem?_storeAll_of_lt _ _ row hk]

/-- The element of row `i` and column `j` is the value in that place, or what it was if there is none. -/
theorem getElem?_storeRows {stride i j : Nat} {rows : List (List Value)} (hrows : ∀ row ∈ rows, row.length ≤ stride)
    (hj : j < stride) (hsize : place + (i * stride + j) < a.data.size) :
    (a.storeRows stride place rows).data[place + (i * stride + j)]? =
      ((rows[i]?.bind (·[j]?)).map a.kind.convert).or a.data[place + (i * stride + j)]? := by
  induction rows generalizing a place i with
  | nil => rfl
  | cons row rows ih =>
    obtain ⟨hrow, hrest⟩ := List.forall_mem_cons.1 hrows
    cases i with
    | zero =>
      rw [Nat.zero_mul, Nat.zero_add] at hsize ⊢
      rw [storeRows, getElem?_storeRows_of_lt _ _ _ rows (Nat.add_lt_add_left hj place),
        a.getElem?_storeAll place row hsize]
      rfl
    | succ i =>
      have hnext : place + ((i + 1) * stride + j) = place + stride + (i * stride + j) := by
        rw [Nat.succ_mul]
        omega
      have hshape := a.sameShape_storeAll place row
      have hplace : place + stride + (i * stride + j) = place + (stride + i * stride + j) := by omega
      have houtside : row[stride + i * stride + j]? = none := List.getElem?_eq_none (by omega)
      rw [hnext] at hsize ⊢
      rw [storeRows, ih _ _ hrest (by rw [hshape.size]; exact hsize), hshape.kind, hplace,
        a.getElem?_storeAll place row (hplace ▸ hsize), houtside]
      rfl

end

end TypedArray

namespace Procedure

open TypedArray

/-! ### Filling an array -/

section

variable (env : Environment Eval)

/-- The values of operands, one after another. -/
def evalRow (os : List Operand) : Run (List Value) := os.mapM (Operand.valueOrZero env)

def evalRows (rows : List (List Operand)) : Run (List (List Value)) := rows.mapM (evalRow env)

variable {env} {m n : Machine}

theorem evalRow_cons {o : Operand} {os : List Operand} {v : Value} {vs : List Value} {m' : Machine}
    (hv : Operand.valueOrZero env o m = (v, m')) (hvs : evalRow env os m' = (vs, n)) :
    evalRow env (o :: os) m = (v :: vs, n) := by
  rw [evalRow, List.mapM_cons, bind_of_eq hv]
  exact bind_of_eq hvs

theorem evalRows_cons {row : List Operand} {rows : List (List Operand)} {vs : List Value} {vss : List (List Value)}
    {m' : Machine} (hv : evalRow env row m = (vs, m')) (hvs : evalRows env rows m' = (vss, n)) :
    evalRows env (row :: rows) m = (vs :: vss, n) := by
  rw [evalRows, List.mapM_cons, bind_of_eq hv]
  exact bind_of_eq hvs

variable (env) (a : TypedArray) (place : Nat)

/-- A row that there is room for is evaluated and stored. -/
theorem fillRow_apply (m : Machine) (os : List Operand) (hroom : place + os.length ≤ a.data.size) :
    ∃ vs n, evalRow env os m = (vs, n) ∧ vs.length = os.length ∧
      fillRow env a place os m = (a.storeAll place vs, n) := by
  induction os generalizing a place m with
  | nil => exact ⟨[], m, rfl, rfl, rfl⟩
  | cons o os ih =>
    rw [List.length_cons] at hroom
    obtain ⟨v, m', hv⟩ : ∃ v m', Operand.valueOrZero env o m = (v, m') := ⟨_, _, rfl⟩
    obtain ⟨vs, n, hvs, hlength, hfill⟩ := ih (a.store place v) (place + 1) m' (by rw [a.size_store]; omega)
    refine ⟨v :: vs, n, evalRow_cons hv hvs, congrArg (· + 1) hlength, ?_⟩
    rw [fillRow, if_neg (by omega), bind_of_eq hv, hfill]
    rfl

/-- Nothing is stored beyond the array. -/
theorem fillRow_of_size_le (os : List Operand) (hfull : a.data.size ≤ place) (hword : place < Number.wordBound) :
    fillRow env a place os = pure a := by
  cases os with
  | nil => rfl
  | cons o os =>
    have hfits : (WordOperation.place place).Fits := hword
    rw [fillRow, if_pos hfull]
    funext m
    exact congrArg (Prod.mk a) (Machine.require_of_fits hfits)

/-- A row that is too long is evaluated and stored as far as there is room. -/
theorem fillRow_take (os : List Operand) (hplace : place ≤ a.data.size) (hword : a.data.size < Number.wordBound) :
    fillRow env a place os = fillRow env a place (os.take (a.data.size - place)) := by
  induction os generalizing a place with
  | nil => rw [List.take_nil]
  | cons o os ih =>
    by_cases hfull : a.data.size ≤ place
    · have hnone : a.data.size - place = 0 := by omega
      rw [hnone, List.take_zero, fillRow_of_size_le env a place _ hfull (by omega)]
      rfl
    · obtain ⟨room, hroom⟩ : ∃ room, a.data.size - place = room + 1 := ⟨a.data.size - place - 1, by omega⟩
      have hnext (v : Value) : (a.store place v).data.size - (place + 1) = room := by
        rw [a.size_store]
        omega
      rw [hroom, List.take_succ_cons, fillRow, fillRow, if_neg hfull, if_neg hfull]
      refine congrArg _ (funext fun v => ?_)
      rw [ih (a.store place v) (place + 1) (by rw [a.size_store]; omega) (by rwa [a.size_store]), hnext]

theorem fillRows_apply (m : Machine) (stride : Nat) (rows : List (List Operand))
    (hroom : ∀ i row, rows[i]? = some row → place + i * stride + row.length ≤ a.data.size) :
    ∃ vss n, evalRows env rows m = (vss, n) ∧ vss.map List.length = rows.map List.length ∧
      fillRows env stride a place rows m = (a.storeRows stride place vss, n) := by
  induction rows generalizing a place m with
  | nil => exact ⟨[], m, rfl, rfl, rfl⟩
  | cons row rows ih =>
    have hfirst : place + row.length ≤ a.data.size := by simpa using hroom 0 row rfl
    obtain ⟨vs, m', hvs, hlength, hrow⟩ := fillRow_apply env a place m row hfirst
    have hshape := a.sameShape_storeAll place vs
    have hrest : ∀ i r, rows[i]? = some r →
        place + stride + i * stride + r.length ≤ (a.storeAll place vs).data.size := by
      intro i r hr
      have hnext := hroom (i + 1) r hr
      rw [Nat.succ_mul] at hnext
      rw [hshape.size]
      omega
    obtain ⟨vss, n, hvss, hlengths, hfill⟩ := ih (a.storeAll place vs) (place + stride) m' hrest
    refine ⟨vs :: vss, n, evalRows_cons hvs hvss, by rw [List.map_cons, List.map_cons, hlength, hlengths], ?_⟩
    rw [fillRows, bind_of_eq hrow, hfill]
    rfl

theorem fillArray_single (os : List Operand) : fillArray env a [os] = fillRow env a 0 os := by
  rw [fillArray, if_pos (.inr rfl), fillRows]
  exact bind_pure _

theorem fillArray_rows (m : Machine) {rows : List (List Operand)} (hsize : a.data.size = a.rows * a.cols)
    (hlist : rows.length ≠ 1) (hr : rows.length ≤ a.rows) (hc : ∀ row ∈ rows, row.length ≤ a.cols) :
    ∃ vss n, evalRows env rows m = (vss, n) ∧ vss.map List.length = rows.map List.length ∧
      fillArray env a rows m = (a.storeRows a.cols 0 vss, n) := by
  by_cases hone : a.rows = 1
  · have hnil : rows = [] := List.eq_nil_of_length_eq_zero (by omega)
    subst hnil
    refine ⟨[], m, rfl, rfl, ?_⟩
    rw [fillArray, if_pos (.inl hone)]
    rfl
  · have hwhole : rows.map (fun row => row.take a.cols) = rows :=
      (List.map_congr_left (g := id) fun row hrow => List.take_of_length_le (hc row hrow)).trans (List.map_id rows)
    have hroom : ∀ i row, rows[i]? = some row → 0 + i * a.cols + row.length ≤ a.data.size := by
      intro i row hrow
      obtain ⟨hi, -⟩ := List.getElem?_eq_some_iff.1 hrow
      have hle := hc row (List.mem_of_getElem? hrow)
      calc 0 + i * a.cols + row.length ≤ (i + 1) * a.cols := by rw [Nat.succ_mul]; omega
        _ ≤ a.data.size := hsize ▸ Nat.mul_le_mul_right _ (by omega)
    obtain ⟨vss, n, hvss, hlengths, hfill⟩ := fillRows_apply env a 0 m a.cols rows hroom
    refine ⟨vss, n, hvss, hlengths, ?_⟩
    rw [fillArray, if_neg (by omega), hwhole, hfill]

end

/-! ### The shape of an array -/

abbrev widest (rows : List (List Operand)) : Nat := (rows.map List.length).foldl max 0

/-- An array with the given sizes and values has `r` rows and `c` columns, and keeps the values that are given next. -/
inductive Shaped : List (Option Nat) → List (List Operand) → List (List Operand) → Nat → Nat → Prop
  /-- One dimension, for which as many elements as are listed suffice if its size is left open. -/
  | line {n : Option Nat} {os : List Operand} : os.length ≤ n.getD os.length →
      Shaped [n] [os] [os] 1 (n.getD os.length)
  /-- A single list that fills counted rows one after another. -/
  | list {r : Nat} {c : Option Nat} {os : List Operand} : os.length ≤ r * c.getD os.length →
      Shaped [some r, c] [os] [os] r (c.getD os.length)
  /-- A list for every row; as many rows as are listed suffice if they are not counted. -/
  | nested {r c : Option Nat} {rows : List (List Operand)} : rows.length ≤ r.getD rows.length →
      (∀ row ∈ rows, row.length ≤ c.getD (widest rows)) →
      Shaped [r, c] rows rows (r.getD rows.length) (c.getD (widest rows))
  /-- A single list that is longer than a row, and rows that are not counted: there is one, and what it has no room for
  is lost. -/
  | cut {c : Nat} {os : List Operand} : c < os.length → Shaped [none, some c] [os] [os.take c] 1 c

/-- The value that is listed for row `i` and column `j`: a single list goes on from row to row. -/
def listed (c : Nat) (values : List (List Value)) (i j : Nat) : Option Value :=
  match values with
  | [vs] => vs[i * c + j]?
  | values => values[i]?.bind (·[j]?)

/-- The first value of row `i` and column `j`: what is listed for it, or else zero. -/
def initial (kind : VarKind) (c : Nat) (values : List (List Value)) (i j : Nat) : Value :=
  ((listed c values i j).map kind.convert).getD kind.zero

/-- An array of `r` rows and `c` columns that has the first values. -/
structure Initialized (kind : VarKind) (r c : Nat) (values : List (List Value)) (a : TypedArray) : Prop where
  rows : a.rows = r
  cols : a.cols = c
  size : a.data.size = r * c
  element {i j : Nat} : i < r → j < c → a.data[i * c + j]? = some (initial kind c values i j)

theorem place_lt {r c i j : Nat} (hi : i < r) (hj : j < c) : i * c + j < r * c :=
  calc i * c + j < (i + 1) * c := by rw [Nat.succ_mul]; omega
    _ ≤ r * c := Nat.mul_le_mul_right _ hi

variable {kind : VarKind} {r c : Nat}

theorem getElem?_zeroed {k : Nat} (hk : k < r * c) : (zeroed r c kind).data[k]? = some kind.zero := by
  rw [zeroed, Array.getElem?_replicate, if_pos hk]

/-- What is stored over zeros is read back, and where nothing is stored there are zeros. -/
theorem initial_of_stored (values : List (List Value)) {i j : Nat} (hi : i < r) (hj : j < c) :
    ((listed c values i j).map kind.convert).or (zeroed r c kind).data[i * c + j]?
      = some (initial kind c values i j) := by
  rw [getElem?_zeroed (place_lt hi hj), initial]
  cases listed c values i j <;> rfl

theorem initialized_list (vs : List Value) : Initialized kind r c [vs] ((zeroed r c kind).storeAll 0 vs) := by
  have hshape := (zeroed r c kind).sameShape_storeAll 0 vs
  have hsize : (zeroed r c kind).data.size = r * c := Array.size_replicate
  refine ⟨hshape.rows, hshape.cols, hshape.size.trans hsize, fun {i j} hi hj => ?_⟩
  have hplace : 0 + (i * c + j) < (zeroed r c kind).data.size := by
    rw [hsize, Nat.zero_add]
    exact place_lt hi hj
  have hread := (zeroed r c kind).getElem?_storeAll 0 vs hplace
  rw [Nat.zero_add] at hread
  exact hread.trans (initial_of_stored [vs] hi hj)

theorem initialized_rows {vss : List (List Value)} (hlist : vss.length ≠ 1) (hc : ∀ vs ∈ vss, vs.length ≤ c) :
    Initialized kind r c vss ((zeroed r c kind).storeRows c 0 vss) := by
  have hshape := (zeroed r c kind).sameShape_storeRows 0 c vss
  have hsize : (zeroed r c kind).data.size = r * c := Array.size_replicate
  refine ⟨hshape.rows, hshape.cols, hshape.size.trans hsize, fun {i j} hi hj => ?_⟩
  have hplace : 0 + (i * c + j) < (zeroed r c kind).data.size := by
    rw [hsize, Nat.zero_add]
    exact place_lt hi hj
  have hread := (zeroed r c kind).getElem?_storeRows 0 hc hj hplace
  have hlisted : listed c vss i j = vss[i]?.bind (·[j]?) := by
    unfold listed
    split
    · exact absurd rfl hlist
    · rfl
  rw [Nat.zero_add] at hread
  exact hread.trans (hlisted ▸ initial_of_stored vss hi hj)

/-! ### Declarations -/

section

variable {env : Environment Eval} {m m₁ : Machine} {d : VarDecl} {sizes : List (Option Nat)}
  {kept : List (List Operand)}

/-- The number of rows and columns is what the declaration says, or else what is listed. -/
theorem Shaped.arrayShape? {rows : List (List Operand)} (h : Shaped sizes rows kept r c) :
    arrayShape? sizes rows = some (r, c) := by
  cases h with
  | line _ => simp [Procedure.arrayShape?]
  | list _ => simp [Procedure.arrayShape?]
  | nested _ _ => rfl
  | cut _ => rfl

/-- Zeros are filled with the values that are kept. -/
theorem Shaped.fillArray {rows : List (List Operand)} (h : Shaped sizes rows kept r c) (hle : r * c ≤ maxArrayLength)
    (env : Environment Eval) (kind : VarKind) (m : Machine) :
    ∃ values a n, evalRows env kept m = (values, n) ∧ fillArray env (zeroed r c kind) rows m = (a, n) ∧
      Initialized kind r c values a := by
  have hsize : (zeroed r c kind).data.size = r * c := Array.size_replicate
  have hlist (os : List Operand) (hroom : os.length ≤ r * c) :
      ∃ values a n, evalRows env [os] m = (values, n) ∧
        Procedure.fillArray env (zeroed r c kind) [os] m = (a, n) ∧ Initialized kind r c values a := by
    have hroom : 0 + os.length ≤ (zeroed r c kind).data.size := by omega
    obtain ⟨vs, n, hvs, -, hfill⟩ := fillRow_apply env (zeroed r c kind) 0 m os hroom
    rw [fillArray_single]
    exact ⟨[vs], _, n, evalRows_cons hvs rfl, hfill, initialized_list vs⟩
  cases h with
  | line hroom => exact hlist _ (by omega)
  | list hroom => exact hlist _ hroom
  | @nested r' c' _ hr hc =>
    by_cases hone : kept.length = 1
    · obtain ⟨os, rfl⟩ := List.length_eq_one_iff.1 hone
      refine hlist os ?_
      calc os.length ≤ 1 * c'.getD (widest [os]) := by rw [Nat.one_mul]; exact hc os List.mem_cons_self
        _ ≤ r'.getD [os].length * c'.getD (widest [os]) := Nat.mul_le_mul_right _ hr
    · obtain ⟨vss, n, hvss, hlengths, hfill⟩ :=
        fillArray_rows env (zeroed (r'.getD kept.length) (c'.getD (widest kept)) kind) m hsize hone hr hc
      have hlength : vss.length = kept.length := by simpa using congrArg List.length hlengths
      refine ⟨vss, _, n, hvss, hfill, initialized_rows (hlength ▸ hone) fun vs hvs => ?_⟩
      have hmem : vs.length ∈ kept.map List.length := hlengths ▸ List.mem_map_of_mem hvs
      obtain ⟨row, hrow, heq⟩ := List.mem_map.1 hmem
      exact heq ▸ hc row hrow
  | @cut c os hc =>
    obtain ⟨values, a, n, hvalues, hfill, hinit⟩ := hlist (os.take c) (by rw [List.length_take]; omega)
    refine ⟨values, a, n, hvalues, ?_, hinit⟩
    have hword : (zeroed 1 c kind).data.size < Number.wordBound := by
      rw [hsize]
      exact Nat.lt_of_le_of_lt hle (by decide)
    have htake := fillRow_take env (zeroed 1 c kind) 0 os (Nat.zero_le _) hword
    rw [hsize, Nat.one_mul, Nat.sub_zero] at htake
    rw [← hfill, fillArray_single, fillArray_single, htake]

/-- A declaration whose sizes and values have a shape evaluates the values that it keeps and builds an array of them. -/
theorem builtArray_of_shaped (hsizes : arraySizes env d.sizes m = (sizes, m₁)) (hshaped : Shaped sizes d.values kept r c)
    (hle : r * c ≤ maxArrayLength) :
    ∃ values a n, evalRows env kept m₁ = (values, n) ∧ builtArray env d m = (some a, n) ∧
      Initialized d.kind r c values a := by
  obtain ⟨values, a, n, hvalues, hfill, hinit⟩ := hshaped.fillArray hle env d.kind m₁
  refine ⟨values, a, n, hvalues, ?_, hinit⟩
  rw [builtArray, bind_of_eq hsizes, hshaped.arrayShape?]
  dsimp only
  rw [if_neg (Nat.not_lt.2 hle), bind_of_eq hfill]
  rfl

end

/-! ### Reading the elements -/

theorem toInt_ofNat_place {k : Nat} (hk : k < maxArrayLength) : (Int64.ofNat k).toInt = k := by
  have : k < 65536 := hk
  exact Int64.toInt_ofNat_of_lt (by omega)

variable {values : List (List Value)} {a : TypedArray} {i j : Nat}

theorem TypedArray.get?_of_offset? {indices : List Int64} {k : Nat} {v : Value} (ho : a.offset? indices = some k)
    (hv : a.data[k]? = some v) : a.get? indices = some v := by
  rw [TypedArray.get?, ho, Option.bind_some, hv]

theorem Initialized.get?_pair (h : Initialized kind r c values a) (hle : r * c ≤ maxArrayLength) (hi : i < r)
    (hj : j < c) : a.get? [Int64.ofNat i, Int64.ofNat j] = some (initial kind c values i j) := by
  have hr : r ≤ r * c := Nat.le_mul_of_pos_right r (by omega)
  have hc : c ≤ r * c := Nat.le_mul_of_pos_left c (by omega)
  have hrow : (Int64.ofNat i).toInt = i := toInt_ofNat_place (by omega)
  have hcol : (Int64.ofNat j).toInt = j := toInt_ofNat_place (by omega)
  refine TypedArray.get?_of_offset? ?_ (h.element hi hj)
  simp only [TypedArray.offset?, hrow, hcol, Int.natCast_nonneg, Int.toNat_natCast, h.rows, h.cols, h.size, hi, hj,
    and_self, if_true, Option.bind_some, if_pos (place_lt hi hj)]

/-- One index counts through all rows. -/
theorem Initialized.get?_single (h : Initialized kind r c values a) (hle : r * c ≤ maxArrayLength) (hi : i < r)
    (hj : j < c) : a.get? [Int64.ofNat (i * c + j)] = some (initial kind c values i j) := by
  have hplace : i * c + j < r * c := place_lt hi hj
  have hword : (Int64.ofNat (i * c + j)).toInt = (i * c + j : Nat) :=
    toInt_ofNat_place (Nat.lt_of_lt_of_le hplace hle)
  refine TypedArray.get?_of_offset? ?_ (h.element hi hj)
  simp only [TypedArray.offset?, hword, Int.natCast_nonneg, Int.toNat_natCast, if_true, Option.bind_some, h.size,
    if_pos hplace]

theorem Machine.element_of_get? {s : Machine} {name : String} {indices : List Int64} {v : Value}
    (ha : s.array? name = some a) (hv : a.get? indices = some v) : s.element name indices = .ok v := by
  unfold Machine.element
  rw [ha]
  dsimp only
  rw [hv]

end Procedure

namespace Simulation

open Procedure

/-- **First values of arrays.**  A declaration whose sizes and values have a shape evaluates the values that it keeps,
one after another.  When it is done each element of the array, by its row and column or by its place among all of them,
is what was listed for it as a value of the declared kind, or else zero.  All that is listed is kept, except by a single
list that is longer than a row when the rows are not counted.

`hname` leaves out an array that is declared under the name of a parameter that stands for another array: the
declaration stores it under the name itself, and the name is still read as that of the other array. -/
theorem initializer_kept {fuel : Nat} {d : VarDecl} {m m₁ : Machine} {sizes : List (Option Nat)}
    {kept : List (List Operand)} {r c : Nat} (hd : d.isArray = true)
    (hsizes : arraySizes (environment (invoke fuel)) d.sizes m = (sizes, m₁)) (hshaped : Shaped sizes d.values kept r c)
    (hle : r * c ≤ maxArrayLength) (hname : m.arrayName d.name = d.name) :
    ∃ values n, evalRows (environment (invoke fuel)) kept m₁ = (values, n) ∧
      ∀ i j, i < r → j < c → let s := (declareVar (environment (invoke fuel)) d m).2
        s.element d.name [Int64.ofNat i, Int64.ofNat j] = .ok (initial d.kind c values i j) ∧
        s.element d.name [Int64.ofNat (i * c + j)] = .ok (initial d.kind c values i j) := by
  have hs := SameNames.step.lawful
  obtain ⟨values, a, n, hvalues, hbuilt, hinit⟩ := builtArray_of_shaped hsizes hshaped hle
  have hnames : SameNames m n := by
    have h := hs.builtArray (d := d) (hs.environment (hs.invoke fuel)) m
    rwa [hbuilt] at h
  have hdeclared : (declareVar (environment (invoke fuel)) d m).2 = n.storing d.name (some a) := by
    rw [declareVar_apply _ hd, hbuilt]
  have harray : (n.storing d.name (some a)).array? d.name = some a := by
    have hstands : (n.storing d.name (some a)).arrayName d.name = d.name := (hnames.arrayName d.name).trans hname
    rw [Machine.array?, hstands]
    exact (Bindings.get?_set _ _ _ _).trans (if_pos rfl)
  refine ⟨values, n, hvalues, fun i j hi hj => ?_⟩
  rw [hdeclared]
  exact ⟨Machine.element_of_get? harray (hinit.get?_pair hle hi hj),
    Machine.element_of_get? harray (hinit.get?_single hle hi hj)⟩

def oneToFour : List Operand := [.ofWord 1, .ofWord 2, .ofWord 3, .ofWord 4]

/-- A declaration of a matrix of two columns. -/
def twoColumns (rows : Operand) (values : List (List Operand)) : VarDecl :=
  ⟨"m", .integer, false, [rows, .ofWord 2], .rows values⟩

theorem initializer_kept_twoColumns :
    ∃ values n, evalRows (environment (invoke 0)) [oneToFour] tenUnits = (values, n) ∧
      ∀ i j, i < 2 → j < 2 →
        let s := (declareVar (environment (invoke 0)) (twoColumns (.ofWord 2) [oneToFour]) tenUnits).2
        s.element "m" [Int64.ofNat i, Int64.ofNat j] = .ok (initial .integer 2 values i j) ∧
        s.element "m" [Int64.ofNat (i * 2 + j)] = .ok (initial .integer 2 values i j) :=
  initializer_kept rfl rfl (Shaped.list (r := 2) (c := some 2) (by decide)) (by decide) rfl

def elementInt (m : Machine) (name : String) (indices : List Int64) : Option Int64 :=
  ((m.element name indices).bind Value.asInt).toOption

/-- Two rows are the fewest that four values in two columns need.  When the rows are not counted there is only one, and
the values of the second row are lost. -/
theorem initializer_lost :
    let m := finalMachine 2 (.ofMillis 30) ⟨10, 600, 0⟩ [.act (.declare (twoColumns ⟨"", none⟩ [oneToFour]))]
    (∀ r, oneToFour.length ≤ r * 2 ↔ 2 ≤ r) ∧ elementInt m "m" [0, 1] = some 2 ∧
    elementInt m "m" [1, 0] = none ∧ elementInt m "m" [1, 1] = none := by
  refine ⟨fun r => ?_, by decide +kernel, by decide +kernel, by decide +kernel⟩
  have hlength : oneToFour.length = 4 := rfl
  omega

end Simulation

end RunningLights
