import RunningLights.Proofs.Number.Rounding
import RunningLights.Proofs.Run.Failing
import RunningLights.Script.Functions

/-!
# Segments in programs and in scripts

Programs and scripts append a segment of the strip to an array.  A program reads the segment sizes, the channels and the
place behind the last element from its arrays and variables; a script is given all of them as values:

* `TypedArray.Holds.intRows` — the rows that a program reads from a matrix;
* `TypedArray.take_putAll` — the elements that it stores behind those in use;
* `effective` — the rows that count: a matrix of one row is not used, the built-in one stands in for it;
* `Simulation.segment_agrees` — for these rows both count and append the same;
* `Simulation.segment_oneRow` — for the one row itself they do not.
-/

namespace RunningLights

open Number

namespace TypedArray

/-! ### What is read from arrays -/

theorem map_roughInt {ns : List Int64} (h : ∀ n ∈ ns, Precise n) : (ns.map Value.int).map roughInt = ns := by
  rw [List.map_map]
  exact (List.map_congr_left (g := id) h).trans (List.map_id ns)

/-- Rows of one length come back from the list of all their elements. -/
theorem chunks_flatten {c : Nat} (hc : 0 < c) {rows : List (List Int64)} (hrows : ∀ row ∈ rows, row.length = c)
    {fuel : Nat} (hfuel : rows.length ≤ fuel) : chunks c fuel rows.flatten = rows := by
  induction rows generalizing fuel with
  | nil => cases fuel <;> rfl
  | cons row rows ih =>
    obtain ⟨hrow, hrest⟩ := List.forall_mem_cons.1 hrows
    obtain ⟨fuel, rfl⟩ : ∃ k, fuel = k + 1 := ⟨fuel - 1, by rw [List.length_cons] at hfuel; omega⟩
    have hne : row ++ rows.flatten ≠ [] := by
      intro hnil
      have := congrArg List.length hnil
      rw [List.length_append, List.length_nil] at this
      omega
    rw [List.flatten_cons, chunks.eq_3 _ _ _ hne, List.take_left' hrow, List.drop_left' hrow,
      ih hrest (Nat.le_of_succ_le_succ hfuel)]

variable {a : TypedArray} {table : List (List Int64)}

/-- The array holds a matrix of integers, all of them exact as floats. -/
structure Holds (a : TypedArray) (table : List (List Int64)) : Prop where
  rows : a.rows = table.length
  cols : ∀ row ∈ table, row.length = a.cols
  data : a.data.toList = table.flatten.map Value.int
  precise : ∀ row ∈ table, ∀ n ∈ row, Precise n

namespace Holds

theorem ints (h : a.Holds table) : a.ints = table.flatten := by
  rw [TypedArray.ints, h.data]
  refine map_roughInt fun n hn => ?_
  obtain ⟨row, hrow, hn⟩ := List.mem_flatten.1 hn
  exact h.precise row hrow n hn

theorem size (h : a.Holds table) : a.data.size = table.length * a.cols := by
  have hlengths : table.map List.length = List.replicate table.length a.cols :=
    List.eq_replicate_iff.2 ⟨List.length_map _, List.forall_mem_map.2 h.cols⟩
  rw [← Array.length_toList, h.data, List.length_map, List.length_flatten, hlengths, List.sum_replicate, smul_eq_mul]

/-- The rows of a matrix are read as they are. -/
theorem intRows (h : a.Holds table) (hcols : 0 < a.cols) : a.intRows = table := by
  have hmax : max 1 a.cols = a.cols := by omega
  rw [TypedArray.intRows, hmax, h.ints]
  refine chunks_flatten hcols h.cols ?_
  rw [h.size]
  exact Nat.le_mul_of_pos_right _ hcols

end Holds

/-! ### What is stored behind the elements in use -/

theorem kind_extend (a : TypedArray) (n : Nat) : (a.extend n).kind = a.kind := by
  unfold extend
  split
  · rfl
  · split <;> rfl

theorem data_extend (a : TypedArray) (n : Nat) :
    (a.extend n).data = a.data ++ Array.replicate (n - a.data.size) a.kind.zero := by
  unfold extend
  split
  · rename_i hle
    rw [Nat.sub_eq_zero_of_le hle, Array.replicate_zero, Array.append_empty]
  · split <;> rfl

theorem take_set_succ {α : Type} {l : List α} {i : Nat} (h : i < l.length) (x : α) :
    (l.set i x).take (i + 1) = l.take i ++ [x] := by
  have hset : i < (l.set i x).length := by rwa [List.length_set]
  rw [← List.take_concat_get' _ _ hset, List.getElem_set_self, List.take_set_of_le (Nat.le_refl i)]

theorem take_put {place : Nat} (hplace : place ≤ a.data.size) (hmost : place < maxArrayLength) (v : Value) :
    (a.put place v).data.toList.take (place + 1) = a.data.toList.take place ++ [a.kind.convert v] := by
  have hroom : place < (a.extend (place + 1)).data.toList.length := by
    rw [Array.length_toList, data_extend, Array.size_append, Array.size_replicate]
    omega
  have hkept : (a.extend (place + 1)).data.toList.take place = a.data.toList.take place := by
    rw [data_extend, Array.toList_append, List.take_append_of_le_length (by simpa using hplace)]
  rw [put, if_neg (Nat.not_le.2 hmost), store, Array.toList_setIfInBounds, take_set_succ hroom, hkept, kind_extend]

theorem size_put {place : Nat} (hmost : place < maxArrayLength) (v : Value) :
    place + 1 ≤ (a.put place v).data.size := by
  rw [put, if_neg (Nat.not_le.2 hmost), store, Array.size_setIfInBounds, data_extend, Array.size_append,
    Array.size_replicate]
  omega

theorem kind_put (a : TypedArray) (place : Nat) (v : Value) : (a.put place v).kind = a.kind := by
  unfold put
  split
  · rfl
  · exact a.kind_extend _

theorem take_putAll (ns : List Int64) {place : Nat} (hkind : a.kind = .integer) (hplace : place ≤ a.data.size)
    (hmost : place + ns.length ≤ maxArrayLength) :
    (Procedure.putAll a place ns).data.toList.take (place + ns.length) =
      a.data.toList.take place ++ ns.map Value.int := by
  induction ns generalizing a place with
  | nil => rw [Procedure.putAll, List.length_nil, Nat.add_zero, List.map_nil, List.append_nil]
  | cons n ns ih =>
    rw [List.length_cons] at hmost
    have hlt : place < maxArrayLength := by omega
    have hnext : place + (n :: ns).length = place + 1 + ns.length := by
      rw [List.length_cons]
      omega
    have hkind' : (a.put place (.int n)).kind = .integer := (a.kind_put _ _).trans hkind
    rw [hnext, Procedure.putAll, ih hkind' (size_put hlt _) (by omega), take_put hplace hlt, hkind,
      List.append_assoc]
    rfl

end TypedArray

namespace Library

theorem segment_of_nil {rows : List (List Int64)} (h : ∀ row ∈ rows, row = []) (main : List Int64)
    (total target : Int64) (reverse : Bool) : segment rows main total target reverse = [] := by
  unfold segment
  split
  · rfl
  · rename_i row hrow
    obtain ⟨r, -, hget⟩ := Option.bind_eq_some_iff.1 hrow
    rw [h row (List.mem_of_getElem? hget)]
    split <;> rfl

end Library

namespace Procedure

/-! ### What a program reads -/

/-- The name stands for a list of integers: for an array of them, all exact as floats, or for the channel numbers. -/
inductive ReadsInts (m : Machine) (name : String) (ns : List Int64) : Prop
  | array {a : TypedArray} : m.array? name = some a → a.data.toList = ns.map Value.int → (∀ n ∈ ns, Precise n) →
      ReadsInts m name ns
  | channels : m.array? name = none → channelMapNames.contains name = true →
      ns = (List.range m.total).map Int64.ofNat → ReadsInts m name ns

theorem ReadsInts.ints {m : Machine} {name : String} {ns : List Int64} (h : ReadsInts m name ns) :
    m.ints name = .ok ns := by
  unfold Machine.ints
  cases h with
  | array ha hdata hprecise =>
    rw [ha]
    dsimp only
    rw [TypedArray.ints, hdata, TypedArray.map_roughInt hprecise]
  | channels ha hname hns =>
    rw [ha]
    dsimp only
    rw [if_pos hname, hns]

/-- The rows that count: those of the matrix, but the first of the built-in ones for a matrix of one row. -/
def effective (table : List (List Int64)) : List (List Int64) :=
  if table.length = 1 then Library.matrix.take 1 else table

theorem effective_of_ne {table : List (List Int64)} (h : table.length ≠ 1) : effective table = table := if_neg h

/-- A program takes its segment from the rows that count. -/
theorem segment_segmentRows {m : Machine} {arg : Arg} {a : TypedArray} {table : List (List Int64)}
    (ha : (arg.tree.ident?).bind m.array? = some a) (h : a.Holds table) (main : List Int64) (total target : Int64)
    (reverse : Bool) :
    Library.segment ((segmentRows m arg).take table.length) main total target reverse =
      Library.segment (effective table) main total target reverse := by
  rw [segmentRows, ha]
  dsimp only
  rw [h.rows]
  rcases Nat.lt_trichotomy table.length 1 with hzero | hone | hmany
  · obtain rfl : table = [] := List.eq_nil_of_length_eq_zero (by omega)
    rfl
  · rw [hone, effective, if_pos hone]
    rfl
  · rw [if_pos hmany, effective_of_ne (by omega)]
    by_cases hcols : 0 < a.cols
    · rw [h.intRows hcols, List.take_length]
    · have hnil : ∀ row ∈ table, row = [] := fun row hrow =>
        List.eq_nil_of_length_eq_zero (by have := h.cols row hrow; omega)
      have hread : a.intRows = [] := by
        have hsize : a.data.size = 0 := by
          rw [h.size]
          simp [Nat.eq_zero_of_not_pos hcols]
        rw [TypedArray.intRows, hsize]
        rfl
      rw [hread, List.take_nil, Library.segment_of_nil hnil, Library.segment_of_nil fun _ hrow => by cases hrow]

/-! ### What a program does -/

section

variable {m : Machine}

/-- The flag of a call: no argument, or one that has a truth value. -/
def Flagged (m : Machine) (reverse : List Arg) (reversed : Bool) : Prop :=
  (reverse = [] ∧ reversed = false) ∨
    ∃ arg v, reverse = [arg] ∧ arg.value.run m = (.ok v, m) ∧ v.truthy = reversed

theorem shiftByOrder_apply {sizes rows main mainSize array last target : Arg} {reverse : List Arg}
    {mainName arrayName lastName : String} {rowLimit size segment : Int64} {channels : List Int64} {reversed : Bool}
    (hrows : rows.value.run m = (.ok (.int rowLimit), m)) (hmain : main.tree.ident? = some mainName)
    (hchannels : m.ints mainName = .ok channels) (hsize : mainSize.value.run m = (.ok (.int size), m))
    (harray : array.tree.ident? = some arrayName) (hlast : last.tree.ident? = some lastName)
    (hsegment : target.value.run m = (.ok (.int segment), m)) (hflag : Flagged m reverse reversed) :
    (shiftByOrder (sizes :: rows :: main :: mainSize :: array :: last :: target :: reverse)).run m =
      (appendSegment (Library.segment ((segmentRows m sizes).take rowLimit.toInt.toNat) channels size segment reversed)
        arrayName lastName).run m := by
  have hint {arg : Arg} {n : Int64} (h : arg.value.run m = (.ok (.int n), m)) :
      (Eval.int arg).run m = (.ok n, m) := by
    rw [Eval.int, run_bind_ok h]
    rfl
  have hname {arg : Arg} {name : String} (h : arg.tree.ident? = some name) :
      (settle (Eval.reference .shiftByOrder arg) : Eval String).run m = (.ok name, m) := by
    rw [Eval.reference, h]
    rfl
  have htable : (Eval.read fun m => .ok (segmentRows m sizes)).run m = (.ok (segmentRows m sizes), m) := rfl
  have hread : (Eval.read fun m => m.ints mainName).run m = (.ok channels, m) := congrArg (·, m) hchannels
  have hfew : ¬ 1 < reverse.length := by
    rcases hflag with ⟨rfl, -⟩ | ⟨arg, v, rfl, -⟩ <;> simp
  rw [shiftByOrder, if_neg hfew, run_bind_ok htable, run_bind_ok (hint hrows), run_bind_ok (hname hmain),
    run_bind_ok hread, run_bind_ok (hint hsize), run_bind_ok (hname harray), run_bind_ok (hname hlast),
    run_bind_ok (hint hsegment)]
  rcases hflag with ⟨rfl, rfl⟩ | ⟨arg, v, rfl, hv, rfl⟩
  · rfl
  · dsimp only
    rw [run_bind_ok hv]
    rfl

theorem Machine.arrays_assign (m : Machine) (name : String) (v : Value) : (m.assign name v).arrays = m.arrays := by
  unfold Machine.assign
  split
  · rfl
  · exact m.arrays_modifyCurrent _

/-- What is stored in an array by its name is found under the name, also when a variable is changed. -/
theorem Machine.array?_modifyArray_assign {name : String} {a : TypedArray} (ha : m.array? name = some a)
    (f : TypedArray → TypedArray) (other : String) (v : Value) :
    ((m.modifyArray name f).assign other v).array? name = some (f a) := by
  have hnames : SameNames m ((m.modifyArray name f).assign other v) :=
    (SameNames.modifyArray m name f).trans (SameNames.assign _ other v)
  rw [Machine.array?, hnames.arrayName, Machine.arrays_assign]
  exact (Bindings.get?_modify _ _ _ _).trans ((if_pos rfl).trans (congrArg (Option.map f) ha))

/-- A segment comes behind the elements in use. -/
theorem appendSegment_apply (found : List Int64) {used : List Int64} {arrayName : String} (lastName : String)
    {a : TypedArray} {last : Int64}
    (ha : m.array? arrayName = some a) (hkind : a.kind = .integer)
    (hused : a.data.toList.take used.length = used.map Value.int) (hlast : m.lookup lastName = .ok (.int last))
    (hplace : last.toInt = used.length) (hfit : used.length + found.length ≤ maxArrayLength) :
    ∃ n b, (appendSegment found arrayName lastName).run m = (.ok (.int (Int64.ofNat found.length)), n) ∧
      n.array? arrayName = some b ∧
      b.data.toList.take (used.length + found.length) = (used ++ found).map Value.int := by
  cases found with
  | nil =>
    refine ⟨m, a, rfl, ha, ?_⟩
    rw [List.length_nil, Nat.add_zero, List.append_nil, hused]
  | cons c found =>
    have hstart : last.toInt.toNat = used.length := by omega
    have hwithin : used.length ≤ a.data.size := by
      have hlength : min used.length a.data.size = used.length := by simpa using congrArg List.length hused
      omega
    have hmoved : (Int64.ofNat (used.length + (c :: found).length)).toInt = last.toInt.toNat + (c :: found).length := by
      simp only [maxArrayLength] at hfit
      rw [Int64.toInt_ofNat_of_lt (by omega)]
      omega
    have hknown : (m.array? arrayName).isSome = true := by rw [ha]; rfl
    have happend := appendSegment_fits (List.cons_ne_nil c found) hlast rfl hknown hmoved
    refine ⟨_, putAll a last.toInt.toNat (c :: found), happend, Machine.array?_modifyArray_assign ha _ _ _, ?_⟩
    rw [hstart, TypedArray.take_putAll _ hkind hwithin hfit, hused, List.map_append]

end

/-! ### Calls -/

/-- A call of a program that takes a segment of the strip in the state `m`.  Its arguments name a matrix of segment
sizes, a list of channels, an array that is in use up to its last element and the variable that counts those; the others
have their values in `m` and leave it as it is. -/
structure SegmentCall (env : Environment Eval) (m : Machine) where
  /-- The segment sizes, row by row. -/
  table : List (List Int64)
  channels : List Int64
  /-- The elements of the array that are in use. -/
  used : List Int64
  segment : Int64
  reversed : Bool
  tableName : String
  matrix : TypedArray
  matrix_eq : m.array? tableName = some matrix
  holds : matrix.Holds table
  rows : Expr
  rowCount : Int64
  rows_eq : (rows.eval env .integer).run m = (.ok (.int rowCount), m)
  rowCount_eq : rowCount.toInt = table.length
  mainName : String
  lists : ReadsInts m mainName channels
  mainSize : Expr
  size : Int64
  mainSize_eq : (mainSize.eval env .integer).run m = (.ok (.int size), m)
  size_eq : size.toInt = channels.length
  arrayName : String
  array : TypedArray
  array_eq : m.array? arrayName = some array
  kind_eq : array.kind = .integer
  used_eq : array.data.toList.take used.length = used.map Value.int
  lastName : String
  last : Int64
  lookup_eq : m.lookup lastName = .ok (.int last)
  last_eq : last.toInt = used.length
  target : Expr
  target_eq : (target.eval env .integer).run m = (.ok (.int segment), m)
  reverse : List Expr
  reverse_eq : (reverse = [] ∧ reversed = false) ∨
    ∃ e v, reverse = [e] ∧ (e.eval env .integer).run m = (.ok v, m) ∧ v.truthy = reversed

namespace SegmentCall

variable {env : Environment Eval} {m : Machine} (c : SegmentCall env m)

def args : List Expr :=
  [.ident c.tableName, c.rows, .ident c.mainName, c.mainSize, .ident c.arrayName, .ident c.lastName, c.target] ++
    c.reverse

/-- The segment, as taken by the rows that count. -/
def found : List Int64 :=
  Library.segment (effective c.table) c.channels (Int64.ofNat c.channels.length) c.segment c.reversed

theorem size_eq_ofNat : c.size = Int64.ofNat c.channels.length := by
  have hsize := c.size_eq
  have hlt := c.size.toInt_lt
  refine Int64.toInt_inj.1 (hsize.trans (Int64.toInt_ofNat_of_lt ?_).symm)
  omega

theorem flagged {invoke : Closure → List Arg → Eval Value} (c : SegmentCall (environment invoke) m) :
    Flagged m (Expr.arguments (environment invoke) .integer c.reverse) c.reversed := by
  rcases c.reverse_eq with ⟨hreverse, hflag⟩ | ⟨e, v, hreverse, hv, hflag⟩
  · exact .inl ⟨by rw [hreverse, Expr.arguments], hflag⟩
  · have harguments : Expr.arguments (environment invoke) .integer c.reverse =
        [⟨e, e.eval (environment invoke) .integer⟩] := by
      rw [hreverse, Expr.arguments, Expr.arguments]
    exact .inr ⟨_, v, harguments, hv, hflag⟩

/-- The program counts the segment and stores it behind the elements in use. -/
theorem eval_call {invoke : Closure → List Arg → Eval Value} {m : Machine} (c : SegmentCall (environment invoke) m)
    (hfit : c.used.length + c.found.length ≤ maxArrayLength) :
    ∃ n b, ((Expr.call Builtin.shiftByOrder.name c.args).eval (environment invoke) .integer).run m =
        (.ok (.int (Int64.ofNat c.found.length)), n) ∧
      n.array? c.arrayName = some b ∧
      b.data.toList.take (c.used.length + c.found.length) = (c.used ++ c.found).map Value.int := by
  obtain ⟨n, b, happend, hb, hdata⟩ := appendSegment_apply c.found c.lastName c.array_eq c.kind_eq c.used_eq
    c.lookup_eq c.last_eq hfit
  have hmatrix : ((Expr.ident c.tableName).ident?).bind m.array? = some c.matrix := c.matrix_eq
  have hlimit : c.rowCount.toInt.toNat = c.table.length := by
    have := c.rowCount_eq
    omega
  refine ⟨n, b, ?_, hb, hdata⟩
  calc ((Expr.call Builtin.shiftByOrder.name c.args).eval (environment invoke) .integer).run m
      = (shiftByOrder (Expr.arguments (environment invoke) .integer c.args)).run m := by
        rw [Expr.eval]
        rfl
    _ = (appendSegment c.found c.arrayName c.lastName).run m := by
        simp only [args, List.cons_append, List.nil_append, Expr.arguments]
        rw [shiftByOrder_apply c.rows_eq rfl c.lists.ints c.mainSize_eq rfl rfl c.target_eq c.flagged, hlimit,
          segment_segmentRows hmatrix c.holds, c.size_eq_ofNat]
        rfl
    _ = _ := happend

end SegmentCall

end Procedure

namespace Script.Functions

/-! ### What a script reads and does -/

def items (ns : List Int64) : Array Datum := (ns.map Datum.int).toArray

def tableItems (table : List (List Int64)) : Array Datum := (table.map fun row => .array (items row)).toArray

theorem ints_items (ns : List Int64) : ints (items ns) = ns := by
  rw [ints, items, List.map_map]
  exact List.map_id ns

theorem rows_tableItems (table : List (List Int64)) : rows (tableItems table) = table := by
  rw [rows, tableItems, List.filterMap_map]
  calc table.filterMap _
      = table.filterMap some := List.filterMap_congr fun row _ => congrArg some (ints_items row)
    _ = table := List.filterMap_some

/-- A script appends the segment to all that it has. -/
theorem shiftByOrder_items (table : List (List Int64)) (main used : List Int64) (target : Int64) (reverse : Bool)
    {found : List Int64} (hfound : Library.segment table main (Int64.ofNat main.length) target reverse = found)
    (hfit : used.length + found.length ≤ maxItems) :
    shiftByOrder (tableItems table) (items main) target reverse (items used) =
      (.ok (.int (Int64.ofNat found.length)), items (used ++ found)) := by
  have happend : items used ++ (found.map Datum.int).toArray = items (used ++ found) := by
    rw [items, items, List.append_toArray, List.map_append]
  have hsize : ¬ maxItems < (items (used ++ found)).size := by
    rw [items, List.size_toArray, List.length_map, List.length_append]
    omega
  rw [shiftByOrder, ints_items, rows_tableItems, hfound, happend, grow, if_neg hsize]

end Script.Functions

namespace Procedure.SegmentCall

open Script.Functions

variable {env : Environment Eval} {m : Machine} (c : SegmentCall env m)

/-- The arguments of the same call in a script, with the segment sizes from `table`. -/
def scriptArgs (table : List (List Int64)) : List Script.Datum :=
  [.array (tableItems table), .array (items c.channels), .int c.segment] ++ c.reverse.map fun _ => .bool c.reversed

def methodName : String := "shift_array_according_to_order"

theorem method?_scriptArgs (table : List (List Int64)) :
    method? methodName (c.scriptArgs table) =
      some (Script.Functions.shiftByOrder (tableItems table) (items c.channels) c.segment c.reversed) := by
  rcases c.reverse_eq with ⟨hreverse, hflag⟩ | ⟨e, v, hreverse, -, -⟩
  · rw [scriptArgs, hreverse, hflag]
    rfl
  · rw [scriptArgs, hreverse]
    rfl

end Procedure.SegmentCall

namespace Simulation

open Procedure Script.Functions

/-- **Segments in programs and scripts.**  A program that appends a segment to an array behind its elements in use, and
a script that is given these elements and the same segment sizes, channels, segment and flag, count the same and leave
the same elements.  But in a program a matrix of one row counts as the first row of the built-in one. -/
theorem segment_agrees {invoke : Closure → List Arg → Eval Value} {m : Machine}
    (c : SegmentCall (environment invoke) m) (hfit : c.used.length + c.found.length ≤ maxArrayLength) :
    ∃ (count : Nat) (elements : List Int64) (n : Machine) (b : TypedArray) (change : Change),
      elements.length = c.used.length + count ∧
      ((Expr.call Builtin.shiftByOrder.name c.args).eval (environment invoke) .integer).run m =
        (.ok (.int (Int64.ofNat count)), n) ∧
      n.array? c.arrayName = some b ∧ b.data.toList.take (c.used.length + count) = elements.map Value.int ∧
      method? SegmentCall.methodName (c.scriptArgs (effective c.table)) = some change ∧
      change (items c.used) = (.ok (.int (Int64.ofNat count)), items elements) := by
  obtain ⟨n, b, heval, hb, hdata⟩ := c.eval_call hfit
  exact ⟨c.found.length, c.used ++ c.found, n, b, _, List.length_append, heval, hb, hdata,
    c.method?_scriptArgs (effective c.table), shiftByOrder_items _ _ _ _ _ rfl hfit⟩

/-- A state in which a matrix has the segment sizes, and an array of four elements has one in use. -/
def segmented (sizes : TypedArray) : Machine :=
  { Machine.start 24 (.ofMillis 30) 10 600 0 with
    root := { Activation.empty with locals := [("last", ⟨some .integer, false, .int 1⟩)] }
    arrays := [("sizes", sizes), ("chosen", ⟨1, 4, .integer, #[.int 7, .int 0, .int 0, .int 0]⟩)] }

/-- The call for segment 1 in reverse order. -/
def reversedSegment (table : List (List Int64)) {sizes : TypedArray} (holds : sizes.Holds table)
    (hfew : table.length < 2 ^ 63) : SegmentCall (environment (invoke 0)) (segmented sizes) where
  table
  channels := (List.range 24).map Int64.ofNat
  used := [7]
  segment := 1
  reversed := true
  tableName := "sizes"
  matrix := sizes
  matrix_eq := rfl
  holds
  rows := .literal (.int (Int64.ofNat table.length))
  rowCount := Int64.ofNat table.length
  rows_eq := by rw [Expr.eval]; rfl
  rowCount_eq := Int64.toInt_ofNat_of_lt hfew
  mainName := "pin_ptr_"
  lists := .channels rfl rfl rfl
  mainSize := .ident "pin_size_"
  size := 24
  mainSize_eq := by rw [Expr.eval]; rfl
  size_eq := rfl
  arrayName := "chosen"
  array := ⟨1, 4, .integer, #[.int 7, .int 0, .int 0, .int 0]⟩
  array_eq := rfl
  kind_eq := rfl
  used_eq := rfl
  lastName := "last"
  last := 1
  lookup_eq := rfl
  last_eq := rfl
  target := .literal (.int 1)
  target_eq := by rw [Expr.eval]; rfl
  reverse := [.literal (.bool true)]
  reverse_eq := .inr ⟨.literal (.bool true), .bool true, rfl, by rw [Expr.eval]; rfl, rfl⟩

def twoRows : TypedArray := ⟨2, 2, .integer, #[.int 1, .int 2, .int 3, .int 4]⟩

theorem holds_twoRows : twoRows.Holds [[1, 2], [3, 4]] := by
  have hsmall : ∀ row ∈ [[(1 : Int64), 2], [3, 4]], ∀ n ∈ row, n.toInt.natAbs ≤ 4 := by simp
  exact ⟨rfl, by decide, rfl, fun row hrow n hn => precise_of_lt ((hsmall row hrow n hn).trans_lt (by norm_num))⟩

theorem segment_agrees_twoRows :
    let c := reversedSegment _ holds_twoRows (by norm_num)
    c.used.length + c.found.length ≤ maxArrayLength ∧ c.found = [2, 1] ∧
      ∃ (count : Nat) (elements : List Int64) (n : Machine) (b : TypedArray) (change : Change),
        elements.length = c.used.length + count ∧
        ((Expr.call Builtin.shiftByOrder.name c.args).eval (environment (invoke 0)) .integer).run (segmented twoRows) =
          (.ok (.int (Int64.ofNat count)), n) ∧
        n.array? c.arrayName = some b ∧ b.data.toList.take (c.used.length + count) = elements.map Value.int ∧
        method? SegmentCall.methodName (c.scriptArgs [[1, 2], [3, 4]]) = some change ∧
        change (items c.used) = (.ok (.int (Int64.ofNat count)), items elements) :=
  ⟨by decide +kernel, by decide +kernel, segment_agrees (reversedSegment _ holds_twoRows _) (by decide +kernel)⟩

def oneRow : TypedArray := ⟨1, 2, .integer, #[.int 1, .int 2]⟩

theorem holds_oneRow : oneRow.Holds [[1, 2]] := by
  have hsmall : ∀ row ∈ [[(1 : Int64), 2]], ∀ n ∈ row, n.toInt.natAbs ≤ 2 := by simp
  exact ⟨rfl, by decide, rfl, fun row hrow n hn => precise_of_lt ((hsmall row hrow n hn).trans_lt (by norm_num))⟩

/-- Of a matrix of one row, a script takes two channels for segment 1.  A program takes four, by the first row of the
built-in matrix. -/
theorem segment_oneRow :
    let c := reversedSegment _ holds_oneRow (by norm_num)
    (∃ n b,
      ((Expr.call Builtin.shiftByOrder.name c.args).eval (environment (invoke 0)) .integer).run (segmented oneRow) =
        (.ok (.int 4), n) ∧
      n.array? "chosen" = some b ∧ b.data.toList.take 5 = [7, 6, 5, 4, 3].map Value.int) ∧
    ∃ change, method? SegmentCall.methodName (c.scriptArgs c.table) = some change ∧
      change (items c.used) = (.ok (.int 2), items [7, 2, 1]) := by
  intro c
  have hfound : c.found = [6, 5, 4, 3] := by decide +kernel
  have hscript : Library.segment c.table c.channels (Int64.ofNat c.channels.length) c.segment c.reversed = [2, 1] := by
    decide +kernel
  refine ⟨?_, _, c.method?_scriptArgs c.table, shiftByOrder_items _ _ _ _ _ hscript (by decide)⟩
  have heval := c.eval_call (by rw [hfound]; decide)
  rw [hfound] at heval
  exact heval

end Simulation

end RunningLights
