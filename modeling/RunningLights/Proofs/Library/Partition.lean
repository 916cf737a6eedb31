import RunningLights.Procedure.Library
import Mathlib

/-!
# The segments of a strip

A matrix divides the strip into segments: row `r` has the sizes of the segments of `24 - 2 r` channels, and a strip with
an odd number of channels takes the row of the next larger one.  The segments lie one behind the other:

* `flatten_cut` — pieces of given sizes, each behind those before it, make up the front of a list;
* `Halves` — the rows of the matrix divide 24, 22, 20, … channels;
* `eq_of_matrixRow?` — the strips for which there is a row;
* `Library.segments_flatten` — the segments of a strip make up the strip, and every channel lies in one of them;
* `Library.segments_lose_channel` — but a strip of 25 channels, which has a row as well, loses its last channel.
-/

namespace RunningLights.Library

open Number

/-! ### Cutting a list -/

/-- Pieces of given sizes that lie one behind the other make up the front of a list. -/
theorem flatten_cut {α : Type} (xs : List α) (sizes : List Nat) :
    ((List.range sizes.length).map fun k => (xs.drop (sizes.take k).sum).take (sizes.getD k 0)).flatten =
      xs.take sizes.sum := by
  induction sizes generalizing xs with
  | nil => simp
  | cons size rest ih =>
    have hrest : ∀ k, (xs.drop ((size :: rest).take (k + 1)).sum).take ((size :: rest).getD (k + 1) 0) =
        ((xs.drop size).drop (rest.take k).sum).take (rest.getD k 0) := by
      intro k
      rw [List.take_succ_cons, List.sum_cons, List.drop_drop, List.getD_cons_succ]
    rw [List.length_cons, List.range_succ_eq_map, List.map_cons, List.flatten_cons, List.map_map]
    simp only [Function.comp_def, Nat.succ_eq_add_one, hrest]
    rw [ih, List.sum_cons, List.take_add]
    simp

/-! ### Sizes -/

/-- The sizes of a row divide so many channels. -/
structure Divides (row : List Int64) (total : ℤ) : Prop where
  nonneg : ∀ size ∈ row, 0 ≤ size.toInt
  sum : (row.map Int64.toInt).sum = total

/-- Row `r` of the matrix divides `24 - 2 r` channels. -/
def Halves (table : List (List Int64)) : Prop :=
  ∀ (r : Nat) (row : List Int64), table[r]? = some row → Divides row (24 - 2 * r)

-- Over the list: to decide a statement on all words would be to go through all of them.
instance (row : List Int64) (total : ℤ) : Decidable (Divides row total) :=
  decidable_of_iff ((row.all fun size => decide (0 ≤ size.toInt)) = true ∧ (row.map Int64.toInt).sum = total)
    ⟨fun h => ⟨by simpa using h.1, h.2⟩, fun h => ⟨by simpa using h.nonneg, h.sum⟩⟩

theorem halves_iff {table : List (List Int64)} :
    Halves table ↔ ∀ r : Fin table.length, Divides table[r] (24 - 2 * (r : Nat)) := by
  constructor
  · intro h r
    exact h r table[r] (List.getElem?_eq_getElem r.isLt)
  · intro h r row hrow
    obtain ⟨hr, rfl⟩ := List.getElem?_eq_some_iff.1 hrow
    exact h ⟨r, hr⟩

instance (table : List (List Int64)) : Decidable (Halves table) := decidable_of_iff _ halves_iff.symm

theorem sum_segmentSize {row : List Int64} (h : ∀ size ∈ row, 0 ≤ size.toInt) :
    ((row.map segmentSize).sum : ℤ) = (row.map Int64.toInt).sum := by
  induction row with
  | nil => rfl
  | cons size row ih =>
    have hsize := h size List.mem_cons_self
    have hrow := ih fun other hother => h other (List.mem_cons_of_mem _ hother)
    simp only [List.map_cons, List.sum_cons, Nat.cast_add, hrow, segmentSize]
    omega

/-- Sizes that are not negative add up to their sum as long as it is a word. -/
theorem toInt_foldl_clamp {row : List Int64} (h : ∀ size ∈ row, 0 ≤ size.toInt) {acc : Int64} (hacc : 0 ≤ acc.toInt)
    (hfit : acc.toInt + (row.map segmentSize).sum ≤ maxInt) :
    (row.foldl (fun acc size => clamp (acc.toInt + size.toInt)) acc).toInt = acc.toInt + (row.map segmentSize).sum := by
  induction row generalizing acc with
  | nil => simp
  | cons size row ih =>
    have hsize := h size List.mem_cons_self
    have hsegment : (segmentSize size : ℤ) = size.toInt := Int.toNat_of_nonneg hsize
    rw [List.map_cons, List.sum_cons, Nat.cast_add, hsegment] at hfit ⊢
    have hnext : (clamp (acc.toInt + size.toInt)).toInt = acc.toInt + size.toInt := by
      have hmin : minInt ≤ 0 := by decide
      rw [toInt_clamp]
      omega
    have hpositive : 0 ≤ (clamp (acc.toInt + size.toInt)).toInt := by omega
    have hrest := ih (fun other hother => h other (List.mem_cons_of_mem _ hother)) hpositive (by omega)
    rw [List.foldl_cons, hrest, hnext]
    omega

theorem segmentStart_take {row : List Int64} {total : ℤ} (h : Divides row total) (htotal : total ≤ maxInt) (k : Nat) :
    segmentStart (row.take k) = ((row.map segmentSize).take k).sum := by
  have hsum := (sum_segmentSize h.nonneg).trans h.sum
  have hsplit := congrArg List.sum (List.take_append_drop k (row.map segmentSize))
  rw [List.sum_append] at hsplit
  have hfit : (0 : Int64).toInt + ((row.take k).map segmentSize).sum ≤ maxInt := by
    rw [List.map_take, Int64.toInt_zero]
    omega
  rw [segmentStart, toInt_foldl_clamp (fun size hsize => h.nonneg size (List.mem_of_mem_take hsize)) le_rfl hfit,
    List.map_take, Int64.toInt_zero]
  omega

/-! ### Rows -/

/-- There are rows for 24, 22, 20, … channels, which also serve the odd numbers below these, and the first serves 25. -/
theorem eq_of_matrixRow? {n : Int64} {rows r : Nat} (h : matrixRow? n rows = some r) :
    n.toInt = 24 - 2 * r ∨ n.toInt = 23 - 2 * r ∨ (n.toInt = 25 ∧ r = 0) := by
  simp only [matrixRow?, Option.bind_eq_bind, Option.bind_eq_some_iff, fit?_eq_some_iff] at h
  obtain ⟨missing, hmissing, h⟩ := h
  split at h
  · rename_i hrow
    have hr := Option.some.inj h
    -- Below zero the quotient is rounded up, so that row 0 is found although a channel is missing from it.
    have hquotient : (24 - n.toInt).tdiv 2 = if 0 ≤ 24 - n.toInt then (24 - n.toInt) / 2 else (25 - n.toInt) / 2 := by
      rw [Int.tdiv_eq_ediv]
      have hsign : Int.sign 2 = 1 := rfl
      split <;> split <;> omega
    rw [hmissing, hquotient] at hr hrow
    split at hr <;> omega
  · cases h

/-! ### Channels -/

def strip (n : Int64) : List Int64 := (List.range n.toInt.toNat).map Int64.ofNat

theorem length_strip (n : Int64) : (strip n).length = n.toInt.toNat := by
  rw [strip, List.length_map, List.length_range]

theorem mem_strip {n k : Int64} : k ∈ strip n ↔ 0 ≤ k.toInt ∧ k < n := by
  have hn := n.toInt_lt
  rw [strip, List.mem_map, Int64.lt_iff_toInt_lt]
  constructor
  · rintro ⟨i, hi, rfl⟩
    rw [List.mem_range] at hi
    rw [Int64.toInt_ofNat_of_lt (by omega)]
    omega
  · rintro ⟨hk, hkn⟩
    refine ⟨k.toInt.toNat, List.mem_range.2 (by omega), Int64.toInt_inj.1 ?_⟩
    rw [Int64.toInt_ofNat_of_lt (by omega)]
    omega

theorem nodup_strip (n : Int64) : (strip n).Nodup := by
  have hn := n.toInt_lt
  refine List.Nodup.map_on ?_ List.nodup_range
  intro i hi j hj hij
  rw [List.mem_range] at hi hj
  have := congrArg Int64.toInt hij
  rw [Int64.toInt_ofNat_of_lt (by omega), Int64.toInt_ofNat_of_lt (by omega)] at this
  omega

theorem mem_take_strip {n k : Int64} {m : Nat} : k ∈ (strip n).take m ↔ k ∈ strip n ∧ k.toInt < m := by
  have hn := n.toInt_lt
  rw [mem_strip, strip, ← List.map_take, List.take_range, List.mem_map, Int64.lt_iff_toInt_lt]
  constructor
  · rintro ⟨i, hi, rfl⟩
    rw [List.mem_range] at hi
    rw [Int64.toInt_ofNat_of_lt (by omega)]
    omega
  · rintro ⟨⟨hk, hkn⟩, hkm⟩
    refine ⟨k.toInt.toNat, List.mem_range.2 (by omega), Int64.toInt_inj.1 ?_⟩
    rw [Int64.toInt_ofNat_of_lt (by omega)]
    omega

/-! ### Segments -/

/-- The segments of all columns of a row that divides the strip of so many channels. -/
def segments (table : List (List Int64)) (n : Int64) (row : List Int64) : List (List Int64) :=
  (List.range row.length).map fun column => segment table (strip n) n (Int64.ofNat column) false

theorem segment_reverse (table : List (List Int64)) (main : List Int64) (total target : Int64) :
    segment table main total target true = (segment table main total target false).reverse := by
  unfold segment
  split
  · rfl
  · split
    · rfl
    · split <;> rfl

/-- A column has so many channels as its size says, behind those of the columns before it. -/
theorem segment_column {table : List (List Int64)} {n : Int64} {r : Nat} {row : List Int64}
    (hr : matrixRow? n table.length = some r) (hrow : table[r]? = some row) {total : ℤ} (h : Divides row total)
    (htotal : total ≤ maxInt) (main : List Int64) {column : Nat} (hcolumn : column < row.length)
    (hwords : row.length ≤ 2 ^ 63) :
    segment table main n (Int64.ofNat column) false =
      (main.drop ((row.map segmentSize).take column).sum).take ((row.map segmentSize).getD column 0) := by
  have htarget : (Int64.ofNat column).toInt = column := Int64.toInt_ofNat_of_lt (by omega)
  have hsize : (row.map segmentSize).getD column 0 = segmentSize row[column] := by
    rw [List.getD_eq_getElem _ _ (by rwa [List.length_map]), List.getElem_map]
  have hfound : (matrixRow? n table.length).bind (fun r => table[r]?) = some row := by rw [hr, Option.bind_some, hrow]
  have hnonneg : ¬ (column : ℤ) < 0 := by omega
  rw [segment, hfound, htarget, Int.toNat_natCast, hsize, ← segmentStart_take h htotal]
  simp only [if_neg hnonneg, List.getElem?_eq_getElem hcolumn, Bool.false_eq_true, if_false]

theorem flatten_segments {table : List (List Int64)} {n : Int64} {r : Nat} {row : List Int64}
    (hr : matrixRow? n table.length = some r) (hrow : table[r]? = some row) (h : Divides row (24 - 2 * r))
    (hwords : row.length ≤ 2 ^ 63) : (segments table n row).flatten = (strip n).take (24 - 2 * r) := by
  have htotal : (24 - 2 * r : ℤ) ≤ maxInt := by
    simp only [maxInt]
    omega
  have hsum : (row.map segmentSize).sum = 24 - 2 * r := by
    have := (sum_segmentSize h.nonneg).trans h.sum
    omega
  rw [← hsum, ← flatten_cut, segments, List.length_map]
  congr 1
  refine List.map_congr_left fun column hcolumn => ?_
  exact segment_column hr hrow h htotal (strip n) (List.mem_range.1 hcolumn) hwords

/-- An element of pieces that have none in common lies in one of them. -/
theorem existsUnique_of_nodup_flatten {α : Type} {m : Nat} {piece : Nat → List α}
    (h : ((List.range m).map piece).flatten.Nodup) {x : α} (hx : x ∈ ((List.range m).map piece).flatten) :
    ∃! k, k < m ∧ x ∈ piece k := by
  obtain ⟨found, hfound, hxfound⟩ := List.mem_flatten.1 hx
  obtain ⟨k, hk, rfl⟩ := List.mem_map.1 hfound
  rw [List.mem_range] at hk
  refine ⟨k, ⟨hk, hxfound⟩, ?_⟩
  rintro j ⟨hj, hxj⟩
  have hpairwise := (List.nodup_flatten.1 h).2
  rw [List.pairwise_map] at hpairwise
  have apart : ∀ i j, i < j → j < m → List.Disjoint (piece i) (piece j) := by
    intro i j hij hj
    have hi : i < (List.range m).length := by
      rw [List.length_range]
      omega
    have hdisjoint := List.pairwise_iff_getElem.1 hpairwise i j hi (by rwa [List.length_range]) hij
    rwa [List.getElem_range, List.getElem_range] at hdisjoint
  rcases Nat.lt_trichotomy j k with hlt | heq | hlt
  · exact absurd hxfound (apart j k hlt hk hxj)
  · exact heq
  · exact absurd hxj (apart k j hlt hj hxfound)

/-- **The segments of a strip.**  If a matrix whose rows divide 24, 22, 20, … channels has a row for a strip, and words
to number its columns, then the segments make up the front of the strip, up to channel 23.  That is the whole strip
unless it has 25 channels, in which case channel 24 lies in no segment; every other channel lies in exactly one.  In
reverse order a segment has the same channels. -/
theorem segments_flatten {table : List (List Int64)} (htable : Halves table) {n : Int64} {r : Nat} {row : List Int64}
    (hr : matrixRow? n table.length = some r) (hrow : table[r]? = some row) (hwords : row.length ≤ 2 ^ 63) :
    (segments table n row).flatten = (strip n).take 24 ∧
    ((segments table n row).flatten = strip n ↔ n ≠ 25) ∧
    (∀ k ∈ strip n, k ≠ 24 →
      ∃! column, column < row.length ∧ k ∈ segment table (strip n) n (Int64.ofNat column) false) ∧
    (∀ column < row.length, (24 : Int64) ∉ segment table (strip n) n (Int64.ofNat column) false) ∧
    ∀ column, segment table (strip n) n (Int64.ofNat column) true =
      (segment table (strip n) n (Int64.ofNat column) false).reverse := by
  have hflatten := flatten_segments hr hrow (htable r row hrow) hwords
  have hcases := eq_of_matrixRow? hr
  have hlength := length_strip n
  have htwentyFive : n ≠ 25 ↔ n.toInt ≠ 25 := Int64.toInt_inj.symm.not
  have hfront : (strip n).take (24 - 2 * r) = (strip n).take 24 := by
    rcases hcases with h | h | ⟨h, rfl⟩
    · rw [List.take_of_length_le (by omega), List.take_of_length_le (by omega)]
    · rw [List.take_of_length_le (by omega), List.take_of_length_le (by omega)]
    · rfl
  rw [hfront] at hflatten
  refine ⟨hflatten, ?_, ?_, ?_, fun column => segment_reverse table (strip n) n _⟩
  · rw [hflatten, List.take_eq_self_iff, hlength, htwentyFive]
    omega
  · intro k hk hne
    have hnodup : (segments table n row).flatten.Nodup := hflatten ▸ (nodup_strip n).sublist (List.take_sublist _ _)
    refine existsUnique_of_nodup_flatten hnodup ?_
    show k ∈ (segments table n row).flatten
    have hne : k.toInt ≠ 24 := fun h => hne (Int64.toInt_inj.1 h)
    have hlt := (mem_strip.1 hk).2
    rw [Int64.lt_iff_toInt_lt] at hlt
    rw [hflatten, mem_take_strip]
    exact ⟨hk, by omega⟩
  · intro column hcolumn hmem
    have : (24 : Int64) ∈ (segments table n row).flatten :=
      List.mem_flatten.2 ⟨_, List.mem_map.2 ⟨column, List.mem_range.2 hcolumn, rfl⟩, hmem⟩
    rw [hflatten, mem_take_strip] at this
    exact absurd this.2 (by decide)

/-- The rows of the built-in matrix divide 24, 22, 20, … channels. -/
theorem halves_matrix : Halves matrix := by decide

/-- A strip of 19 channels takes the row for 20, and its last segment is one channel short. -/
theorem segments_flatten_nineteen :
    Halves matrix ∧ matrixRow? 19 matrix.length = some 2 ∧ matrix[2]? = some [3, 3, 3, 1, 1, 3, 3, 3] ∧
      (segments matrix 19 [3, 3, 3, 1, 1, 3, 3, 3]).flatten = strip 19 := by
  have hr : matrixRow? 19 matrix.length = some 2 := by decide
  have hrow : matrix[2]? = some [3, 3, 3, 1, 1, 3, 3, 3] := rfl
  obtain ⟨-, hwhole, -⟩ := segments_flatten halves_matrix hr hrow (by decide)
  exact ⟨halves_matrix, hr, hrow, hwhole.2 (by decide)⟩

/-- A matrix of one row with one segment of 24 channels has a row for a strip of 25 channels, whose last channel is in
no segment. -/
theorem segments_lose_channel :
    Halves [[24]] ∧ matrixRow? 25 [[(24 : Int64)]].length = some 0 ∧
      segments [[24]] 25 [24] = [strip 24] ∧ (segments [[24]] 25 [24]).flatten ≠ strip 25 := by
  decide

end RunningLights.Library
