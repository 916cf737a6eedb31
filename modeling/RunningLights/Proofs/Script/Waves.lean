import RunningLights.Proofs.Script.Strokes
import Mathlib

/-!
# Waves

A wave over `n` channels has `n / 2` steps, each of which sets two channels and pauses.  The steps are meant to take the
whole strip, but halves and quarters of the strip are rounded down:

* `Session.ran` — what strokes do to a session if none of them is refused;
* `Session.skipped` — the channels that no step of a wave sets;
* `Session.exists_pair_iff` — these and only these are left out by all pairs;
* `Session.channels_of_wave` — so a wave that ends without an abort takes `n / 2` pauses and sets all others;
* `Session.first_channel_skipped` — of two channels it sets only the second.
-/

namespace RunningLights.Script

namespace Session

/-! ### Strokes that are not refused -/

/-- What one stroke does if it is not refused. -/
theorem ran_stroke {stroke : Stroke} {s s' : Session} (h : stroke.play s = (.ok (), s')) :
    s'.channels = stroke.change s.channels ∧ s'.pauses = s.pauses + if stroke.delay?.isSome then 1 else 0 := by
  have hplayed := played stroke s
  rw [h] at hplayed
  cases hplayed with
  | changed hdelay => simp [hdelay]
  | shown hdelay hcap hresult =>
    cases stroke with
    | pause ms => exact ⟨rfl, rfl⟩
    | set index on => cases hdelay
    | fill on => cases hdelay
    | paint plan => cases hdelay

/-- What strokes do if none of them is refused: the channels change by each of them, and every pause is counted. -/
theorem ran {strokes : List Stroke} {s s' : Session} (h : forM strokes Stroke.play s = (.ok (), s')) :
    s'.channels = strokes.foldl (fun channels stroke => stroke.change channels) s.channels ∧
      s'.pauses = s.pauses + strokes.countP (·.delay?.isSome) := by
  induction strokes generalizing s with
  | nil =>
    cases h
    exact ⟨rfl, rfl⟩
  | cons stroke rest ih =>
    rw [List.forM_cons, bind_apply] at h
    cases hplay : stroke.play s with
    | mk result between =>
      rw [hplay] at h
      cases result with
      | error a => cases h
      | ok _ =>
        obtain ⟨hchannels, hpauses⟩ := ran_stroke hplay
        obtain ⟨hchannels', hpauses'⟩ := ih h
        rw [hchannels', hchannels, hpauses', hpauses, List.foldl_cons, List.countP_cons]
        exact ⟨rfl, by omega⟩

/-! ### Pairs -/

/-- The channels that step `i` of a wave over `n` channels sets. -/
def pair (n i : Nat) : List Nat :=
  if i < n / 2 / 2 then [i, n / 2 - (i + 1)] else [i + n / 2, n - i - 1]

theorem mem_pair {n i j : Nat} :
    j ∈ pair n i ↔ (i < n / 2 / 2 ∧ (j = i ∨ j = n / 2 - (i + 1))) ∨
      (n / 2 / 2 ≤ i ∧ (j = i + n / 2 ∨ j = n - i - 1)) := by
  unfold pair
  split <;> simp only [List.mem_cons, List.not_mem_nil, or_false] <;> omega

theorem lt_of_mem_pair {n i j : Nat} (hi : i < n / 2) (h : j ∈ pair n i) : j < n := by
  rw [mem_pair] at h
  omega

theorem tdiv_two (n : Nat) : (n : ℤ).tdiv 2 = (n / 2 : Nat) := by
  rw [Int.tdiv_eq_ediv_of_nonneg (Int.natCast_nonneg n)]
  omega

theorem wavePair_eq {n i : Nat} (hi : i < n / 2) :
    ∃ a b : Nat, wavePair n i = ((a : ℤ), (b : ℤ)) ∧ pair n i = [a, b] := by
  simp only [wavePair, tdiv_two, pair]
  by_cases hquarter : i < n / 2 / 2
  · refine ⟨i, n / 2 - (i + 1), ?_, if_pos hquarter⟩
    rw [if_pos (by omega)]
    congr 1
    omega
  · refine ⟨i + n / 2, n - i - 1, ?_, if_neg hquarter⟩
    rw [if_neg (by omega)]
    congr 1
    omega

/-- The channels that no step of a wave over `n` channels sets: the middle of the first half if that has one, and, with
an odd number of channels, the one behind the first half and the last.  Three channels are too few for that: the only
step sets the last two. -/
def skipped (n : Nat) : List Nat :=
  if n = 3 then [0]
  else (if n / 2 % 2 = 1 then [n / 4] else []) ++ (if n % 2 = 1 then [n / 2, n - 1] else [])

theorem mem_skipped {n j : Nat} :
    j ∈ skipped n ↔ (n = 3 ∧ j = 0) ∨
      (n ≠ 3 ∧ ((n / 2 % 2 = 1 ∧ j = n / 4) ∨ (n % 2 = 1 ∧ (j = n / 2 ∨ j = n - 1)))) := by
  unfold skipped
  split
  · simp [*]
  · split <;> split <;> simp [*]

/-- The pairs of a wave leave out the channels that are skipped and no others. -/
theorem exists_pair_iff {n j : Nat} (hj : j < n) : (∃ i < n / 2, j ∈ pair n i) ↔ j ∉ skipped n := by
  simp only [mem_skipped, mem_pair]
  constructor
  · rintro ⟨i, hi, hpair⟩
    omega
  · intro hskipped
    -- The two ends of the first half, and of the second half what lies behind its middle and up to it.
    have hcases : j < n / 2 / 2 ∨ (n / 2 - n / 2 / 2 ≤ j ∧ j < n / 2) ∨
        (n / 2 + n / 2 / 2 ≤ j ∧ j < n / 2 + n / 2) ∨ (n - n / 2 ≤ j ∧ j ≤ n - 1 - n / 2 / 2) := by omega
    rcases hcases with h | h | h | h
    · exact ⟨j, by omega, by omega⟩
    · exact ⟨n / 2 - (j + 1), by omega, by omega⟩
    · exact ⟨j - n / 2, by omega, by omega⟩
    · exact ⟨n - 1 - j, by omega, by omega⟩

/-! ### Channels -/

theorem get_foldl_set (channels : Channels) (on : Bool) (indices : List Nat) (j : Nat) :
    (indices.foldl (fun channels i => channels.set i on) channels).get j =
      if j ∈ indices ∧ j < channels.size then on else channels.get j := by
  induction indices generalizing channels with
  | nil => simp
  | cons i rest ih =>
    rw [List.foldl_cons, ih, Channels.size_set, Channels.get_set]
    by_cases hij : j = i
    · subst hij
      by_cases hrest : j ∈ rest <;> by_cases hj : j < channels.size <;> simp [hrest, hj]
    · simp [hij, Ne.symm hij]

theorem size_foldl_set (channels : Channels) (on : Bool) (indices : List Nat) :
    (indices.foldl (fun channels i => channels.set i on) channels).size = channels.size := by
  induction indices generalizing channels with
  | nil => rfl
  | cons i rest ih => rw [List.foldl_cons, ih, Channels.size_set]

theorem change_set {a : Nat} (ha : a < 2 ^ 63) (on : Bool) (channels : Channels) :
    (Stroke.set (Int64.ofInt a) on).change channels = channels.set a on := by
  have hindex : (Int64.ofInt a).toInt = a := Int64.toInt_ofInt_of_le (by omega) (by omega)
  rw [Stroke.change, hindex, if_pos (by omega), Int.toNat_natCast]

theorem foldl_waveStrokes {n i : Nat} (hwords : n ≤ 2 ^ 63) (hi : i < n / 2) (ms : Int64) (on : Bool)
    (channels : Channels) :
    (Request.waveStrokes n ms on i).foldl (fun channels stroke => stroke.change channels) channels =
      (pair n i).foldl (fun channels j => channels.set j on) channels := by
  obtain ⟨a, b, hwave, hpair⟩ := wavePair_eq hi
  have ha : a < n := lt_of_mem_pair hi (by rw [hpair]; simp)
  have hb : b < n := lt_of_mem_pair hi (by rw [hpair]; simp)
  simp only [Request.waveStrokes, hwave, hpair, List.foldl_cons, List.foldl_nil]
  rw [change_set (by omega), change_set (by omega)]
  rfl

theorem foldl_waveSteps {n : Nat} (hwords : n ≤ 2 ^ 63) (ms : Int64) (on : Bool) {steps : List Nat}
    (hsteps : ∀ i ∈ steps, i < n / 2) (channels : Channels) :
    (steps.flatMap (Request.waveStrokes n ms on)).foldl (fun channels stroke => stroke.change channels) channels =
      (steps.flatMap (pair n)).foldl (fun channels j => channels.set j on) channels := by
  induction steps generalizing channels with
  | nil => rfl
  | cons i rest ih =>
    rw [List.flatMap_cons, List.flatMap_cons, List.foldl_append, List.foldl_append,
      foldl_waveStrokes hwords (hsteps i List.mem_cons_self), ih fun k hk => hsteps k (List.mem_cons_of_mem _ hk)]

/-! ### Waves -/

theorem mem_waveSteps {n i : Nat} {reverse : Bool} : i ∈ waveSteps n reverse ↔ i < n / 2 := by
  unfold waveSteps
  split <;> simp

theorem length_waveSteps (n : Nat) (reverse : Bool) : (waveSteps n reverse).length = n / 2 := by
  unfold waveSteps
  split <;> simp

theorem countP_waveSteps (n : Nat) (ms : Int64) (on : Bool) (steps : List Nat) :
    (steps.flatMap (Request.waveStrokes n ms on)).countP (·.delay?.isSome) = steps.length := by
  induction steps with
  | nil => rfl
  | cons i rest ih =>
    have hone : (Request.waveStrokes n ms on i).countP (·.delay?.isSome) = 1 := rfl
    rw [List.flatMap_cons, List.countP_append, hone, ih, List.length_cons, Nat.add_comm]

/-- **Waves.**  A wave in either direction that ends without an abort has taken one pause for every two channels and has
set every channel but those that are skipped, which are as before.  If the number of channels is a multiple of four
none are skipped and the wave drives the whole strip; otherwise some are. -/
theorem channels_of_wave (on reverse : Bool) {s s' : Session} (hwords : s.channels.size ≤ 2 ^ 63)
    (h : perform (.wave on reverse) s = (.ok (), s')) :
    let n := s.channels.size
    s'.channels.size = n ∧ s'.pauses = s.pauses + n / 2 ∧
    (∀ j < n, s'.channels.get j = if j ∈ skipped n then s.channels.get j else on) ∧
    (4 ∣ n → ∀ j < n, s'.channels.get j = on) ∧
    (¬ 4 ∣ n → ∃ j < n, j ∈ skipped n) := by
  intro n
  rw [perform_eq] at h
  simp only [Request.served, if_true, bind_pure_unit, Request.strokes] at h
  obtain ⟨hchannels, hpauses⟩ := ran h
  rw [foldl_waveSteps hwords _ _ fun i hi => mem_waveSteps.1 hi] at hchannels
  rw [countP_waveSteps, length_waveSteps] at hpauses
  have hget : ∀ j < n, s'.channels.get j = if j ∈ skipped n then s.channels.get j else on := by
    intro j hj
    have hmem : j ∈ (waveSteps n reverse).flatMap (pair n) ↔ j ∉ skipped n := by
      rw [← exists_pair_iff hj, List.mem_flatMap]
      simp only [mem_waveSteps]
    rw [hchannels, get_foldl_set]
    by_cases hskipped : j ∈ skipped n
    · rw [if_pos hskipped, if_neg fun hin => hmem.1 hin.1 hskipped]
    · rw [if_neg hskipped, if_pos ⟨hmem.2 hskipped, hj⟩]
  refine ⟨?_, hpauses, hget, ?_, ?_⟩
  · rw [hchannels, size_foldl_set]
  · intro hfour j hj
    have hnone : j ∉ skipped n := by
      rw [mem_skipped]
      omega
    rw [hget j hj, if_neg hnone]
  · intro hfour
    simp only [mem_skipped]
    by_cases hthree : n = 3
    · exact ⟨0, by omega, by omega⟩
    · by_cases hodd : n % 2 = 1
      · exact ⟨n / 2, by omega, by omega⟩
      · exact ⟨n / 4, by omega, by omega⟩

/-- Of six channels all but the middle of the first half are set. -/
theorem channels_of_wave_six :
    let s := Session.start 6 (.ofMillis 20) .standard true false
    s.channels.size ≤ 2 ^ 63 ∧ ∃ s', perform (.wave true false) s = (.ok (), s') ∧
      s'.pauses = 3 ∧ ∀ j < 6, s'.channels.get j = decide (j ≠ 1) := by
  have hok : (perform (.wave true false) (Session.start 6 (.ofMillis 20) .standard true false)).1 = .ok () := by
    decide +kernel
  intro s
  have hwords : s.channels.size ≤ 2 ^ 63 := by decide
  have hrun : perform (.wave true false) s = (.ok (), (perform (.wave true false) s).2) := Prod.ext hok rfl
  obtain ⟨-, hpauses, hget, -⟩ := channels_of_wave true false hwords hrun
  refine ⟨hwords, _, hrun, hpauses.trans (by decide), fun j hj => (hget j hj).trans ?_⟩
  interval_cases j <;> decide

/-- Of two channels a wave never sets the first. -/
theorem first_channel_skipped :
    let s := Session.start 2 (.ofMillis 20) .standard true false
    ∃ s', perform (.wave true false) s = (.ok (), s') ∧ s'.pauses = 1 ∧ s'.channels = #[false, true] := by
  exact ⟨_, rfl, rfl, rfl⟩

end Session

end RunningLights.Script
