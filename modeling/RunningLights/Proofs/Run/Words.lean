import RunningLights.Proofs.Program.Weight
import RunningLights.Proofs.Run.Failing
import RunningLights.Proofs.Run.Typing

/-!
# Machine words

What a run counts and stores are 64-bit words.  Where its results are neither checked nor cut off at the ends of the
range they fit nevertheless, but for three of them, and a run that computes one of these which does not fit fails:

* `LoopHeader.fits_passes` — the passes of a counted loop fit, whatever the values of the program are;
* `Machine.Bounded`, `Machine.Accounted` — the bounds of the counters of a machine, and what a failure says, which
  every elementary change keeps;
* `Machine.WithinWords` — the results that fit in a state of a run;
* `Simulation.withinWords` — they fit in every state of every run, and what exactly makes a run fail;
* `Simulation.not_all_run` — the run of a program that appends a segment can fail.
-/

namespace RunningLights

open Number

/-- The passes of a counted loop can be counted in a word, even if it goes from one end of the range to the other. -/
theorem LoopHeader.fits_passes (h : LoopHeader) (start bound : Int64) {step : Int64} (hs : 0 < step.toInt) :
    Fits (h.passes start bound step) := by
  have hspan := fits_toInt (h.span start bound)
  simp only [Fits, minInt, maxInt] at hspan ⊢
  unfold passes
  generalize (h.span start bound).toInt = span at *
  generalize step.toInt = step at *
  simp only
  split
  · omega
  · have hpos : 0 ≤ span := by omega
    have hquotient : 0 ≤ span.tdiv step := Int.tdiv_nonneg hpos (Int.le_of_lt hs)
    have hremainder : 0 ≤ span.tmod step := Int.tmod_nonneg step hpos
    have hspan : step * span.tdiv step + span.tmod step = span := Int.mul_tdiv_add_tmod span step
    have hle : 1 * span.tdiv step ≤ step * span.tdiv step := Int.mul_le_mul_of_nonneg_right hs hquotient
    -- a pass for a remainder is no more than the remainder
    split <;> omega

namespace Procedure

/-! ### The counters of a machine -/

/-- The counters of a machine under a ceiling and a cap, and its generator. -/
structure Machine.Bounded (ceiling cap total : Nat) (m : Machine) : Prop where
  top : max maxWork m.limit = ceiling
  work : m.work ≤ ceiling + 1
  live : m.halted = false → m.work ≤ ceiling
  cap : m.recorder.cap = cap
  seed : m.generator.Sound
  total : m.total = total

theorem Edit.sound_generator {f : Machine → Machine} (hf : Edit f) {m : Machine} (hm : m.generator.Sound) :
    (f m).generator.Sound := by
  have hcurrent (g : Activation → Activation) : (m.modifyCurrent g).generator.Sound := by
    obtain ⟨calls, root, hg⟩ := m.modifyCurrent_eq g
    rw [hg]
    exact hm
  cases hf with
  | assign name v =>
    simp only [Machine.assign]
    split
    · exact hm
    · exact hcurrent _
  | declare | loopVar => exact hcurrent _
  | draw hf => exact hf _ hm
  | _ => exact hm

namespace Machine.Bounded

variable {ceiling cap total : Nat} {m n : Machine}

/-- Only the account, the cap, the generator and the number of channels matter. -/
theorem congr (h : m.Bounded ceiling cap total) (hl : max maxWork n.limit = max maxWork m.limit)
    (hw : n.work = m.work) (hh : m.halted = true → n.halted = true) (hc : n.recorder.cap = m.recorder.cap)
    (hg : n.generator = m.generator) (ht : n.total = m.total) : n.Bounded ceiling cap total where
  top := hl.trans h.top
  work := hw ▸ h.work
  live hn := by
    rw [hw]
    refine h.live ?_
    cases hm : m.halted with
    | false => rfl
    | true => exact absurd ((hh hm).symm.trans hn) nofun
  cap := hc.trans h.cap
  seed := hg ▸ h.seed
  total := ht.trans h.total

theorem modifyCurrent (h : m.Bounded ceiling cap total) (g : Activation → Activation) :
    (m.modifyCurrent g).Bounded ceiling cap total := by
  obtain ⟨calls, root, hg⟩ := m.modifyCurrent_eq g
  rw [hg]
  exact h.congr rfl rfl id rfl rfl rfl

theorem edit (h : m.Bounded ceiling cap total) {f : Machine → Machine} (hf : Edit f) :
    (f m).Bounded ceiling cap total := by
  have hseed := hf.sound_generator h.seed
  obtain ⟨channels, calls, root, arrays, generator, failed, -, hm⟩ := hf.spec m
  rw [hm] at hseed ⊢
  exact ⟨h.top, h.work, h.live, h.cap, hseed, h.total⟩

theorem capture (h : m.Bounded ceiling cap total) (d : Duration) (label : Option String) :
    (m.capture d label).Bounded ceiling cap total := by
  have hcap : (m.recorder.capture m.channels d label).cap = m.recorder.cap := by
    unfold Recorder.capture
    split <;> rfl
  have hhalted : m.halted = true → (m.capture d label).halted = true := fun hm => halted_capture hm d label
  obtain ⟨halt, hc⟩ := m.capture_eq d label
  rw [hc] at hhalted ⊢
  exact h.congr rfl rfl hhalted hcap rfl rfl

theorem tick (h : m.Bounded ceiling cap total) : m.tick.2.Bounded ceiling cap total := by
  have htop := h.top
  rcases m.tick_cases with ⟨-, e⟩ | ⟨hm, hlt, e⟩ | ⟨hm, hle, e⟩ <;> rw [e]
  · exact h
  · exact ⟨h.top, Nat.succ_le_succ (h.live hm), nofun, h.cap, h.seed, h.total⟩
  · have hwork : m.work + 1 ≤ ceiling := by omega
    exact ⟨h.top, Nat.le_succ_of_le hwork, fun _ => hwork, h.cap, h.seed, h.total⟩

theorem grant (h : m.Bounded ceiling cap total) (credit : Nat) : (m.grant credit).Bounded ceiling cap total := by
  refine h.congr ?_ rfl id rfl rfl rfl
  simp only [Machine.grant]
  omega

theorem start (total : Nat) (baseDelay : Duration) (cap limit seed : Nat) :
    (Machine.start total baseDelay cap limit seed).Bounded (max maxWork limit) cap total where
  top := rfl
  work := Nat.zero_le _
  live _ := Nat.zero_le _
  cap := rfl
  seed := Generator.sound_ofSeed seed
  total := rfl

end Machine.Bounded

/-- **Every elementary change keeps the counters within their bounds.** -/
theorem Change.bounded {ceiling cap total : Nat} {m n : Machine} (h : Change m n) (hm : m.Bounded ceiling cap total) :
    n.Bounded ceiling cap total := by
  cases h with
  | edit hf => exact hm.edit hf
  | capture d label => exact hm.capture d label
  | tick => exact hm.tick
  | grant credit => exact hm.grant credit
  | pushLoop l => exact hm.modifyCurrent _
  | popLoop => exact hm.modifyCurrent _
  | _ => exact hm.congr rfl rfl id rfl rfl rfl

/-! ### What fits -/

/-- What a failure says, and that there is none as long as the work can be counted. -/
structure Machine.Accounted (ceiling : Nat) (m : Machine) : Prop where
  unfit : ∀ op, m.failed = some op → ¬ op.Fits
  /-- The limit was the greatest of all words. -/
  count : ∀ work, m.failed = some (.count work) → ceiling + 1 = wordBound
  work : m.failed = none → m.work < wordBound

namespace Machine.Accounted

variable {ceiling cap total : Nat} {m n : Machine}

theorem congr (h : m.Accounted ceiling) (hf : n.failed = m.failed) (hw : n.work = m.work) : n.Accounted ceiling where
  unfit op hn := h.unfit op (hf ▸ hn)
  count work hn := h.count work (hf ▸ hn)
  work hn := hw ▸ h.work (hf ▸ hn)

/-- The first operation that fails is kept. -/
theorem of_or (h : m.Accounted ceiling) {op : WordOperation} (hf : n.failed = m.failed.or op.failure?)
    (hcount : ∀ work, op = .count work → ¬ op.Fits → ceiling + 1 = wordBound)
    (hwork : op.Fits → m.work < wordBound → n.work < wordBound) : n.Accounted ceiling := by
  refine ⟨fun op' hn => ?_, fun work hn => ?_, fun hn => ?_⟩
  · rcases Option.or_eq_some_iff.1 (hf ▸ hn) with hm | ⟨-, hop⟩
    · exact h.unfit op' hm
    · obtain ⟨hunfit, rfl⟩ := WordOperation.failure?_eq_some.1 hop
      exact hunfit
  · rcases Option.or_eq_some_iff.1 (hf ▸ hn) with hm | ⟨-, hop⟩
    · exact h.count work hm
    · obtain ⟨hunfit, heq⟩ := WordOperation.failure?_eq_some.1 hop
      exact hcount work heq hunfit
  · obtain ⟨hm, hop⟩ := Option.or_eq_none_iff.1 (hf ▸ hn)
    exact hwork (WordOperation.failure?_eq_none.1 hop) (h.work hm)

theorem modifyCurrent (h : m.Accounted ceiling) (g : Activation → Activation) :
    (m.modifyCurrent g).Accounted ceiling := by
  obtain ⟨calls, root, hg⟩ := m.modifyCurrent_eq g
  rw [hg]
  exact h.congr rfl rfl

theorem edit (h : m.Accounted ceiling) {f : Machine → Machine} (hf : Edit f) : (f m).Accounted ceiling := by
  have hwork : (f m).work = m.work := by
    obtain ⟨channels, calls, root, arrays, generator, failed, -, hm⟩ := hf.spec m
    rw [hm]
  rcases hf.failed m with hfailed | ⟨op, hop, hfailed⟩
  · exact h.congr hfailed hwork
  · exact h.of_or hfailed (fun work heq => absurd heq (hop work)) fun _ hlt => hwork ▸ hlt

/-- Work within the limit can be counted, and so can the first beyond it unless the limit is the greatest word. -/
theorem tick (h : m.Accounted ceiling) (hm : m.Bounded ceiling cap total) (hceiling : ceiling < wordBound) :
    m.tick.2.Accounted ceiling := by
  have htop := hm.top
  rcases m.tick_cases with ⟨-, e⟩ | ⟨hlive, -, e⟩ | ⟨-, hle, e⟩ <;> rw [e]
  · exact h
  · have hwork := hm.live hlive
    refine h.of_or rfl (fun work _ hunfit => ?_) fun hfits _ => hfits
    have hlt : ¬ m.work + 1 < wordBound := hunfit
    omega
  · exact ⟨h.unfit, h.count, fun _ => (by omega : m.work + 1 < wordBound)⟩

theorem start (total : Nat) (baseDelay : Duration) (cap limit seed : Nat) :
    (Machine.start total baseDelay cap limit seed).Accounted (max maxWork limit) :=
  ⟨nofun, nofun, fun _ => (by decide : 0 < wordBound)⟩

end Machine.Accounted

theorem Change.accounted {ceiling cap total : Nat} {m n : Machine} (h : Change m n) (hceiling : ceiling < wordBound)
    (hm : m.Bounded ceiling cap total) (ha : m.Accounted ceiling) : n.Accounted ceiling := by
  cases h with
  | edit hf => exact ha.edit hf
  | capture d label =>
    obtain ⟨halt, hc⟩ := m.capture_eq d label
    rw [hc]
    exact ha.congr rfl rfl
  | tick => exact ha.tick hm hceiling
  | pushLoop l => exact ha.modifyCurrent _
  | popLoop => exact ha.modifyCurrent _
  | _ => exact ha.congr rfl rfl

/-- The results of a machine that are neither checked nor cut off: its counters, the next seed before it is reduced, the
number of its channels, the places of elements, and the places behind the last used element of an array.  An operation
that made the run fail is one whose result does not fit. -/
structure Machine.WithinWords (m : Machine) : Prop where
  work : m.failed = none → m.work < wordBound
  limit : ∀ credit, (m.grant credit).limit < wordBound
  frame : m.recorder.isFull = false → m.recorder.frames.size + 1 < wordBound
  seed : Fits (m.generator.seed * 9301 + 49297 : Nat)
  channel : Fits m.total
  place : ∀ name a, m.arrays.get? name = some a → ∀ r c, a.InRange r c →
    r.toInt.toNat * a.cols + c.toInt.toNat < wordBound
  behind : ∀ name ns, m.ints name = .ok ns → ∀ last : Int64, last.toInt.toNat + ns.length < wordBound
  unfit : ∀ op, m.failed = some op → ¬ op.Fits

/-- The numbers that an array stands for are no more than an array has elements or the strip has channels. -/
theorem Machine.Sound.length_ints {m : Machine} (h : m.Sound) {name : String} {ns : List Int64}
    (hn : m.ints name = .ok ns) : ns.length ≤ max maxArrayLength m.total := by
  unfold Machine.ints at hn
  split at hn
  · rename_i a ha
    cases hn
    have hmost := (h.arrays _ _ ha).atMost
    simp only [TypedArray.ints, List.length_map, Array.length_toList]
    omega
  · split at hn
    · cases hn
      simp only [List.length_map, List.length_range]
      omega
    · cases hn

theorem Machine.Bounded.inWords {ceiling cap total : Nat} {m : Machine} (h : m.Bounded ceiling cap total)
    (ha : m.Accounted ceiling) (hm : m.Sound) (hceiling : ceiling < wordBound) (hcap : cap < wordBound)
    (htotal : Fits total) : m.WithinWords := by
  refine ⟨ha.work, fun credit => ?_, fun hfull => ?_, ?_, ?_, fun name a ha r c hr => ?_, fun name ns hn last => ?_,
    ha.unfit⟩
  · have htop := (h.grant credit).top
    omega
  · simp only [Recorder.isFull, decide_eq_false_iff_not, h.cap] at hfull
    omega
  · have hseed : m.generator.seed < 233280 := h.seed
    simp only [Fits, minInt, maxInt]
    omega
  · exact h.total ▸ htotal
  · have hlt := TypedArray.place_lt hr
    have hsound := hm.arrays name a ha
    have hmost := Nat.le_trans hsound.shape hsound.atMost
    simp only [maxArrayLength, wordBound] at hmost ⊢
    omega
  · have hlength := hm.length_ints hn
    have hlast := last.toInt_lt
    rw [h.total] at hlength
    simp only [Fits, minInt, maxInt, maxArrayLength, wordBound] at *
    omega

/-- Whatever segment is appended to an array that is there, the index of its last used element is moved to the exact
sum, and otherwise the run fails. -/
def Machine.AppendsInWords (m : Machine) : Prop :=
  ∀ (found : List Int64) (array last : String) (v : Value) (n : Int64), found ≠ [] → m.lookup last = .ok v →
    v.asInt = .ok n → (m.array? array).isSome = true →
    let stored := m.modifyArray array fun a => putAll a n.toInt.toNat found
    (∀ moved : Int64, moved.toInt = n.toInt.toNat + found.length →
      (appendSegment found array last).run m =
        (.ok (.int (Int64.ofNat found.length)), stored.assign last (.int moved))) ∧
    (¬ Fits (n.toInt.toNat + found.length) →
      (appendSegment found array last).run m =
        (.error .overflow, stored.require (.behind n.toInt.toNat found.length)))

theorem Machine.appendsInWords (m : Machine) : m.AppendsInWords := by
  intro found array last v n hfound hlast hn harray
  exact ⟨fun moved => appendSegment_fits hfound hlast hn harray, appendSegment_unfit hfound hlast hn harray⟩

/-- When an array is declared with values whose computation does not fail, the run fails exactly if a row that has a
value begins at no word, and never if the array has a row and there is memory for what is listed.  Values behind the
columns of a row have places that are words. -/
structure FillsInWords (env : Environment Eval) (a : TypedArray) (rows : List (List Operand)) : Prop where
  failed : (∀ o ∈ rows.flatten, Unfailing env o) → ∀ m,
    ((fillArray env a rows m).2.failed = none ↔
      m.failed = none ∧ ∀ r row, (shownRows a rows)[r]? = some row → row ≠ [] → r * rowStride a rows < wordBound)
  begins : 0 < a.rows → rows.length ≤ 2 ^ 32 → widest rows ≤ 2 ^ 32 → ∀ r < rows.length,
    r * rowStride a rows < wordBound
  skipped : widest rows ≤ 2 ^ 32 → ∀ r c, r * a.cols ≤ a.data.size → c < widest rows → r * a.cols + c < wordBound

theorem fillsInWords (env : Environment Eval) {a : TypedArray} (ha : a.Sound) (rows : List (List Operand)) :
    FillsInWords env a rows := by
  refine ⟨fillArray_failed_iff ha, fun hrows hlength hwidth r hr => place_lt_wordBound ha hrows hlength hwidth hr,
    fun hwidth r c hr hc => ?_⟩
  have hmost := ha.atMost
  simp only [maxArrayLength, wordBound] at *
  omega

end Procedure

namespace Simulation

open Procedure

/-- The parameters of a run are words, and the commands fit into memory. -/
structure WordSized (total : Nat) (limits : RunLimits) (commands : List Command) : Prop where
  total : Fits total
  frameCap : limits.frameCap < wordBound
  atMost : commands.length < 2 ^ 62

/-- The work of one pass of a loop fits, whatever loops a program has. -/
theorem bodyCost_lt_wordBound {commands : List Command} (h : commands.length < 2 ^ 62) {block : List Stmt}
    (hb : block ∈ (Program.ofCommands commands).blocks) : 1 + bodyCost block < wordBound := by
  have hcost := Nat.le_trans (Program.bodyCost_le_weight hb) (Program.weight_ofCommands commands)
  have hweight : (commands.map Command.weight).sum ≤ (commands.map Command.weight).length * 2 := by
    refine List.sum_le_card_nsmul _ _ fun w hw => ?_
    obtain ⟨c, -, rfl⟩ := List.mem_map.1 hw
    cases c <;> simp only [Command.weight] <;> omega
  rw [List.length_map] at hweight
  simp only [wordBound]
  omega

/-- The ceiling of the work is a word, as the limit is. -/
theorem ceiling_lt_wordBound (limits : RunLimits) (commands : Nat) :
    max maxWork (workLimit limits commands) < wordBound := by
  have hmax : maxWork < wordBound := by decide
  simp only [workLimit, wordBound] at hmax ⊢
  omega

/-- A run has no report exactly if it failed. -/
theorem run_eq_none_iff {total : Nat} {baseDelay : Duration} {limits : RunLimits} {commands : List Command} :
    run total baseDelay limits commands = none ↔
      ∃ op, (finalMachine total baseDelay limits commands).failed = some op := by
  unfold run
  cases (finalMachine total baseDelay limits commands).failed <;> simp

/-- **Words.**  In every state of a run, what is neither checked nor cut off fits into a word, and an operation that
made the run fail is one whose result does not fit: the index of the last used element of an array when a segment is
appended, the beginning of a row of values in the declaration of an array without rows, or the count of the work when
the limit is the greatest of all words.  A run has no report exactly if one of these failed.  The work of a pass for
every block of the program and the passes of every counted loop fit. -/
theorem withinWords {total : Nat} {baseDelay : Duration} {limits : RunLimits} {commands : List Command}
    (h : WordSized total limits commands) :
    (∀ m, Reaches (startMachine total baseDelay limits commands) m →
      m.WithinWords ∧ m.AppendsInWords ∧
        ∀ work, m.failed = some (.count work) → workLimit limits commands.length + 1 = wordBound) ∧
    (∀ (env : Environment Eval) (a : TypedArray), a.Sound → ∀ rows, FillsInWords env a rows) ∧
    (∀ block ∈ (Program.ofCommands commands).blocks, 1 + bodyCost block < wordBound) ∧
    (∀ (l : LoopHeader) (start bound step : Int64), 0 < step.toInt → Fits (l.passes start bound step)) ∧
    (run total baseDelay limits commands = none ↔
      ∃ op, (finalMachine total baseDelay limits commands).failed = some op ∧ ¬ op.Fits) := by
  have hceiling := ceiling_lt_wordBound limits commands.length
  have hreached {m : Machine} (hm : Reaches (startMachine total baseDelay limits commands) m) :
      m.WithinWords ∧ ∀ work, m.failed = some (.count work) → workLimit limits commands.length + 1 = wordBound := by
    have hstart := Machine.Bounded.start total baseDelay limits.frameCap (workLimit limits commands.length) limits.seed
    obtain ⟨hbounded, haccounted⟩ := hm.keeps
      (Q := fun m => m.Bounded _ limits.frameCap total ∧ m.Accounted _)
      (fun hc hm => ⟨hc.bounded hm.1, hc.accounted hceiling hm.1 hm.2⟩) ⟨hstart, Machine.Accounted.start ..⟩
    have hsound := hm.keeps Change.sound (Machine.Sound.start total baseDelay limits.frameCap _ limits.seed)
    refine ⟨hbounded.inWords haccounted hsound hceiling h.frameCap h.total, fun work hwork => ?_⟩
    have htop := haccounted.count work hwork
    have hmax : maxWork + 1 < wordBound := by decide
    omega
  refine ⟨fun m hm => ⟨(hreached hm).1, m.appendsInWords, (hreached hm).2⟩,
    fun env a ha rows => fillsInWords env ha rows, fun block hb => bodyCost_lt_wordBound h.atMost hb,
    fun l start bound step hs => l.fits_passes start bound hs, ?_⟩
  rw [run_eq_none_iff]
  refine exists_congr fun op => ⟨fun hop => ⟨hop, ?_⟩, And.left⟩
  exact (hreached (reaches_finalMachine total baseDelay limits commands)).1.unfit op hop

/-- The arguments of a call that appends the first segment of eight channels to an array. -/
def firstSegment : List Operand :=
  [⟨"m", some (.ident "m")⟩, .ofWord 9, ⟨"pin_ptr_", some (.ident "pin_ptr_")⟩, .ofWord 8, ⟨"a", some (.ident "a")⟩,
    ⟨"last", some (.ident "last")⟩, .ofWord 0]

/-- A program that appends a segment to an array whose last used element is said to have the greatest index. -/
def overrun : List Command :=
  [.act (.declare ⟨"a", .integer, false, [.ofWord 8], .none⟩),
    .act (.declare ⟨"last", .integer, false, [], .scalar (.ofWord 9223372036854775807)⟩),
    .act (.callBuiltin .shiftByOrder firstSegment)]

theorem withinWords_overrun :
    WordSized 8 ⟨10, 600, 0⟩ overrun ∧ (finalMachine 8 (.ofMillis 30) ⟨10, 600, 0⟩ overrun).WithinWords := by
  have h : WordSized 8 ⟨10, 600, 0⟩ overrun := ⟨by decide, by decide, by decide⟩
  exact ⟨h, ((withinWords h).1 _ (reaches_finalMachine 8 (.ofMillis 30) ⟨10, 600, 0⟩ overrun)).1⟩

/-- Not every run has a report. -/
theorem not_all_run :
    ¬ ∀ (total : Nat) (baseDelay : Duration) (limits : RunLimits) (commands : List Command),
      WordSized total limits commands → run total baseDelay limits commands ≠ none := by
  intro h
  refine h 8 (.ofMillis 30) ⟨10, 600, 0⟩ overrun ⟨by decide, by decide, by decide⟩ (run_eq_none_iff.2 ?_)
  exact ⟨.behind 9223372036854775807 3, by decide +kernel⟩

/-- The declaration of an array without rows, whose fourth row of values would begin at no word. -/
def rowless : List Command :=
  [.act (.declare ⟨"a", .integer, false, [.ofWord 0, .ofWord 9223372036854775807],
    .rows [[.ofWord 1], [.ofWord 1], [.ofWord 1], [.ofWord 1]]⟩)]

example : (finalMachine 8 (.ofMillis 30) ⟨10, 600, 0⟩ rowless).failed = some (.place (3 * 9223372036854775807)) := by
  decide +kernel

end Simulation

end RunningLights
