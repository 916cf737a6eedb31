import RunningLights.Pattern.Sequence

/-!
# What a sequence remembers

A sequence is added to, emptied, and given another number of channels, in any order.  It has one evaluator for all its
frames, so that what was added before could show in a later frame; it does not:

* `SequenceStep` — what is done to a sequence, and `PatternSequence.run` with the answers to what is added;
* `recent`, `totalAfter` — what was added since a sequence was last emptied, and the number of channels;
* `Tells` — a sequence tells just that, and every step keeps it so (`Tells.perform`);
* `PatternSequence.frames_of_steps` — the frames of a sequence, and what others see of it.
-/

namespace RunningLights

structure Addition where
  pattern : Pattern
  overrides : Parameters
  duration : Duration

inductive SequenceStep where
  | add (a : Addition)
  | clear
  | setTotal (total : Nat)

/-- The frame that an addition makes by itself, as the `number`-th of a sequence. -/
def Addition.frame (a : Addition) (total number : Nat) : SequenceFrame :=
  PatternSequence.frameOf total number a.pattern a.overrides a.duration

namespace SequenceStep

/-- What was added to a sequence since it was last emptied, behind a step. -/
def added (before : List Addition) : SequenceStep → List Addition
  | .add a => before ++ [a]
  | .clear => []
  | .setTotal _ => []

def total (before : Nat) : SequenceStep → Nat
  | .setTotal n => n
  | .add _ => before
  | .clear => before

end SequenceStep

/-- What was added since the last step that empties a sequence. -/
def recent (steps : List SequenceStep) : List Addition := steps.foldl SequenceStep.added []

def totalAfter (total : Nat) (steps : List SequenceStep) : Nat := steps.foldl SequenceStep.total total

namespace PatternSequence

def perform (s : PatternSequence) (answers : List (Option SequenceFrame)) :
    SequenceStep → PatternSequence × List (Option SequenceFrame)
  | .add a => ((s.add a.pattern a.overrides a.duration).1, answers ++ [(s.add a.pattern a.overrides a.duration).2])
  | .clear => (s.clear, [])
  | .setTotal total => (s.setTotal total, [])

def run (s : PatternSequence) (answers : List (Option SequenceFrame)) (steps : List SequenceStep) :
    PatternSequence × List (Option SequenceFrame) :=
  steps.foldl (fun state step => state.1.perform state.2 step) (s, answers)

variable {s : PatternSequence} (a : Addition)

theorem add_of_lt (h : s.frames.size < maxFrames) :
    s.add a.pattern a.overrides a.duration =
      (⟨s.evaluator.setParameters (a.pattern.resolve a.overrides), s.frames.push (a.frame s.total (s.frames.size + 1)),
        s.truncated⟩, some (a.frame s.total (s.frames.size + 1))) := by
  unfold add
  rw [if_neg (Nat.not_le.2 h)]
  -- The parameters of the frame before are gone from the evaluator.
  simp only [Evaluator.evaluate_setParameters]
  rfl

theorem add_of_le (h : maxFrames ≤ s.frames.size) :
    s.add a.pattern a.overrides a.duration = ({ s with truncated := true }, none) := by
  unfold add
  rw [if_pos h]

end PatternSequence

/-- The sequence and the answers that it gave are what the additions make of it, each by itself. -/
structure Tells (n : Nat) (added : List Addition) (s : PatternSequence) (answers : List (Option SequenceFrame)) :
    Prop where
  total : s.total = n
  /-- An addition is answered with its frame as long as there is room. -/
  answered : answers = added.mapIdx fun k a => if k < maxFrames then some (a.frame n (k + 1)) else none
  /-- The frames are the additions that were accepted. -/
  accepted : s.frames.toList = answers.filterMap id
  size : s.frames.size = min added.length maxFrames
  /-- Each frame shows its own addition and nothing of the others. -/
  own : ∀ k f, s.frames[k]? = some f → ∃ a : Addition, added[k]? = some a ∧ f = a.frame n (k + 1)
  refused : s.truncated ↔ none ∈ answers

namespace Tells

variable {n : Nat} {added : List Addition} {s : PatternSequence} {answers : List (Option SequenceFrame)}

theorem nil (htotal : s.total = n) (hframes : s.frames = #[]) (htruncated : s.truncated = false) :
    Tells n [] s [] where
  total := htotal
  answered := rfl
  accepted := by rw [hframes]; rfl
  size := by rw [hframes]; rfl
  own k f hf := by simp [hframes] at hf
  refused := by simp [htruncated]

/-- A frame keeps its place among the additions. -/
theorem own_append (h : Tells n added s answers) (b : Addition) {k : Nat} {f : SequenceFrame}
    (hf : s.frames[k]? = some f) : ∃ a : Addition, (added ++ [b])[k]? = some a ∧ f = a.frame n (k + 1) := by
  obtain ⟨a, ha, hfa⟩ := h.own k f hf
  have hk : k < added.length := (List.getElem?_eq_some_iff.1 ha).1
  exact ⟨a, (List.getElem?_append_left hk).trans ha, hfa⟩

theorem add (h : Tells n added s answers) (a : Addition) :
    Tells n (added ++ [a]) (s.add a.pattern a.overrides a.duration).1
      (answers ++ [(s.add a.pattern a.overrides a.duration).2]) := by
  have hsize := h.size
  by_cases hroom : s.frames.size < maxFrames
  · have hlength : s.frames.size = added.length := by omega
    rw [PatternSequence.add_of_lt a hroom, h.total, hlength]
    refine ⟨h.total, ?_, ?_, ?_, ?_, ?_⟩
    · rw [List.mapIdx_concat, ← h.answered, if_pos (by omega)]
    · simp [h.accepted]
    · simp only [Array.size_push, List.length_append, List.length_singleton]
      omega
    · intro k f hf
      rw [Array.getElem?_push, hlength] at hf
      split at hf
      · rename_i hk
        subst hk
        exact ⟨a, by simp, (Option.some.inj hf).symm⟩
      · exact h.own_append a hf
    · simpa using h.refused
  · rw [PatternSequence.add_of_le a (Nat.not_lt.1 hroom)]
    refine ⟨h.total, ?_, ?_, ?_, ?_, ?_⟩
    · rw [List.mapIdx_concat, ← h.answered, if_neg (by omega)]
    · simp [h.accepted]
    · simp only [List.length_append, List.length_singleton]
      omega
    · exact fun k f hf => h.own_append a hf
    · simp

theorem perform (h : Tells n added s answers) (step : SequenceStep) :
    Tells (step.total n) (step.added added) (s.perform answers step).1 (s.perform answers step).2 := by
  cases step with
  | add a => exact h.add a
  | clear => exact .nil h.total rfl rfl
  | setTotal n => exact .nil rfl rfl rfl

theorem run (h : Tells n added s answers) (steps : List SequenceStep) :
    Tells (steps.foldl SequenceStep.total n) (steps.foldl SequenceStep.added added) (s.run answers steps).1
      (s.run answers steps).2 := by
  induction steps generalizing n added s answers with
  | nil => exact h
  | cons step steps ih => exact ih (h.perform step)

/-! ### The frames as others see them -/

theorem toFrames_of_empty (h : Tells n added s answers) (hs : s.frames = #[]) :
    s.toFrames = [⟨"expr-frame-0", .blank n, PatternSequence.defaultDuration, some "Empty Pattern"⟩] := by
  unfold PatternSequence.toFrames
  rw [hs, h.total]
  rfl

theorem getElem?_toFrames (hs : s.frames ≠ #[]) (k : Nat) :
    s.toFrames[k]? = s.frames[k]?.map SequenceFrame.toFrame := by
  unfold PatternSequence.toFrames
  rw [if_neg (by simpa using hs)]
  simp

theorem size_toFrames (h : Tells n added s answers) : ∀ f ∈ s.toFrames, f.channels.size = n := by
  intro f hf
  by_cases hs : s.frames = #[]
  · rw [h.toFrames_of_empty hs, List.mem_singleton] at hf
    rw [hf]
    exact Channels.size_blank n
  · obtain ⟨k, hk⟩ := List.getElem?_of_mem hf
    rw [getElem?_toFrames hs] at hk
    obtain ⟨g, hg, rfl⟩ := Option.map_eq_some_iff.1 hk
    obtain ⟨a, -, rfl⟩ := h.own k g hg
    exact size_maskOf _ n _

end Tells

namespace PatternSequence

theorem tells_run (n : Nat) (steps : List SequenceStep) :
    Tells (totalAfter n steps) (recent steps) ((empty n).run [] steps).1 ((empty n).run [] steps).2 :=
  have h : Tells n [] (empty n) [] := .nil rfl rfl rfl
  h.run steps

/-- **Frames of a sequence.**  Whatever was done to a sequence, its frames are those that were answered since it was
last emptied, as many as there may be; each shows its own pattern with its own parameters on the channels that there
are now, whatever was added before it, and the mark tells whether an addition was refused since.  Others always see a
frame, with the number as its id, and all of them as wide as there are channels. -/
theorem frames_of_steps (n : Nat) (steps : List SequenceStep) :
    let s := ((empty n).run [] steps).1
    let answers := ((empty n).run [] steps).2
    let total := totalAfter n steps
    s.frames.toList = answers.filterMap id ∧ s.frames.size ≤ maxFrames ∧
    (answers = (recent steps).mapIdx fun k a => if k < maxFrames then some (a.frame total (k + 1)) else none) ∧
    (∀ k f, s.frames[k]? = some f → f.number = k + 1 ∧ ∃ a : Addition, (recent steps)[k]? = some a ∧
      f.pattern = a.pattern ∧ f.parameters = a.pattern.resolve a.overrides ∧
      f.channels = maskOf a.pattern.text total f.parameters) ∧
    (s.truncated ↔ none ∈ answers) ∧
    s.toFrames ≠ [] ∧ (∀ f ∈ s.toFrames, f.channels.size = total) ∧
    s.toFrames.map Frame.id =
      (if s.frames.isEmpty then [0] else s.frames.toList.map SequenceFrame.number).map fun k => s!"expr-frame-{k}" := by
  intro s answers total
  have h : Tells total (recent steps) s answers := tells_run n steps
  have hsize : s.frames.size ≤ maxFrames := h.size ▸ Nat.min_le_right _ _
  refine ⟨h.accepted, hsize, h.answered, fun k f hf => ?_, h.refused, ?_, h.size_toFrames, ?_⟩
  · obtain ⟨a, ha, rfl⟩ := h.own k f hf
    exact ⟨rfl, a, ha, rfl, rfl, rfl⟩
  · by_cases hs : s.frames = #[]
    · simp [h.toFrames_of_empty hs]
    · simp [toFrames, hs]
  · by_cases hs : s.frames = #[]
    · rw [h.toFrames_of_empty hs, hs]
      rfl
    · simp [toFrames, hs, SequenceFrame.toFrame, Function.comp_def]

end PatternSequence

end RunningLights
