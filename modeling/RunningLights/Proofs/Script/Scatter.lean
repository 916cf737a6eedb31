import RunningLights.Proofs.Script.Ceilings
import Mathlib

/-!
# Random sequences

A random sequence over `n` channels takes `n` steps, each of which puts one more channel in the state, whatever the
channels were before, and pauses.  The candidates only say which channel is next:

* `Request.Fills` — plans that put one more channel in the state each;
* `OneByOne` — what such plans show: the `k`-th has `k` channels in the state, and keeps those of the one before;
* `Request.length_plans_eq_iff` — there are enough candidates exactly if every channel is among them;
* `Session.exists_records` — what a session records of plans, as far as it comes with them;
* `Session.frames_of_scatter` — so much of the sequence is recorded as the ceiling allows.
-/

namespace RunningLights

namespace Channels

theorem count_add_count_not (cs : Channels) (on : Bool) : cs.count on + cs.count (!on) = cs.size := by
  rw [← Array.count_toList, ← Array.count_toList, Nat.add_comm, List.count_not_add_count, Array.length_toList]

/-- A channel that is not in the state is one more in it when it is set. -/
theorem count_set {cs : Channels} {c : Nat} {on : Bool} (hc : c < cs.size) (hopen : cs.get c ≠ on) :
    (cs.set c on).count on = cs.count on + 1 := by
  have hget : (cs[c] == on) = false := by simpa [get, hc] using hopen
  rw [set, Array.setIfInBounds, dif_pos hc, Array.count_set, hget]
  simp

theorem eq_replicate_of_count {cs : Channels} {on : Bool} (h : cs.count on = cs.size) :
    cs = Array.replicate cs.size on :=
  Array.eq_replicate_iff.2 ⟨rfl, fun b hb => (Array.count_eq_size.1 h b hb).symm⟩

theorem count_replicate_not (n : Nat) (on : Bool) : (Array.replicate n (!on) : Channels).count on = 0 := by
  simp [Array.count_replicate]

/-- As long as a channel is not in the state, there is one to be found. -/
theorem exists_get_ne {cs : Channels} {on : Bool} (h : 0 < cs.count (!on)) : ∃ j < cs.size, cs.get j ≠ on := by
  obtain ⟨j, hj, hget⟩ := Array.getElem_of_mem (Array.count_pos_iff.1 h)
  exact ⟨j, hj, by simp [get, hj, hget]⟩

end Channels

namespace Script

/-- Channels that come to be in the state one after another: the first time one of them is, then one more each time,
and none leaves it. -/
structure OneByOne (on : Bool) (n : Nat) (shown : List Channels) : Prop where
  size : ∀ plan ∈ shown, plan.size = n
  count : ∀ k plan, shown[k]? = some plan → plan.count on = k + 1 ∧ plan.count (!on) = n - (k + 1)
  grows : ∀ k plan next, shown[k]? = some plan → shown[k + 1]? = some next →
    ∀ j < n, plan.get j = on → next.get j = on

namespace OneByOne

variable {on : Bool} {n : Nat} {shown : List Channels}

theorem length_le (h : OneByOne on n shown) : shown.length ≤ n := by
  cases hlast : shown.getLast? with
  | none =>
    rw [List.getLast?_eq_none_iff.1 hlast]
    exact Nat.zero_le n
  | some plan =>
    have hplan := h.size plan (List.mem_of_getLast? hlast)
    have hsum := plan.count_add_count_not on
    rw [List.getLast?_eq_getElem?] at hlast
    have hcount := (h.count _ _ hlast).1
    omega

/-- If there are as many as there are channels, then in the last all of them are in the state. -/
theorem getLast_eq (h : OneByOne on n shown) (hall : shown.length = n) {channels : Channels}
    (hsize : channels.size = n) :
    shown.getLast?.getD channels = Array.replicate n on := by
  cases hlast : shown.getLast? with
  | none =>
    have hzero : n = 0 := by rw [← hall, List.getLast?_eq_none_iff.1 hlast]; rfl
    rw [Option.getD_none, hzero, Array.eq_empty_of_size_eq_zero (hsize.trans hzero)]
    rfl
  | some plan =>
    have hplan := h.size plan (List.mem_of_getLast? hlast)
    have hpos : 0 < shown.length := List.length_pos_of_mem (List.mem_of_getLast? hlast)
    rw [List.getLast?_eq_getElem?] at hlast
    have hcount := (h.count _ _ hlast).1
    rw [Option.getD_some, Channels.eq_replicate_of_count (by omega : plan.count on = plan.size), hplan]

end OneByOne

namespace Request

/-! ### Plans -/

/-- Each plan puts one more channel in the state than the one before. -/
inductive Fills (on : Bool) : Channels → List Channels → Prop
  | done {plan : Channels} : Fills on plan []
  | step {plan : Channels} {rest : List Channels} {c : Nat} (hc : c < plan.size) (hopen : plan.get c ≠ on)
      (h : Fills on (plan.set c on) rest) : Fills on plan (plan.set c on :: rest)

namespace Fills

variable {on : Bool} {plan : Channels} {shown : List Channels}

theorem of_prefix (h : Fills on plan shown) {part : List Channels} (hpart : part <+: shown) : Fills on plan part := by
  induction h generalizing part with
  | done => exact List.prefix_nil.1 hpart ▸ .done
  | step hc hopen _ ih =>
    rcases List.prefix_cons_iff.1 hpart with rfl | ⟨rest, rfl, hrest⟩
    · exact .done
    · exact .step hc hopen (ih hrest)

theorem size (h : Fills on plan shown) : ∀ p ∈ shown, p.size = plan.size := by
  induction h with
  | done => exact nofun
  | step hc hopen _ ih =>
    intro p hp
    rcases List.mem_cons.1 hp with rfl | hp
    · exact Channels.size_set _ _ _
    · exact (ih p hp).trans (Channels.size_set _ _ _)

theorem count (h : Fills on plan shown) {k : Nat} {p : Channels} (hp : shown[k]? = some p) :
    p.count on = plan.count on + (k + 1) := by
  induction h generalizing k with
  | done => cases hp
  | step hc hopen _ ih =>
    have hset := Channels.count_set hc hopen
    cases k with
    | zero =>
      cases hp
      exact hset
    | succ k =>
      have hrest := ih (k := k) hp
      omega

theorem get_set_of_get {j c : Nat} (h : plan.get j = on) : (plan.set c on).get j = on := by
  rw [Channels.get_set]
  split
  · rfl
  · exact h

theorem grows (h : Fills on plan shown) {k : Nat} {p q : Channels} (hp : shown[k]? = some p)
    (hq : shown[k + 1]? = some q) {j : Nat} (hj : p.get j = on) : q.get j = on := by
  induction h generalizing k with
  | done => cases hp
  | step hc hopen hrest ih =>
    cases k with
    | succ k => exact ih (k := k) hp hq
    | zero =>
      cases hp
      cases hrest with
      | done => cases hq
      | step hc' hopen' _ =>
        cases hq
        exact get_set_of_get hj

/-- What is shown from channels of which none is in the state. -/
theorem oneByOne (h : Fills on plan shown) (hnone : plan.count on = 0) : OneByOne on plan.size shown where
  size := h.size
  count k p hp := by
    have hcount := h.count hp
    have hsum := p.count_add_count_not on
    rw [h.size p (List.mem_of_getElem? hp)] at hsum
    omega
  grows k p q hp hq j _ hj := h.grows hp hq hj

end Fills

/-! ### Candidates -/

variable {on : Bool} {plan : Channels} {candidates rest : List Nat} {c : Nat}

/-- The first candidate whose channel is open, and what the candidates in front of it are not. -/
theorem of_firstOpen (h : Session.firstOpen on plan candidates = some (c, rest)) :
    c < plan.size ∧ plan.get c ≠ on ∧ c ∈ candidates ∧ rest ⊆ candidates ∧
      ∀ j < plan.size, plan.get j ≠ on → j ∈ candidates → j = c ∨ j ∈ rest := by
  induction candidates with
  | nil => cases h
  | cons d ds ih =>
    unfold Session.firstOpen at h
    split at h
    · rename_i hopen
      cases h
      exact ⟨hopen.1, hopen.2, List.mem_cons_self, List.subset_cons_self .., fun j _ _ hmem => List.mem_cons.1 hmem⟩
    · rename_i hclosed
      obtain ⟨hc, hget, hmem, hsubset, hothers⟩ := ih h
      refine ⟨hc, hget, List.mem_cons_of_mem _ hmem, fun x hx => List.mem_cons_of_mem _ (hsubset hx), ?_⟩
      intro j hj hjopen hjmem
      rcases List.mem_cons.1 hjmem with rfl | hjmem
      · exact absurd ⟨hj, hjopen⟩ hclosed
      · exact hothers j hj hjopen hjmem

theorem of_firstOpen_none (h : Session.firstOpen on plan candidates = none) :
    ∀ j < plan.size, plan.get j ≠ on → j ∉ candidates := by
  induction candidates with
  | nil => exact fun _ _ _ => List.not_mem_nil
  | cons d ds ih =>
    unfold Session.firstOpen at h
    split at h
    · cases h
    · rename_i hclosed
      intro j hj hjopen hjmem
      rcases List.mem_cons.1 hjmem with rfl | hjmem
      · exact hclosed ⟨hj, hjopen⟩
      · exact ih h j hj hjopen hjmem

theorem fills_plans (on : Bool) (left : Nat) (plan : Channels) (candidates : List Nat) :
    Fills on plan (plans on left plan candidates) := by
  induction left generalizing plan candidates with
  | zero => exact .done
  | succ left ih =>
    unfold plans
    split
    · exact .done
    · rename_i c rest hfound
      obtain ⟨hc, hopen, -⟩ := of_firstOpen hfound
      exact .step hc hopen (ih _ _)

/-- Every open channel has its turn exactly if all of them are among the candidates. -/
theorem length_plans_eq_iff {left : Nat} (hleft : plan.count (!on) = left) :
    (plans on left plan candidates).length = left ↔ ∀ j < plan.size, plan.get j ≠ on → j ∈ candidates := by
  induction left generalizing plan candidates with
  | zero =>
    refine iff_of_true rfl fun j hj hopen => ?_
    have hset := Channels.count_set hj hopen
    have hsum := plan.count_add_count_not on
    have hsum' := (plan.set j on).count_add_count_not on
    rw [Channels.size_set] at hsum'
    omega
  | succ left ih =>
    unfold plans
    split
    · rename_i hfound
      have hpos : 0 < plan.count (!on) := by omega
      obtain ⟨j, hj, hopen⟩ := Channels.exists_get_ne hpos
      exact iff_of_false nofun fun h => of_firstOpen_none hfound j hj hopen (h j hj hopen)
    · rename_i c rest hfound
      obtain ⟨hc, hopen, hmem, hsubset, hothers⟩ := of_firstOpen hfound
      have hset := Channels.count_set hc hopen
      have hsum := plan.count_add_count_not on
      have hsum' := (plan.set c on).count_add_count_not on
      rw [Channels.size_set] at hsum'
      rw [List.length_cons, Nat.add_right_cancel_iff, ih (by omega), Channels.size_set]
      -- Of the open channels only the one that has its turn need not occur again.
      constructor
      · intro h j hj hjopen
        by_cases hjc : j = c
        · exact hjc ▸ hmem
        · refine hsubset (h j hj ?_)
          rw [Channels.get_set, if_neg fun hcj => hjc hcj.1.symm]
          exact hjopen
      · intro h j hj hjopen
        rw [Channels.get_set] at hjopen
        by_cases hjc : c = j
        · exact absurd hjopen (by simp [hjc, hj])
        · rw [if_neg fun hcj => hjc hcj.1] at hjopen
          exact (hothers j hj hjopen (h j hj hjopen)).resolve_left (Ne.symm hjc)

/-- The plans of a random sequence over `n` channels. -/
def sequence (on : Bool) (n : Nat) (candidates : List Nat) : List Channels :=
  plans on n (Array.replicate n (!on)) candidates

theorem oneByOne_of_prefix {n : Nat} {part : List Channels} (h : part <+: sequence on n candidates) :
    OneByOne on n part := by
  have hfills := fills_plans on n (Array.replicate n (!on)) candidates
  simpa using (hfills.of_prefix h).oneByOne (Channels.count_replicate_not n on)

theorem length_sequence_eq_iff (on : Bool) (n : Nat) (candidates : List Nat) :
    (sequence on n candidates).length = n ↔ ∀ j < n, j ∈ candidates := by
  have hcount : (Array.replicate n (!on) : Channels).count (!on) = n := by simp
  have hget (j : Nat) (hj : j < n) : Channels.get (Array.replicate n (!on)) j ≠ on := by simp [Channels.get, hj]
  rw [sequence, length_plans_eq_iff hcount, Array.size_replicate]
  exact ⟨fun h j hj => h j hj (hget j hj), fun h j hj _ => h j hj⟩

end Request

namespace Session

/-! ### Plans that are shown -/

def withChannels (channels : Channels) (s : Session) : Session := { s with channels }

theorem channels_withChannels (channels : Channels) (s : Session) : (s.withChannels channels).channels = channels := rfl

theorem Tallied.withChannels {s : Session} (h : s.Tallied) (channels : Channels) :
    (s.withChannels channels).Tallied :=
  { h with }

/-- What is recorded of plans that are shown one after another.  All of them are if none is refused.  If one is for the
ceiling, then the channels are as it has them, those before it are recorded, and there may be no more. -/
structure Records (s : Session) (plans : List Channels) (ran : Except Abort Unit × Session) (new : List Frame) :
    Prop where
  frames : ran.2.recorder.frames.toList = s.recorder.frames.toList ++ new
  shown : new.map Frame.channels <+: plans
  all : ran.1 = .ok () → new.map Frame.channels = plans ∧ ran.2.channels = plans.getLast?.getD s.channels
  refused : ∀ cap, ran.1 = .error (.frameLimit cap) →
    new.map Frame.channels ++ [ran.2.channels] <+: plans ∧ cap = s.frameCap ∧ s.pauses + new.length = cap

def afterPlan (plan : Channels) (delay elapsed : Duration) (s : Session) : Session :=
  { s with
    channels := plan
    pauses := s.pauses + 1
    recorder := { s.recorder with
      frames := s.recorder.frames.push ⟨s.recorder.idOf (s.pauses + 1), plan, delay, none⟩ }
    elapsed }

theorem pauses_afterPlan (plan : Channels) (delay elapsed : Duration) (s : Session) :
    (s.afterPlan plan delay elapsed).pauses = s.pauses + 1 := rfl

theorem Tallied.afterPlan {s : Session} (h : s.Tallied) (hcap : s.pauses < s.frameCap) (plan : Channels)
    (delay elapsed : Duration) : (s.afterPlan plan delay elapsed).Tallied where
  frames := by simp [Session.afterPlan, h.frames]
  cap := h.cap
  pauses_le := hcap

namespace Records

variable {s : Session} {plan : Channels} {plans : List Channels} {ran : Except Abort Unit × Session}

theorem nil (s : Session) : Records s [] (.ok (), s) [] where
  frames := by simp
  shown := List.prefix_rfl
  all _ := ⟨rfl, rfl⟩
  refused _ := nofun

/-- The first plan is refused since someone wants the run to stop. -/
theorem stopped (s : Session) (plans : List Channels) (channels : Channels) :
    Records s plans (.error .stopped, s.withChannels channels) [] where
  frames := (List.append_nil _).symm
  shown := List.nil_prefix
  all := nofun
  refused _ := nofun

theorem full (h : s.Tallied) (hfull : s.frameCap ≤ s.pauses) :
    Records s (plan :: plans) (.error (.frameLimit s.frameCap), s.withChannels plan) [] where
  frames := (List.append_nil _).symm
  shown := List.nil_prefix
  all := nofun
  refused cap hcap := by
    cases hcap
    exact ⟨by simp [channels_withChannels], rfl, Nat.le_antisymm h.pauses_le hfull⟩

/-- The time that the first plan takes aborts the run. -/
theorem late (delay elapsed limit : Duration) :
    Records s (plan :: plans) (.error (.timeout limit), s.afterPlan plan delay elapsed)
      [⟨s.recorder.idOf (s.pauses + 1), plan, delay, none⟩] where
  frames := Array.toList_push
  shown := by simp
  all := nofun
  refused _ := nofun

/-- The first plan is shown, and the others on the session that it leaves. -/
theorem cons {delay elapsed : Duration} {new : List Frame}
    (h : Records (s.afterPlan plan delay elapsed) plans ran new) :
    Records s (plan :: plans) ran (⟨s.recorder.idOf (s.pauses + 1), plan, delay, none⟩ :: new) where
  frames := by
    rw [h.frames, afterPlan, Array.toList_push, List.append_assoc, List.singleton_append]
  shown := by simpa using h.shown
  all hok := by
    obtain ⟨hall, hlast⟩ := h.all hok
    refine ⟨by simp [hall], hlast.trans ?_⟩
    cases plans with
    | nil => rfl
    | cons next more => rw [List.getLast?_cons_cons, List.getLast?_cons]; rfl
  refused cap hcap := by
    obtain ⟨hpart, hcap, hcount⟩ := h.refused cap hcap
    refine ⟨by simpa using hpart, hcap, ?_⟩
    rw [List.length_cons, ← hcount, pauses_afterPlan]
    omega

end Records

theorem forM_planStrokes (plan : Channels) (ms : Int64) (more : List Stroke) (s : Session) :
    (forM (Request.planStrokes ms plan ++ more) Stroke.play : Play Unit) s =
      (do pause ms; forM more Stroke.play : Play Unit) (s.withChannels plan) := by
  simp only [Request.planStrokes, List.cons_append, List.nil_append, List.forM_cons, Stroke.play, modify_apply]
  rfl

/-- The run lemma: what is recorded of plans, by induction on them. -/
theorem exists_records (plans : List Channels) (ms : Int64) {s : Session} (h : s.Tallied) :
    ∃ new, Records s plans (forM (plans.flatMap (Request.planStrokes ms)) Stroke.play s) new := by
  induction plans generalizing s with
  | nil => exact ⟨[], .nil s⟩
  | cons plan rest ih =>
    have hpaused := paused ms (s.withChannels plan)
    rw [List.flatMap_cons, forM_planStrokes, bind_apply]
    generalize pause ms (s.withChannels plan) = r at hpaused ⊢
    cases hpaused with
    | stopped hstop => exact ⟨[], .stopped s _ plan⟩
    | full hfull => exact ⟨[], .full h hfull⟩
    | @shown result elapsed hcap hresult hfast =>
      rw [(h.withChannels plan).capture hcap]
      rcases hresult with rfl | rfl
      · obtain ⟨new, hnew⟩ := ih (h.afterPlan hcap plan (.ofMillis ms.toInt.toNat) elapsed)
        exact ⟨_, hnew.cons⟩
      · exact ⟨_, .late _ elapsed _⟩

/-- If nothing but the ceiling can refuse a plan, then it does exactly if they are too many. -/
theorem forM_plans_of_free (plans : List Channels) (ms : Int64) {s : Session} (h : s.Tallied) (hfree : s.Free) :
    ((forM (plans.flatMap (Request.planStrokes ms)) Stroke.play : Play Unit) s).1 =
      if s.pauses + plans.length ≤ s.frameCap then .ok () else .error (.frameLimit s.frameCap) := by
  induction plans generalizing s with
  | nil => exact (if_pos h.pauses_le).symm
  | cons plan rest ih =>
    have hpaused := paused ms (s.withChannels plan)
    rw [List.flatMap_cons, forM_planStrokes, bind_apply, List.length_cons]
    generalize pause ms (s.withChannels plan) = r at hpaused ⊢
    cases hpaused with
    | stopped hstop => exact absurd (hstop.symm.trans hfree.unstopped) nofun
    | full hfull =>
      have hfew : ¬ s.pauses + (rest.length + 1) ≤ s.frameCap := by
        have : s.frameCap ≤ s.pauses := hfull
        omega
      exact (if_neg hfew).symm
    | @shown result elapsed hcap hresult hfast =>
      cases hfast hfree.fast
      rw [(h.withChannels plan).capture hcap]
      have hnext := ih (h.afterPlan hcap plan (.ofMillis ms.toInt.toNat) elapsed) ⟨hfree.fast, hfree.unstopped⟩
      rw [pauses_afterPlan, Nat.add_right_comm, Nat.add_assoc] at hnext
      exact hnext

/-! ### Random sequences -/

/-- A random sequence shows its plans, and fails behind them if there are too few. -/
theorem perform_scatter (on : Bool) (candidates : List Nat) (s : Session) :
    perform (.scatter on candidates) s = (do
      forM ((Request.sequence on s.channels.size candidates).flatMap (Request.planStrokes s.baseMillis)) Stroke.play
      if (Request.sequence on s.channels.size candidates).length = s.channels.size then pure ()
      else throw .noCandidate : Play Unit) s := by
  rw [perform_eq]
  simp only [Request.served, beq_iff_eq]
  rfl

section Ended

variable {s : Session} {p : Play Unit} {enough : Prop} [Decidable enough]

/-- What is recorded stays so if there are too few plans, and that is no refusal for the ceiling. -/
theorem Records.ended {plans : List Channels} {new : List Frame} (h : Records s plans (p s) new) :
    Records s plans ((do p; if enough then pure () else throw .noCandidate : Play Unit) s) new := by
  rw [bind_apply]
  generalize p s = ran at h ⊢
  obtain ⟨result, s'⟩ := ran
  cases result with
  | error a => exact h
  | ok _ =>
    by_cases henough : enough
    · simp only [if_pos henough]
      exact h
    · simp only [if_neg henough]
      exact { frames := h.frames, shown := h.shown, all := nofun, refused := nofun }

theorem fst_of_enough (henough : enough) :
    ((do p; if enough then pure () else throw .noCandidate : Play Unit) s).1 = (p s).1 := by
  simp only [if_pos henough, bind_pure_unit]

theorem enough_of_fst (h : ((do p; if enough then pure () else throw .noCandidate : Play Unit) s).1 = .ok ()) :
    enough := by
  by_contra hfew
  rw [bind_apply] at h
  simp only [if_neg hfew] at h
  split at h <;> cases h

end Ended

/-- **Random sequences.**  Called with any channels on the session that a run leaves, a random sequence over `n`
channels records frames in which the channels come to be in the state one by one.  If it completes there are `n` of
them, and all channels are in the state.  If a pause is refused for the ceiling, it is that of the next step: the
channels go on as the frames do, there are fewer than `n` frames, and all there may be.  If nothing else can stop it,
then with every channel among the candidates it completes exactly if there may be `n` frames more. -/
theorem frames_of_scatter (on : Bool) (candidates : List Nat) (total : Nat) (baseDelay : Duration)
    (limits : ScriptLimits) (fast stopped : Bool) (events : List Event) (channels : Channels) :
    let before := (ofEvents total baseDelay limits fast stopped events).withChannels channels
    let n := channels.size
    let ran := perform (.scatter on candidates) before
    ∃ new : List Frame, ran.2.recorder.frames.toList = before.recorder.frames.toList ++ new ∧
      OneByOne on n (new.map Frame.channels) ∧
      (ran.1 = .ok () → new.length = n ∧ ran.2.channels = Array.replicate n on) ∧
      (∀ cap, ran.1 = .error (.frameLimit cap) →
        OneByOne on n (new.map Frame.channels ++ [ran.2.channels]) ∧ new.length < n ∧ cap = limits.frameCap ∧
          before.recorder.frames.size + new.length = cap) ∧
      (before.Free → (∀ j < n, j ∈ candidates) →
        ran.1 = if before.recorder.frames.size + n ≤ limits.frameCap then .ok ()
          else .error (.frameLimit limits.frameCap)) := by
  intro before n ran
  obtain ⟨d, hd⟩ := shows_ofEvents total baseDelay limits fast stopped events
  have hbefore : before.Tallied := hd.tallied.withChannels channels
  have hcap : before.frameCap = limits.frameCap := hd.frameCap
  have hperform : ran = _ := perform_scatter on candidates before
  obtain ⟨new, hnew⟩ := exists_records (Request.sequence on n candidates) before.baseMillis hbefore
  have hran : Records before (Request.sequence on n candidates) ran new := hperform ▸ hnew.ended
  refine ⟨new, hran.frames, Request.oneByOne_of_prefix hran.shown, ?_, ?_, ?_⟩
  · intro hok
    obtain ⟨hall, hlast⟩ := hran.all hok
    have hlength : (Request.sequence on n candidates).length = n := by
      rw [hperform] at hok
      exact enough_of_fst hok
    rw [← hall, List.length_map] at hlength
    exact ⟨hlength, hlast.trans ((Request.oneByOne_of_prefix List.prefix_rfl).getLast_eq (by simpa [← hall]) rfl)⟩
  · intro cap hrefused
    obtain ⟨hpart, hlimit, hcount⟩ := hran.refused cap hrefused
    have hnext := Request.oneByOne_of_prefix hpart
    have hlength := hnext.length_le
    rw [List.length_append, List.length_map, List.length_singleton] at hlength
    exact ⟨hnext, hlength, hlimit.trans hcap, by rw [hbefore.frames, hcount]⟩
  · intro hfree hmem
    have hlength := (Request.length_sequence_eq_iff on n candidates).2 hmem
    have hends := forM_plans_of_free (Request.sequence on n candidates) before.baseMillis hbefore hfree
    rw [hlength, ← hbefore.frames, hcap] at hends
    exact (congrArg Prod.fst hperform).trans ((fst_of_enough hlength).trans hends)

/-- Two channels of which the first is on, in a run that may record so many frames. -/
def pairOf (cap : Nat) : Session :=
  (ofEvents 2 (.ofMillis 20) { ScriptLimits.standard with frameCap := cap } true false
    [.call (.set 0 true)]).withChannels #[true, false]

/-- Either channel of the two takes its turn, also that which is on.  With room for one frame the second turn is
refused. -/
theorem frames_of_scatter_pair :
    ((pairOf 2).Free ∧ (pairOf 1).Free ∧ ∀ j < 2, j ∈ [1, 1, 0]) ∧
      (perform (.scatter true [1, 1, 0]) (pairOf 2)).1 = .ok () ∧
      (perform (.scatter true [1, 1, 0]) (pairOf 2)).2.channels = #[true, true] ∧
      (perform (.scatter true [1, 1, 0]) (pairOf 2)).2.recorder.frames.toList.length = 2 ∧
      (perform (.scatter true [1, 1, 0]) (pairOf 1)).1 = .error (.frameLimit 1) ∧
      (perform (.scatter true [1, 1, 0]) (pairOf 1)).2.recorder.frames.toList.length = 1 := by
  have hmem : ∀ j < 2, j ∈ [1, 1, 0] := by decide
  have hfree (cap : Nat) : (pairOf cap).Free := ⟨rfl, rfl⟩
  obtain ⟨new, hframes, -, hok, -, hends⟩ := frames_of_scatter true [1, 1, 0] 2 (.ofMillis 20)
    { ScriptLimits.standard with frameCap := 2 } true false [.call (.set 0 true)] #[true, false]
  obtain ⟨part, hpart, -, -, hrefused, hstops⟩ := frames_of_scatter true [1, 1, 0] 2 (.ofMillis 20)
    { ScriptLimits.standard with frameCap := 1 } true false [.call (.set 0 true)] #[true, false]
  have hroom : (pairOf 2).recorder.frames.size + 2 ≤ 2 := Nat.le_refl 2
  have hfull : ¬ (pairOf 1).recorder.frames.size + 2 ≤ 1 := Nat.not_succ_le_self 1
  have hresult := (hends (hfree 2) hmem).trans (if_pos hroom)
  have hstop := (hstops (hfree 1) hmem).trans (if_neg hfull)
  obtain ⟨htwo, hall⟩ := hok hresult
  obtain ⟨-, -, -, hone⟩ := hrefused 1 hstop
  refine ⟨⟨hfree 2, hfree 1, hmem⟩, hresult, hall, ?_, hstop, ?_⟩
  · exact (congrArg List.length hframes).trans (by rw [List.length_append, htwo]; rfl)
  · exact (congrArg List.length hpart).trans (by rw [List.length_append]; exact hone)

end Session

end Script

end RunningLights
