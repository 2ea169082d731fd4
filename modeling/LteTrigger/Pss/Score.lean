import LteTrigger.Pss.Acquisition

/-!
# The score of the `pss` block and the run of calls behind it

The block refines a `HitLock`, so its score and its tracking flag depend on the run only
through the calls that ended over the threshold. `hits` lists, for every call of a run, whether
it did. The threshold of a call is the one in force at that call.

## Main results

* `phase_of_run`: the tracking state is that of the lock after the hits of the run;
* `score_of_run`: the score counts the hits that came last, up to `track_after`;
* `tracking_iff_trailing`: the block enters tracking state at the `track_after`-th hit in a row.
-/

namespace LteTrigger

namespace PssImpl

variable {F S Det Tab : Type}

/-- One event in a run. -/
abbrev Transition (F S Det Tab : Type) :=
  Machine.Transition (PssImpl F Det Tab) (Event F S) (Option (Work S))

/-- Whether an event is a call. -/
def Event.isCall : Event F S → Bool
  | .work _ => true
  | .setPsrThreshold _ => false

theorem Event.isCall_iff {i : Event F S} : i.isCall = true ↔ ∃ c, i = .work c := by
  cases i <;> simp [Event.isCall]

/-- The number of calls in a trace. -/
def numCalls (tr : List (Transition F S Det Tab)) : ℕ := tr.countP fun t => t.input.isCall

@[simp]
theorem numCalls_append (tr tr' : List (Transition F S Det Tab)) :
    numCalls (tr ++ tr') = numCalls tr + numCalls tr' :=
  List.countP_append

theorem numCalls_singleton_of_call {t : Transition F S Det Tab} {c : Call S}
    (hcall : t.input = .work c) : numCalls [t] = 1 := by
  simp [numCalls, hcall, Event.isCall]

/-- A trace with more than `k` calls is cut before the call that has `k` calls before it. -/
theorem exists_call_at {tr : List (Transition F S Det Tab)} {k : ℕ} (hk : k < numCalls tr) :
    ∃ tr₁ t tr₂ c, tr = tr₁ ++ t :: tr₂ ∧ t.input = .work c ∧ numCalls tr₁ = k := by
  induction tr generalizing k with
  | nil => simp [numCalls] at hk
  | cons t tr ih =>
    cases hcall : t.input.isCall with
    | true =>
      obtain ⟨c, hc⟩ := Event.isCall_iff.mp hcall
      cases k with
      | zero => exact ⟨[], t, tr, c, rfl, hc, rfl⟩
      | succ k =>
        have hk' : k < numCalls tr := by simpa [numCalls, hcall] using hk
        obtain ⟨tr₁, u, tr₂, d, rfl, hd, hcount⟩ := ih hk'
        exact ⟨t :: tr₁, u, tr₂, d, rfl, hd, by simpa [numCalls, hcall] using hcount⟩
    | false =>
      have hk' : k < numCalls tr := by simpa [numCalls, hcall] using hk
      obtain ⟨tr₁, u, tr₂, d, rfl, hd, hcount⟩ := ih hk'
      exact ⟨t :: tr₁, u, tr₂, d, rfl, hd, by simpa [numCalls, hcall] using hcount⟩

variable [FloatOps F]

/-- For a call, whether it ended over the threshold then in force. A call that skips the
correlation still has the ratio of the last one, and compares that. -/
def hitIn (t : Transition F S Det Tab) : List Bool :=
  match t.input with
  | .work _ => [decide (t.pre.psrThreshold < t.post.psr)]
  | .setPsrThreshold _ => []

/-- For each call of a trace, whether it ended over the threshold. -/
def hits (tr : List (Transition F S Det Tab)) : List Bool := tr.flatMap hitIn

@[simp]
theorem hits_append (tr tr' : List (Transition F S Det Tab)) :
    hits (tr ++ tr') = hits tr ++ hits tr' := by
  simp [hits]

theorem hits_singleton_of_call {t : Transition F S Det Tab} {c : Call S}
    (hcall : t.input = .work c) : hits [t] = [decide (t.pre.psrThreshold < t.post.psr)] := by
  simp [hits, hitIn, hcall]

/-- There is one entry for every call. -/
theorem length_hits (tr : List (Transition F S Det Tab)) : (hits tr).length = numCalls tr := by
  induction tr with
  | nil => rfl
  | cons t tr ih =>
    obtain ⟨pre, i, o, post⟩ := t
    cases i <;> simp_all [hits, numCalls, hitIn, Event.isCall]

section Runs

variable {lib : PssLib F S Det Tab} {s s₀ : PssImpl F Det Tab}
  {tr : List (Transition F S Det Tab)} {nId2 : ℤ} {threshold : F} {after every : ℤ}

/-- The block never changes `track_after` and `track_every`. -/
theorem counts_of_run (hmake : make lib nId2 threshold after every = .ok s₀)
    (hrun : Machine.Run (step lib) s₀ tr s) :
    s.trackAfterNFrames = after ∧ s.trackEveryNFrames = every := by
  obtain ⟨_, _, _, -, -, -, rfl⟩ := make_eq hmake
  refine hrun.invariant (I := fun u => u.trackAfterNFrames = after ∧
    u.trackEveryNFrames = every) ⟨rfl, rfl⟩ fun u i u' o hcounts hstep => ?_
  rcases step_cases hstep with ⟨c, w, -, -, hw⟩ | ⟨threshold, -, -, rfl⟩
  · obtain ⟨-, -, hafter, hevery, -⟩ := generalWork_spec hw
    exact ⟨hafter.trans hcounts.1, hevery.trans hcounts.2⟩
  · exact hcounts

/-- The tracking state is that of the lock after the hits of the run. -/
theorem phase_of_run (hmake : make lib nId2 threshold after every = .ok s₀)
    (hrun : Machine.Run (step lib) s₀ tr s) :
    s.tracking.phase = HitLock.run after (hits tr) := by
  obtain ⟨_, _, _, -, -, -, hs₀⟩ := make_eq hmake
  have hphase : s₀.tracking.phase = .searching 0 := by rw [hs₀]; rfl
  rw [HitLock.run, ← hphase, hits]
  -- the lock counts up to the `track_after` of the constructor, which never changes
  refine hrun.foldl (f := fun u => u.tracking.phase)
    (I := fun u => u.Coherent ∧ u.trackAfterNFrames = after)
    ⟨make_coherent hmake, by rw [hs₀]⟩ (fun u i u' o hu hstep => ?_) fun t ht hstep => ?_
  · refine ⟨step_coherent hu.1 hstep, ?_⟩
    rcases step_cases hstep with ⟨c, w, -, -, hw⟩ | ⟨threshold, -, -, rfl⟩
    · exact (generalWork_spec hw).2.2.1.trans hu.2
    · exact hu.2
  · rcases step_cases hstep with ⟨c, w, hc, -, hw⟩ | ⟨threshold, hthreshold, -, hpost⟩
    · rw [(generalWork_refines ht.1 hw).2.1, lockStep, ht.2, hitIn, hc]
      rfl
    · -- a change of the threshold is no hit and no miss
      rw [hitIn, hthreshold, hpost]
      rfl

/-- The score counts the hits that came last, up to `track_after`, and the block is tracking
when they are that many. A `track_after` that is not positive is never reached. -/
theorem score_of_run (hmake : make lib nId2 threshold after every = .ok s₀)
    (hrun : Machine.Run (step lib) s₀ tr s) :
    (s.tracking.isTracking = true ↔ 0 < after ∧ after ≤ HitLock.trailing (hits tr)) ∧
      s.tracking.score =
        if 0 < after then min after (HitLock.trailing (hits tr))
        else HitLock.trailing (hits tr) := by
  have hphase := phase_of_run hmake hrun
  have hsound := (coherent_of_run hmake hrun).tracking_sound
  rw [(counts_of_run hmake hrun).1] at hsound
  have hnonneg := hsound.score_nonneg
  rw [HitLock.run_eq] at hphase
  -- by the flag, which tells in which of its two phases the lock is
  cases hflag : s.tracking.isTracking with
  | true =>
    obtain ⟨hscore, hpos⟩ := hsound.score_of_tracking hflag
    have hfull : 0 < after ∧ after ≤ HitLock.trailing (hits tr) := by
      by_contra hfew
      simp [Tracking.phase, hflag, hfew] at hphase
    rw [if_pos hfull.1, min_eq_left hfull.2]
    exact ⟨iff_of_true rfl hfull, hscore⟩
  | false =>
    have hfew : ¬ (0 < after ∧ after ≤ HitLock.trailing (hits tr)) := by
      intro hfull
      simp [Tracking.phase, hflag, hfull] at hphase
    simp only [Tracking.phase, hflag, Bool.false_eq_true, ↓reduceIte, hfew,
      HitLock.searching.injEq] at hphase
    -- while searching, the score is what the lock has counted
    refine ⟨iff_of_false (by simp) hfew, ?_⟩
    split <;> omega

/-- After every event the score is the number of calls in a row, up to the last one, that ended
over the threshold, but at most `track_after`. The block is tracking exactly when it is that
large. So it enters tracking state in the call that ends the first `track_after` hits in a row,
and each of these calls has correlated. -/
theorem tracking_iff_trailing (hafter : 1 ≤ after)
    (hmake : make lib nId2 threshold after every = .ok s₀)
    (hrun : Machine.Run (step lib) s₀ tr s) :
    s.tracking.score = min after (HitLock.trailing (hits tr)) ∧
    (s.tracking.isTracking = true ↔ after ≤ HitLock.trailing (hits tr)) ∧
    (0 ≤ s.tracking.score ∧ s.tracking.score ≤ after ∧
      (s.tracking.isTracking = true ↔ s.tracking.score = after)) ∧
    (∀ tr₁ t tr₂ c, tr = tr₁ ++ t :: tr₂ → t.input = .work c →
      ((t.pre.tracking.isTracking = false ∧ t.post.tracking.isTracking = true) ↔
        (HitLock.trailing (hits (tr₁ ++ [t])) : ℤ) = after) ∧
      (1 ≤ HitLock.trailing (hits (tr₁ ++ [t])) →
        (HitLock.trailing (hits (tr₁ ++ [t])) : ℤ) ≤ after →
        t.pre.findsPss ∧ t.post.psr = (lib.findPss t.pre.pss (c.halfFrame 0)).psr)) := by
  have hpos : 0 < after := hafter
  obtain ⟨htracking, hscore⟩ := score_of_run hmake hrun
  rw [if_pos hpos] at hscore
  rw [and_iff_right hpos] at htracking
  refine ⟨hscore, htracking, ⟨by omega, by omega, by rw [htracking, hscore]; omega⟩, ?_⟩
  rintro tr₁ t tr₂ c rfl hcall
  obtain ⟨hpre, hstep, -⟩ := hrun.at_transition
  -- the flag before and after the call, by the hits before and after it
  have hbefore := (score_of_run hmake hpre).1
  have hafterwards := (score_of_run hmake (hpre.snoc hstep)).1
  rw [and_iff_right hpos] at hbefore hafterwards
  rw [← Bool.not_eq_true, hbefore, hafterwards]
  rw [hits_append, hits_singleton_of_call hcall] at hafterwards ⊢
  cases hhit : decide (t.pre.psrThreshold < t.post.psr) with
  | true =>
    rw [HitLock.trailing_concat_hit]
    refine ⟨by omega, fun _ hfew => ?_⟩
    -- a block that is not tracking yet correlates in every call
    have hfinds : t.pre.findsPss := by
      left
      rw [hbefore]
      omega
    rcases step_cases hstep with ⟨c', w, hc', -, hw⟩ | ⟨threshold, hthreshold, -, -⟩
    · obtain rfl : c = c' := Event.work.inj (hcall.symm.trans hc')
      refine ⟨hfinds, ?_⟩
      rw [(generalWork_spec hw).1, findFrame, if_pos hfinds]
    · simp [hthreshold] at hcall
  | false =>
    rw [HitLock.trailing_concat_miss]
    omega

/-- Two hits in a row with a miss before them lock a block that waits for two. -/
theorem tracking_iff_trailing_playback :
    ∃ tr s, Machine.Run (step (.playback Unit [(960, 5), (960, -1), (960, 5), (960, 5)]))
        (.playback [(960, 5), (960, -1), (960, 5), (960, 5)] 1 2 0) tr s ∧
      hits tr = [true, false, true, true] ∧
      (s.tracking.isTracking = true ↔ (2 : ℤ) ≤ HitLock.trailing (hits tr)) := by
  have hfirst : Machine.Run (step (.playback Unit [(960, 5), (960, -1), (960, 5), (960, 5)]))
      (.playback [(960, 5), (960, -1), (960, 5), (960, 5)] 1 2 0) _ _ :=
    .snoc (i := .work (Call.minimal (fun _ => ()) 0)) .nil rfl
  have hmiss := Machine.Run.snoc (i := .work (Call.minimal (fun _ => ()) 0)) hfirst rfl
  have hsecond := Machine.Run.snoc (i := .work (Call.minimal (fun _ => ()) 0)) hmiss rfl
  have hrun := Machine.Run.snoc (i := .work (Call.minimal (fun _ => ()) 0)) hsecond rfl
  exact ⟨_, _, hrun, rfl,
    (tracking_iff_trailing (by decide) (make_playback Unit _ 1 2 0) hrun).2.1⟩

end Runs

end PssImpl

end LteTrigger
