import LteTrigger.Countdown.Basic
import LteTrigger.Pss.Score

/-!
# The timer of the `pss` block

While the block tracks, `tracking_t::timer` is a countdown that is reloaded with `track_every`
by every correlation. A countdown with reload value `n` is zero at every `(n + 1)`-th tick, so
the correlations are one call further apart than `track_every` says.

## Main definitions

* `CallInLock`: a call with its number since the block entered tracking state.

## Main results

* `findsPss_iff_dvd`: while tracking, every `(track_every + 1)`-th call correlates;
* `resync_period_iff`: when this looks like every `track_every`-th call.
-/

namespace LteTrigger

namespace PssImpl

variable {F S Det Tab : Type} [FloatOps F] {lib : PssLib F S Det Tab}
  {s s' s₀ : PssImpl F Det Tab} {c : Call S} {w : Work S}

/-! ### The timer in a call -/

omit [FloatOps F] in
theorem findFrame_timer : (findFrame lib s c).tracking.timer =
    if s.findsPss then s.trackEveryNFrames else s.tracking.timer - 1 := by
  unfold findFrame
  split <;> rfl

/-- The score update leaves the timer alone or restarts the whole of `tracking_t`. -/
theorem updateScore_timer :
    (updateScore lib s).tracking.timer = s.tracking.timer ∨
      (updateScore lib s).tracking = {} := by
  unfold updateScore incrScore resetScore Tracking.start Tracking.stop
  grind

/-- A call leaves the timer as the correlation or the countdown did, unless it restarts the
whole of `tracking_t`. -/
theorem generalWork_timer (hw : generalWork lib s c = .ok (s', w)) :
    s'.tracking.timer = (findFrame lib s c).tracking.timer ∨ s'.tracking = {} := by
  rw [(generalWork_spec hw).2.2.2.2]
  exact updateScore_timer

/-- A call that leaves a tracking block tracking is one tick of the countdown. -/
theorem generalWork_tick (hw : generalWork lib s c = .ok (s', w))
    (hpre : s.tracking.isTracking = true) (hpost : s'.tracking.isTracking = true) :
    s'.tracking.timer = Countdown.tick s.trackEveryNFrames s.tracking.timer := by
  rcases generalWork_timer hw with htimer | hrestart
  · -- a tracking block correlates exactly when the timer is zero
    rw [htimer, findFrame_timer, Countdown.tick]
    simp [findsPss, hpre]
  · -- a restart would have stopped tracking
    simp [hrestart] at hpost

/-- A call that enters tracking state leaves the timer full. -/
theorem generalWork_timer_of_enters (hw : generalWork lib s c = .ok (s', w))
    (hpre : s.tracking.isTracking = false) (hpost : s'.tracking.isTracking = true) :
    s'.tracking.timer = s.trackEveryNFrames := by
  rcases generalWork_timer hw with htimer | hrestart
  · rw [htimer, findFrame_timer]
    simp [findsPss, hpre]
  · simp [hrestart] at hpost

section Runs

variable {tr tr₁ tr₂ : List (Transition F S Det Tab)} {t e : Transition F S Det Tab}
  {nId2 : ℤ} {threshold : F} {after every : ℤ} {k : ℕ}

/-! ### The distance between correlations -/

/-- The transition enters tracking state. -/
def EntersTracking (t : Transition F S Det Tab) : Prop :=
  t.pre.tracking.isTracking = false ∧ t.post.tracking.isTracking = true

/-- `t` is the `k`-th call after the one in which the block entered tracking state, and the block
has not left it since. -/
def CallInLock (tr : List (Transition F S Det Tab)) (k : ℕ) (t : Transition F S Det Tab) :
    Prop :=
  ∃ tr₁ e tr₂ tr₃ c, tr = tr₁ ++ e :: (tr₂ ++ t :: tr₃) ∧ EntersTracking e ∧
    (∀ u ∈ tr₂, u.post.tracking.isTracking = true) ∧ t.input = .work c ∧ k = numCalls tr₂ + 1

omit [FloatOps F] in
/-- A stretch of tracking with a `k`-th call has all the calls before it. -/
theorem CallInLock.of_le {j : ℕ} (h : CallInLock tr k t) (hj : 1 ≤ j) (hjk : j ≤ k) :
    ∃ u, CallInLock tr j u := by
  obtain ⟨tr₁, e, tr₂, tr₃, c, rfl, henters, hlocked, hcall, rfl⟩ := h
  rcases Nat.lt_or_eq_of_le hjk with hlt | rfl
  · -- cut the stretch at its `j`-th call
    obtain ⟨tr₄, u, tr₅, d, rfl, hd, hcount⟩ :=
      exists_call_at (show j - 1 < numCalls tr₂ by omega)
    refine ⟨u, tr₁, e, tr₄, tr₅ ++ t :: tr₃, d, by simp, henters, fun v hv => ?_, hd, by omega⟩
    exact hlocked v (List.mem_append_left _ hv)
  · exact ⟨t, tr₁, e, tr₂, tr₃, c, rfl, henters, hlocked, hcall, rfl⟩

/-- A stretch of tracking ticks once for every call in it. -/
theorem timer_of_locked (hrun : Machine.Run (step lib) s tr s')
    (hevery : s.trackEveryNFrames = every) (hpre : s.tracking.isTracking = true)
    (hlocked : ∀ u ∈ tr, u.post.tracking.isTracking = true) :
    s'.tracking.isTracking = true ∧ s'.trackEveryNFrames = every ∧
      s'.tracking.timer = (Countdown.tick every)^[numCalls tr] s.tracking.timer := by
  induction hrun with
  | nil => exact ⟨hpre, hevery, rfl⟩
  | @snoc tr u u' i o _ hstep ih =>
    obtain ⟨htracking, hu, htimer⟩ := ih fun v hv => hlocked v (List.mem_append_left _ hv)
    have hpost : u'.tracking.isTracking = true := hlocked ⟨u, i, o, u'⟩ (by simp)
    rcases step_cases hstep with ⟨c, w, rfl, -, hw⟩ | ⟨threshold, rfl, -, rfl⟩
    · refine ⟨hpost, (generalWork_spec hw).2.2.2.1.trans hu, ?_⟩
      rw [generalWork_tick hw htracking hpost, hu, htimer, numCalls_append,
        numCalls_singleton_of_call rfl, Function.iterate_succ_apply']
    · -- a new threshold is no call and no tick
      exact ⟨hpost, hu, by simpa [numCalls, Event.isCall, setPsrThreshold] using htimer⟩

/-- While the block tracks, the calls that correlate are those whose number is a multiple of
`track_every + 1`. -/
theorem findsPss_iff_dvd (hevery : 0 ≤ every)
    (hmake : make lib nId2 threshold after every = .ok s₀)
    (hrun : Machine.Run (step lib) s₀ tr s) (h : CallInLock tr k t) :
    t.pre.findsPss ↔ every + 1 ∣ (k : ℤ) := by
  obtain ⟨tr₁, e, tr₂, tr₃, c, rfl, ⟨hout, hin⟩, hlocked, -, rfl⟩ := h
  obtain ⟨hpre, henter, hrest⟩ := hrun.at_transition
  obtain ⟨hstretch, -, -⟩ := hrest.at_transition
  have hcounts := (counts_of_run hmake (hpre.snoc henter)).2
  -- the entering call has correlated and leaves the timer full
  have hfull : e.post.tracking.timer = every := by
    rcases step_cases henter with ⟨c, w, -, -, hw⟩ | ⟨threshold, -, -, hpost⟩
    · rw [generalWork_timer_of_enters hw hout hin, (counts_of_run hmake hpre).2]
    · rw [hpost] at hin
      exact absurd hin (by simpa [setPsrThreshold] using hout)
  -- so before the `k`-th call it has ticked `k - 1` times
  obtain ⟨htracking, -, htimer⟩ := timer_of_locked hstretch hcounts hin hlocked
  rw [← Countdown.iterate_tick_eq_zero_iff hevery, findsPss, htimer, hfull]
  simp [htracking]

/-- While the block tracks, every `track_every`-th call correlates and no other, counted from
the call that entered tracking state, exactly when no stretch of tracking gets as far as its
`track_every`-th call. The correlation due there is only made in the call after it. -/
theorem resync_period_iff (hevery : 1 ≤ every)
    (hmake : make lib nId2 threshold after every = .ok s₀)
    (hrun : Machine.Run (step lib) s₀ tr s) :
    (∀ k t, CallInLock tr k t → (t.pre.findsPss ↔ every ∣ (k : ℤ))) ↔
      ∀ k t, CallInLock tr k t → (k : ℤ) < every := by
  constructor
  · intro hperiod k t h
    by_contra hlong
    -- take the call in which the correlation is due
    obtain ⟨u, hu⟩ := h.of_le (j := every.toNat) (by omega) (by omega)
    have hcast : ((every.toNat : ℕ) : ℤ) = every := Int.toNat_of_nonneg (by omega)
    have hfinds := (hperiod _ u hu).mpr (by rw [hcast])
    -- but only multiples of `track_every + 1` correlate
    have hdvd := (findsPss_iff_dvd (by omega) hmake hrun hu).mp hfinds
    rw [hcast] at hdvd
    have := Int.le_of_dvd (by omega) hdvd
    omega
  · intro hshort k t h
    have hk := hshort k t h
    have hpos : 1 ≤ k := by
      obtain ⟨_, _, _, _, _, -, -, -, -, rfl⟩ := h
      omega
    rw [findsPss_iff_dvd (by omega) hmake hrun h]
    -- no multiple of either number is that small
    refine iff_of_false (fun hdvd => ?_) fun hdvd => ?_
    · have := Int.le_of_dvd (by omega) hdvd
      omega
    · have := Int.le_of_dvd (by omega) hdvd
      omega

/-- With `track_every` two, the first call after the entering one does not correlate. -/
theorem resync_period_playback :
    ∃ tr s, Machine.Run (step (.playback Unit [(960, 5)])) (.playback [(960, 5)] 1 1 2) tr s ∧
      numCalls tr = 2 ∧ ∀ k t, CallInLock tr k t → (t.pre.findsPss ↔ (2 : ℤ) ∣ k) := by
  have henter : Machine.Run (step (.playback Unit [(960, 5)])) (.playback [(960, 5)] 1 1 2) _ _ :=
    .snoc (i := .work (Call.minimal (fun _ => ()) 0)) .nil rfl
  have hrun := Machine.Run.snoc (i := .work (Call.minimal (fun _ => ()) 0)) henter rfl
  refine ⟨_, _, hrun, rfl,
    (resync_period_iff (by decide) (make_playback Unit _ 1 1 2) hrun).mpr ?_⟩
  rintro k t ⟨tr₁, e, tr₂, tr₃, c, htr, -, -, -, rfl⟩
  -- there is no room for a call between the two
  have hlength := congrArg List.length htr
  have hcount : numCalls tr₂ ≤ tr₂.length := List.countP_le_length
  simp only [List.nil_append, List.cons_append, List.length_cons, List.length_nil,
    List.length_append] at hlength
  omega

/-- With `track_every` one, every call of a tracking block should correlate, but the first call
after the entering one does not. -/
theorem resync_skipped :
    ¬ ∀ (correlations : List (ℕ × ℤ)) (threshold after every : ℤ), 1 ≤ after → 1 ≤ every →
      ∀ tr s, Machine.Run (step (.playback Unit correlations))
        (.playback correlations threshold after every) tr s →
        ∀ k t, CallInLock tr k t → (t.pre.findsPss ↔ every ∣ (k : ℤ)) := by
  intro h
  have henter : Machine.Run (step (.playback Unit [(960, 5)])) (.playback [(960, 5)] 1 1 1) _ _ :=
    .snoc (i := .work (Call.minimal (fun _ => ()) 0)) .nil rfl
  have hrun := Machine.Run.snoc (i := .work (Call.minimal (fun _ => ()) 0)) henter rfl
  have hfinds := (h _ _ _ _ (by decide) (by decide) _ _ hrun 1 _
    ⟨[], _, [], [], _, rfl, ⟨rfl, rfl⟩, by simp, rfl, rfl⟩).mpr (by decide)
  revert hfinds
  decide

end Runs

end PssImpl

end LteTrigger
