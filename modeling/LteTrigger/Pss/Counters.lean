import LteTrigger.Pss.Timer

/-!
# Bounds of the score and the timer

`tracking.score++` and `tracking.timer--` are guarded by tests for equality, with `track_after`
and with zero. A score that starts below `track_after` and a timer that starts above zero stop
there. A `track_after` that is not positive is never met, and the score then counts every hit in
a row. A negative `track_every` puts the timer below zero, where it does not stop.

## Main results

* `score_bounds`, `timer_bounds`: the bounds for counts that make sense;
* `counters_bounded_iff`: for which runs the counters stay within their bounds.
-/

namespace LteTrigger

/-- The values of an `int`. -/
def IsInt (n : ℤ) : Prop := -2 ^ 31 ≤ n ∧ n < 2 ^ 31

instance (n : ℤ) : Decidable (IsInt n) := inferInstanceAs (Decidable (_ ∧ _))

namespace PssImpl

variable {F S Det Tab : Type} [FloatOps F] {lib : PssLib F S Det Tab}
  {s s' s₀ : PssImpl F Det Tab} {c : Call S} {w : Work S}
  {tr : List (Transition F S Det Tab)} {t : Transition F S Det Tab}
  {nId2 : ℤ} {threshold : F} {after every : ℤ}

/-- The score and the timer of a trace stay within `0 .. max 1 after` and `0 .. max 0 every`,
also inside a call, no increment or decrement leaves the range of an `int`, and no more than
`max 0 every` calls in a row go without a correlation. -/
structure CountersBounded (lib : PssLib F S Det Tab) (after every : ℤ)
    (tr : List (Transition F S Det Tab)) : Prop where
  score : ∀ t ∈ tr, 0 ≤ t.post.tracking.score ∧ t.post.tracking.score ≤ max 1 after
  timer : ∀ t ∈ tr, 0 ≤ t.post.tracking.timer ∧ t.post.tracking.timer ≤ max 0 every
  found : ∀ t ∈ tr, ∀ c, t.input = .work c →
    0 ≤ (findFrame lib t.pre c).tracking.timer ∧
      (findFrame lib t.pre c).tracking.timer ≤ max 0 every
  incremented : ∀ t ∈ tr, ∀ c, t.input = .work c → t.pre.psrThreshold < t.post.psr →
    ¬ (t.pre.tracking.isTracking = true ∧ t.pre.tracking.score = after) →
    IsInt (t.pre.tracking.score + 1)
  decremented : ∀ t ∈ tr, ∀ c, t.input = .work c → ¬ t.pre.findsPss →
    IsInt (t.pre.tracking.timer - 1)
  correlates : ∀ tr₁ tr₂ tr₃, tr = tr₁ ++ tr₂ ++ tr₃ →
    (∀ t ∈ tr₂, ∀ c, t.input = .work c → ¬ t.pre.findsPss) → (numCalls tr₂ : ℤ) ≤ max 0 every

/-- No two calls in a row end over the threshold. -/
def NoTwoHits (tr : List (Transition F S Det Tab)) : Prop :=
  ∀ l₁ l₂, hits tr ≠ l₁ ++ true :: true :: l₂

/-! ### The score -/

/-- Without two hits in a row, at most one hit came last. -/
theorem trailing_le_one (h : NoTwoHits tr) {tr₁ tr₂ : List (Transition F S Det Tab)}
    (htr : tr = tr₁ ++ tr₂) : HitLock.trailing (hits tr₁) ≤ 1 := by
  by_contra htwo
  obtain ⟨l, hl⟩ := HitLock.exists_append_replicate_trailing (hits tr₁)
  obtain ⟨k, hk⟩ := Nat.exists_eq_add_of_le (Nat.succ_le_of_lt (Nat.lt_of_not_le htwo))
  refine h (l ++ List.replicate k true) (hits tr₂) ?_
  rw [htr, hits_append, hl, hk, Nat.add_comm, List.replicate_add]
  simp [List.replicate]

/-- The score stays within its bounds if it can meet `track_after` or counts one hit at most. -/
theorem score_bounds (hmake : make lib nId2 threshold after every = .ok s₀)
    (hrun : Machine.Run (step lib) s₀ tr s)
    (hcount : 1 ≤ after ∨ HitLock.trailing (hits tr) ≤ 1) :
    0 ≤ s.tracking.score ∧ s.tracking.score ≤ max 1 after := by
  have hscore := (score_of_run hmake hrun).2
  split at hscore <;> omega

/-- Before a hit that is counted the score is below its bound. -/
theorem score_lt_of_hit (hmake : make lib nId2 threshold after every = .ok s₀)
    (hrun : Machine.Run (step lib) s₀ tr s)
    (hcount : 1 ≤ after ∨ HitLock.trailing (hits tr) = 0)
    (hopen : ¬ (s.tracking.isTracking = true ∧ s.tracking.score = after)) :
    s.tracking.score < max 1 after := by
  obtain ⟨htracking, hscore⟩ := score_of_run hmake hrun
  rw [htracking] at hopen
  split at hscore <;> omega

/-- Two hits in a row take the score of a block with a `track_after` that is not positive past
one. -/
theorem noTwoHits_of_score (hafter : after < 1)
    (hmake : make lib nId2 threshold after every = .ok s₀)
    (hrun : Machine.Run (step lib) s₀ tr s)
    (hscore : ∀ t ∈ tr, t.post.tracking.score ≤ max 1 after) : NoTwoHits tr := by
  intro l₁ l₂ hhits
  -- cut the trace after the second of the two hits
  have hlong : l₁.length + 1 < numCalls tr := by
    rw [← length_hits, hhits]
    simp
  obtain ⟨tr₁, t, tr₂, c, rfl, hcall, hcount⟩ := exists_call_at hlong
  obtain ⟨hpre, hstep, -⟩ := hrun.at_transition
  have hcut : hits (tr₁ ++ [t]) = l₁ ++ [true] ++ [true] := by
    have hlen : (hits (tr₁ ++ [t])).length = (l₁ ++ [true] ++ [true]).length := by
      rw [length_hits, numCalls_append, hcount, numCalls_singleton_of_call hcall]
      simp
    have hwhole : hits (tr₁ ++ [t]) ++ hits tr₂ = l₁ ++ [true] ++ [true] ++ l₂ := by
      rw [← hits_append, ← List.append_cons, hhits]
      simp
    exact (List.append_inj hwhole hlen).1
  -- there the score is at least two
  have hpost := (score_of_run hmake (hpre.snoc hstep)).2
  rw [if_neg (by omega), hcut, HitLock.trailing_concat_hit, HitLock.trailing_concat_hit] at hpost
  have := hscore t (by simp)
  omega

/-! ### The timer -/

omit [FloatOps F] in
/-- A timer within its bounds is within them after the correlation or the countdown. -/
theorem findFrame_timer_bounds (lib : PssLib F S Det Tab) (c : Call S)
    (hlow : 0 ≤ s.tracking.timer)
    (hhigh : s.tracking.timer ≤ s.trackEveryNFrames) :
    0 ≤ (findFrame lib s c).tracking.timer ∧
      (findFrame lib s c).tracking.timer ≤ s.trackEveryNFrames := by
  rw [findFrame_timer]
  split
  · omega
  · -- the timer is only decremented when it is not zero
    rename_i hskip
    simp only [findsPss, not_or] at hskip
    omega

/-- The timer stays within its bounds. -/
theorem timer_bounds (hevery : 0 ≤ every)
    (hmake : make lib nId2 threshold after every = .ok s₀)
    (hrun : Machine.Run (step lib) s₀ tr s) :
    0 ≤ s.tracking.timer ∧ s.tracking.timer ≤ every := by
  induction hrun with
  | nil =>
    obtain ⟨_, _, _, -, -, -, rfl⟩ := make_eq hmake
    exact ⟨le_rfl, hevery⟩
  | snoc hpre hstep ih =>
    have hcounts := (counts_of_run hmake hpre).2
    rcases step_cases hstep with ⟨c, w, -, -, hw⟩ | ⟨threshold, -, -, rfl⟩
    · have hfound := findFrame_timer_bounds lib c ih.1 (by omega)
      rw [hcounts] at hfound
      rcases generalWork_timer hw with htimer | hrestart
      · rwa [htimer]
      · -- a reset sets the timer to zero
        rw [hrestart]
        exact ⟨le_rfl, hevery⟩
    · exact ih

/-- A stretch of calls that skip the correlation uses up the timer. -/
theorem numCalls_le_timer (hrun : Machine.Run (step lib) s tr s') (hlow : 0 ≤ s.tracking.timer)
    (hskip : ∀ t ∈ tr, ∀ c, t.input = .work c → ¬ t.pre.findsPss) :
    0 ≤ s'.tracking.timer ∧ numCalls tr + s'.tracking.timer ≤ s.tracking.timer := by
  induction hrun with
  | nil => exact ⟨hlow, by simp [numCalls]⟩
  | @snoc tr u u' i o _ hstep ih =>
    obtain ⟨hu, hcount⟩ := ih fun t ht => hskip t (List.mem_append_left _ ht)
    rcases step_cases hstep with ⟨c, w, rfl, -, hw⟩ | ⟨threshold, rfl, -, rfl⟩
    · -- every call of the stretch counts the timer down, or a reset sets it to zero
      have hno : ¬ u.findsPss := hskip ⟨u, .work c, o, u'⟩ (by simp) c rfl
      have htimer : (findFrame lib u c).tracking.timer = u.tracking.timer - 1 := by
        rw [findFrame_timer, if_neg hno]
      simp only [findsPss, not_or] at hno
      rw [numCalls_append, numCalls_singleton_of_call rfl]
      rcases generalWork_timer hw with heq | hrestart
      · omega
      · rw [hrestart]
        simp only
        omega
    · simpa [numCalls, Event.isCall, setPsrThreshold] using ⟨hu, hcount⟩

/-- Without a call the block has the timer it was constructed with. -/
theorem timer_of_no_calls (hmake : make lib nId2 threshold after every = .ok s₀)
    (hrun : Machine.Run (step lib) s₀ tr s) (hno : numCalls tr = 0) : s.tracking.timer = 0 := by
  induction hrun with
  | nil =>
    obtain ⟨_, _, _, -, -, -, rfl⟩ := make_eq hmake
    rfl
  | snoc _ hstep ih =>
    rw [numCalls_append] at hno
    rcases step_cases hstep with ⟨c, w, rfl, -, -⟩ | ⟨threshold, -, -, rfl⟩
    · rw [numCalls_singleton_of_call rfl] at hno
      omega
    · exact ih (by omega)

/-- The first call of a run stores `track_every` in the timer. -/
theorem every_nonneg_of_found (hmake : make lib nId2 threshold after every = .ok s₀)
    (hrun : Machine.Run (step lib) s₀ tr s)
    (hfound : ∀ t ∈ tr, ∀ c, t.input = .work c → 0 ≤ (findFrame lib t.pre c).tracking.timer)
    (hcalls : numCalls tr ≠ 0) : 0 ≤ every := by
  obtain ⟨tr₁, t, tr₂, c, rfl, hcall, hcount⟩ := exists_call_at (Nat.pos_of_ne_zero hcalls)
  obtain ⟨hpre, -, -⟩ := hrun.at_transition
  -- no call before it, so no hit before it, and the block is not tracking yet
  have hnone : hits tr₁ = [] := by
    rw [← List.length_eq_zero_iff, length_hits, hcount]
  have hfinds : t.pre.findsPss := by
    left
    rw [(score_of_run hmake hpre).1, hnone, HitLock.trailing_nil]
    omega
  have := hfound t (by simp) c hcall
  rw [findFrame_timer, if_pos hfinds, (counts_of_run hmake hpre).2] at this
  exact this

/-- Where a call is made the timer stays within its bounds, so that it can be decremented
unless it is zero. -/
theorem timer_bounds_of_call (hevery : 0 ≤ every)
    (hmake : make lib nId2 threshold after every = .ok s₀)
    (hrun : Machine.Run (step lib) s₀ tr s) (c : Call S) :
    (0 ≤ (findFrame lib s c).tracking.timer ∧ (findFrame lib s c).tracking.timer ≤ every) ∧
      (¬ s.findsPss → 0 ≤ s.tracking.timer - 1 ∧ s.tracking.timer - 1 < every) := by
  obtain ⟨hlow, hhigh⟩ := timer_bounds hevery hmake hrun
  have hcounts := (counts_of_run hmake hrun).2
  have hfound := findFrame_timer_bounds lib c hlow (by omega)
  refine ⟨by omega, fun hskip => ?_⟩
  simp only [findsPss, not_or] at hskip
  omega

/-! ### Both counters -/

/-- The counters of a run stay within their bounds if `track_every` is not negative, unless no
call is made at all, and `track_after` is positive, unless no two calls in a row end over the
threshold. -/
theorem countersBounded_of_run (hafter : IsInt after) (hevery : IsInt every)
    (hmake : make lib nId2 threshold after every = .ok s₀)
    (hrun : Machine.Run (step lib) s₀ tr s) (hcountdown : 0 ≤ every ∨ numCalls tr = 0)
    (hcount : 1 ≤ after ∨ NoTwoHits tr) : CountersBounded lib after every tr := by
  have hone {tr₁ tr₂ : List (Transition F S Det Tab)} (htr : tr = tr₁ ++ tr₂) :
      1 ≤ after ∨ HitLock.trailing (hits tr₁) ≤ 1 :=
    hcount.imp_right fun h => trailing_le_one h htr
  -- where there is a call, `track_every` is not negative
  have hnonneg {t : Transition F S Det Tab} {c : Call S} (ht : t ∈ tr)
      (hc : t.input = .work c) : 0 ≤ every := by
    refine hcountdown.resolve_right fun hno => ?_
    have := List.countP_eq_zero.mp hno t ht
    simp [hc, Event.isCall] at this
  -- score, timer, timer before the update, `score++`, `timer--`, stretches without a correlation
  refine ⟨fun t ht => ?_, fun t ht => ?_, fun t ht c hc => ?_, fun t ht c hc hhit hopen => ?_,
    fun t ht c hc hskip => ?_, fun tr₁ tr₂ tr₃ htr hskip => ?_⟩
  · obtain ⟨-, tr₁, tr₂, htr, -, hpost⟩ := hrun.cut_at_mem ht
    exact score_bounds hmake hpost (hone htr)
  · obtain ⟨-, tr₁, tr₂, htr, -, hpost⟩ := hrun.cut_at_mem ht
    rcases hcountdown with hpos | hno
    · have := timer_bounds hpos hmake hpost
      omega
    · rw [htr, numCalls_append] at hno
      have := timer_of_no_calls hmake hpost (by omega)
      omega
  · obtain ⟨-, tr₁, tr₂, -, hpre, -⟩ := hrun.cut_at_mem ht
    have := (timer_bounds_of_call (hnonneg ht hc) hmake hpre c).1
    omega
  · obtain ⟨-, tr₁, tr₂, htr, hpre, -⟩ := hrun.cut_at_mem ht
    -- the hit itself is one of those in a row
    have hfew : 1 ≤ after ∨ HitLock.trailing (hits tr₁) = 0 := by
      refine (hone htr).imp_right fun h => ?_
      rw [hits_append, hits_singleton_of_call hc, decide_eq_true hhit,
        HitLock.trailing_concat_hit] at h
      omega
    have hlow := (score_bounds hmake hpre (hfew.imp_right fun h => by omega)).1
    have := score_lt_of_hit hmake hpre hfew hopen
    obtain ⟨-, hmax⟩ := hafter
    exact ⟨by omega, by omega⟩
  · obtain ⟨-, tr₁, tr₂, -, hpre, -⟩ := hrun.cut_at_mem ht
    have := (timer_bounds_of_call (hnonneg ht hc) hmake hpre c).2 hskip
    obtain ⟨-, hmax⟩ := hevery
    exact ⟨by omega, by omega⟩
  · subst htr
    rcases hcountdown with hpos | hno
    · obtain ⟨s₁, hpre, hrest⟩ := (List.append_assoc tr₁ tr₂ tr₃ ▸ hrun).split
      obtain ⟨s₂, hstretch, -⟩ := hrest.split
      have hbounds := timer_bounds hpos hmake hpre
      have := numCalls_le_timer hstretch hbounds.1 hskip
      omega
    · rw [numCalls_append, numCalls_append] at hno
      omega

/-- The counters of a run stay within their bounds exactly when `track_every` is not negative,
unless no call is made at all, and `track_after` is positive, unless no two calls in a row end
over the threshold. -/
theorem counters_bounded_iff (hafter : IsInt after) (hevery : IsInt every)
    (hmake : make lib nId2 threshold after every = .ok s₀)
    (hrun : Machine.Run (step lib) s₀ tr s) :
    CountersBounded lib after every tr ↔
      (0 ≤ every ∨ numCalls tr = 0) ∧ (1 ≤ after ∨ NoTwoHits tr) := by
  constructor
  · intro h
    refine ⟨?_, ?_⟩
    · rw [or_iff_not_imp_right]
      exact every_nonneg_of_found hmake hrun fun t ht c hc => (h.found t ht c hc).1
    · rw [or_iff_not_imp_left]
      intro hneg
      exact noTwoHits_of_score (by omega) hmake hrun fun t ht => (h.score t ht).2
  · rintro ⟨hcountdown, hcount⟩
    exact countersBounded_of_run hafter hevery hmake hrun hcountdown hcount

/-- Both counters are used: two hits fill the score, two calls run the timer down, and the fifth one
correlates and sets it again. -/
theorem counters_bounded_playback :
    ∃ tr s, Machine.Run (step (.playback Unit [(960, 5), (960, 5), (960, 5)]))
        (.playback [(960, 5), (960, 5), (960, 5)] 1 2 2) tr s ∧
      numCalls tr = 5 ∧ s.tracking = { isTracking := true, score := 2, timer := 2 } ∧
      CountersBounded (.playback Unit [(960, 5), (960, 5), (960, 5)]) 2 2 tr := by
  obtain ⟨tr, s, hexec, hcalls, htracking⟩ : ∃ tr s,
      Machine.exec (step (.playback Unit [(960, 5), (960, 5), (960, 5)]))
        (.playback [(960, 5), (960, 5), (960, 5)] 1 2 2)
        (List.replicate 5 (.work (Call.minimal (fun _ => ()) 0))) = some (tr, s) ∧
      numCalls tr = 5 ∧ s.tracking = { isTracking := true, score := 2, timer := 2 } :=
    ⟨_, _, rfl, rfl, rfl⟩
  have hrun := Machine.Run.of_exec hexec
  exact ⟨tr, s, hrun, hcalls, htracking, (counters_bounded_iff (by decide) (by decide)
    (make_playback Unit _ 1 2 2) hrun).mpr ⟨.inl (by decide), .inl (by decide)⟩⟩

/-- With `track_after` zero the score counts the second hit in a row as well. -/
theorem score_past_bound :
    ¬ ∀ (correlations : List (ℕ × ℤ)) (threshold after every : ℤ), IsInt after → IsInt every →
      ∀ tr s, Machine.Run (step (.playback Unit correlations))
        (.playback correlations threshold after every) tr s →
        CountersBounded (.playback Unit correlations) after every tr := by
  intro h
  have hfirst : Machine.Run (step (.playback Unit [(960, 5), (960, 5)]))
      (.playback [(960, 5), (960, 5)] 1 0 8) _ _ :=
    .snoc (i := .work (Call.minimal (fun _ => ()) 0)) .nil rfl
  have hrun := Machine.Run.snoc (i := .work (Call.minimal (fun _ => ()) 0)) hfirst rfl
  have hbounded := h _ _ _ _ (by decide) (by decide) _ _ hrun
  have hscore := (hbounded.score _ (List.mem_append_right _ (List.mem_singleton_self _))).2
  revert hscore
  decide

end PssImpl

end LteTrigger
