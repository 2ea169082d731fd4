import LteTrigger.Trigger.Soundness

/-!
# The thresholds of the trigger

`set_psr_threshold` sets the three `pss` blocks one after the other, between calls of the
scheduler. Meanwhile the rows have the new threshold or the one before it. All thresholds that are
ever in force have passed `_ensure_safe_threshold`, which replaces what is not above
`MIN_PSR_THRESHOLD`, a NaN included.

## Main definitions

* `SafeThreshold`: what `_ensure_safe_threshold` returns;
* `DownlinkTrigger.ThresholdsFollow`: the thresholds of the rows between two steps.

## Main results

* `DownlinkTrigger.thresholdsFollow_run`: the thresholds of the rows at any time of a run;
* `DownlinkTrigger.threshold_safe`: no row follows a cell below `MIN_PSR_THRESHOLD`.
-/

namespace LteTrigger

/-- A threshold above `MIN_PSR_THRESHOLD`, or that one. -/
def SafeThreshold {D : Type} [FloatOps D] (t : D) : Prop :=
  minPsrThreshold D < t ∨ t = minPsrThreshold D

/-- No law of the comparison is needed. -/
theorem safeThreshold_ensure {D : Type} [FloatOps D] (t : D) :
    SafeThreshold (ensureSafeThreshold t) := by
  unfold ensureSafeThreshold
  split
  · exact .inl ‹_›
  · exact .inr rfl

/-- A call that ends in tracking state ends over the threshold. -/
theorem PssImpl.over_of_tracking {F S Det Tab : Type} [FloatOps F] {lib : PssLib F S Det Tab}
    {s s' : PssImpl F Det Tab} {c : Call S} {w : Work S} (h : s.Coherent)
    (hw : generalWork lib s c = .ok (s', w)) (htracking : s'.tracking.isTracking = true) :
    s.psrThreshold < s'.psr := by
  obtain ⟨-, hphase, -⟩ := generalWork_refines h hw
  by_contra hmiss
  -- a miss unlocks
  rw [lockStep, decide_eq_false hmiss, HitLock.next_miss, Tracking.phase, htracking] at hphase
  cases hphase

namespace DownlinkTrigger

variable {D F S Det Tab Sync Dec : Type} [FloatOps D] [FloatOps F]
  {lib : TriggerLib D F S Det Tab Sync Dec} {psrThreshold : D} {exitOnSuccess : Bool}
  {memory : Fin 3 → MibMemory Dec} {s s' s₀ : DownlinkTrigger D F S Det Tab Sync Dec}
  {e : TriggerEvent D S} {o : TriggerWork F S}
  {tr : List (Transition D F S Det Tab Sync Dec)} {t : Transition D F S Det Tab Sync Dec}

/-- The rows that `set_psr_threshold` has not set yet have the threshold of before, the others
have the new one. Both are safe. -/
structure ThresholdsFollow (lib : TriggerLib D F S Det Tab Sync Dec)
    (s : DownlinkTrigger D F S Det Tab Sync Dec) : Prop where
  safe : SafeThreshold s.psrThreshold
  nodup : s.setting.Nodup
  rows : ∃ before, SafeThreshold before ∧ ∀ i, (s.rows i).pss.psrThreshold =
    lib.toFloat (if i ∈ s.setting then before else s.psrThreshold)

omit [FloatOps D] in
/-- An event of a row other than a new threshold keeps its threshold. -/
theorem rowEvent_psrThreshold [GnuRadio] {i : Fin 3} {event : RowEvent F S} {work : RowWork S}
    {r r' : Row F S Det Tab Sync Dec} (he : e.rowEvent = some (i, event))
    (h : Row.step lib.toChainLib r event = .ok (r', work)) :
    r'.pss.psrThreshold = r.pss.psrThreshold := by
  rcases Row.step_cases h with
    ⟨pssEvent, tags, foreign, w, rfl, hpss, -, -⟩ | ⟨stale, frame, toSss, -, -, -, hr⟩ |
    ⟨more, now, fresh, first, rest, w, -, -, -, -, -, -, hr⟩
  · rcases PssImpl.step_cases hpss with ⟨c, w, -, -, hw⟩ | ⟨threshold, rfl, -, -⟩
    · exact (PssImpl.generalWork_spec hw).2.1
    · -- the scheduler does not set a threshold
      cases e <;> simp [TriggerEvent.rowEvent] at he
  · rw [hr]
  · rw [hr]

/-- Every event keeps the thresholds as `set_psr_threshold` leaves them. -/
theorem ThresholdsFollow.step [GnuRadio] (h : ThresholdsFollow lib s)
    (hstep : step lib s e = .ok (s', o)) : ThresholdsFollow lib s' := by
  obtain ⟨before, hbefore, hrows⟩ := h.rows
  rcases step_cases hstep with
    ⟨i, event, work, he, -, hrow, hs⟩ | ⟨t, -, hsetting, -, rfl⟩ |
    ⟨i, setting, -, hsetting, -, rfl⟩
  · have hsame (j : Fin 3) : (s'.rows j).pss.psrThreshold = (s.rows j).pss.psrThreshold := by
      by_cases hj : j = i
      · rw [hj]
        exact rowEvent_psrThreshold he hrow
      · have hother : s'.rows j = s.rows j := by
          rw [hs]
          exact Function.update_of_ne hj _ _
        rw [hother]
    refine ⟨by rw [hs]; exact h.safe, by rw [hs]; exact h.nodup, before, hbefore, fun j => ?_⟩
    rw [hsame, hrows j, hs]
  · -- all rows have the threshold of before
    refine ⟨safeThreshold_ensure t, by simp, s.psrThreshold, h.safe, fun j => ?_⟩
    have hall : j ∈ ([0, 1, 2] : List (Fin 3)) := by decide +revert
    rw [if_pos hall]
    simpa [hsetting] using hrows j
  · have hnodup := h.nodup
    rw [hsetting, List.nodup_cons] at hnodup
    refine ⟨h.safe, hnodup.2, before, hbefore, fun j => ?_⟩
    by_cases hj : j = i
    · subst hj
      simp [hnodup.1, PssImpl.setPsrThreshold]
    · have hrow := hrows j
      simpa only [hsetting, List.mem_cons, hj, false_or, ne_eq, not_false_eq_true,
        Function.update_of_ne] using hrow

/-- At any time of a run the rows that are still to be set have the threshold of before, and the
others have the new one. -/
theorem thresholdsFollow_run [GnuRadio]
    (hmake : make lib psrThreshold exitOnSuccess memory = .ok s₀)
    (hrun : Machine.Run (DownlinkTrigger.step lib) s₀ tr s) : ThresholdsFollow lib s := by
  obtain ⟨hthreshold, hsetting, hrows⟩ := make_rows hmake
  refine hrun.invariant ⟨?_, ?_, s₀.psrThreshold, ?_, fun i => ?_⟩ fun _ _ _ _ hs => hs.step
  · rw [hthreshold]
    exact safeThreshold_ensure psrThreshold
  · rw [hsetting]
    exact List.nodup_nil
  · rw [hthreshold]
    exact safeThreshold_ensure psrThreshold
  · obtain ⟨pss, sss, mib, calls, hrow, hpss, -⟩ := hrows i
    obtain ⟨_, _, _, -, -, -, rfl⟩ := PssImpl.make_eq hpss
    rw [hrow, hthreshold, ite_self]
    rfl

/-- In every run of the trigger, `set_psr_threshold` included, the threshold of every `pss` is at
all times one that is not below `MIN_PSR_THRESHOLD`. When no call of `set_psr_threshold` is
running, all three have that of the trigger. When a half-frame goes out in tracking state, the ratio
of the last correlation is over such a threshold. -/
theorem threshold_safe [GnuRadio]
    (hmake : make lib psrThreshold exitOnSuccess memory = .ok s₀)
    (hrun : Machine.Run (DownlinkTrigger.step lib) s₀ tr s) :
    (∀ i, ∃ safe, SafeThreshold safe ∧ (s.rows i).pss.psrThreshold = lib.toFloat safe) ∧
    (s.setting = [] → ∀ i, (s.rows i).pss.psrThreshold = lib.toFloat s.psrThreshold) ∧
    (∀ t ∈ tr, ∀ i u e, rowPart i t = some u → (e, true) ∈ Row.emitted u →
      ∃ safe, SafeThreshold safe ∧ lib.toFloat safe < (t.post.rows i).pss.psr) := by
  have hsafe {s : DownlinkTrigger D F S Det Tab Sync Dec} (h : ThresholdsFollow lib s)
      (i : Fin 3) :
      ∃ safe, SafeThreshold safe ∧ (s.rows i).pss.psrThreshold = lib.toFloat safe := by
    obtain ⟨before, hbefore, hrows⟩ := h.rows
    rw [hrows i]
    split
    · exact ⟨_, hbefore, rfl⟩
    · exact ⟨_, h.safe, rfl⟩
  have hfollow := thresholdsFollow_run hmake hrun
  refine ⟨hsafe hfollow, fun hsetting i => ?_, fun t ht i u e hu he => ?_⟩
  · obtain ⟨before, -, hrows⟩ := hfollow.rows
    simpa [hsetting] using hrows i
  · obtain ⟨hstep, tr₁, tr₂, -, hpre, -⟩ := hrun.cut_at_mem ht
    obtain ⟨safe, hsafe, hthreshold⟩ := hsafe (thresholdsFollow_run hmake hpre) i
    obtain ⟨hpss, -⟩ := row_made hmake i
    obtain ⟨hupre, hupost, hrow⟩ := (isPart_row lib i).of_eq_some hstep hu
    have hcoherent : u.pre.pss.Coherent := by
      rw [hupre]
      exact PssImpl.coherent_of_run hpss ((Row.isPart_pss _).run (row_run hpre i))
    refine ⟨safe, hsafe, ?_⟩
    rw [← hthreshold, ← hupre, ← hupost]
    obtain ⟨k, hk⟩ := List.mem_iff_getElem?.mp he
    have hflag := (Row.emitted_of_getElem? hk).2.2
    rcases Row.step_cases hrow with
      ⟨event, _, _, work, -, hpss, ho, -⟩ | ⟨_, _, _, -, -, ho, -⟩ |
      ⟨_, _, _, _, _, _, -, -, -, -, -, ho, -⟩
    · rcases PssImpl.step_cases hpss with ⟨c, w, -, -, hw⟩ | ⟨threshold, -, rfl, -⟩
      · exact PssImpl.over_of_tracking hcoherent hw hflag
      · simp [Row.emitted, ho] at he
    · simp [Row.emitted, ho] at he
    · simp [Row.emitted, ho] at he

/-- A call of `set_psr_threshold` that has set the first of the rows. -/
theorem threshold_safe_playback :
    ∃ tr s, Machine.Run (DownlinkTrigger.step (.playback Unit [] 7))
        (.playback Unit [] 0 false [true]) tr s ∧
      (s.rows 0).pss.psrThreshold = 6 ∧ (s.rows 1).pss.psrThreshold = 1 ∧
      ∃ safe, SafeThreshold safe ∧ (s.rows 0).pss.psrThreshold = safe := by
  have hcalled : Machine.Run (DownlinkTrigger.step (.playback Unit [] 7))
      (.playback Unit [] 0 false [true]) _ _ := .snoc (i := .setPsrThreshold 6) .nil rfl
  have hrun := hcalled.snoc (i := .setNext) rfl
  exact ⟨_, _, hrun, rfl, rfl, (threshold_safe (make_playback Unit [] 7 0 false [true]) hrun).1 0⟩

end DownlinkTrigger

end LteTrigger
