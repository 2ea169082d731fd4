import LteTrigger.Pss.Alignment
import LteTrigger.Pss.Score

/-!
# Progress of the `pss` block

A peak lies in the half-frame searched or at most one symbol past it, so a half-frame starts at
most one slot before `in[0]` and ends before the least window does. A call consumes up to the
end of what it sends, so every call goes on by at least nine slots, and so do the half-frames
sent one after the other.

## Main results

* `frameStart_bounds`, `nconsume_bounds`: where a call sends from, and what it consumes;
* `nitemsRead_ge`: what a run consumes;
* `progress`: no call stalls, no half-frame goes back, and the input is used up in time.
-/

namespace LteTrigger

namespace PssImpl

variable {F S Det Tab : Type} [FloatOps F] {lib : PssLib F S Det Tab}
  {s s' s₀ : PssImpl F Det Tab} {c : Call S} {w : Work S} {e : Emission S}
  {tr tr₁ tr₂ : List (Transition F S Det Tab)} {t : Transition F S Det Tab}

/-- The peaks that `srslte_pss_find_pss` returns are in its range. -/
def PeaksInRange (lib : PssLib F S Det Tab) : Prop :=
  ∀ det samples, 0 ≤ (lib.findPss det samples).peakPos ∧
    (lib.findPss det samples).peakPos < halfFrameLength + symbolSz

omit [FloatOps F] in
/-- The peak that a call goes by is in range, whether it is new or carried over. -/
theorem peakPos_bounds (h : Aligned lib tr s) (hpeak : PeaksInRange lib) (c : Call S) :
    0 ≤ (findFrame lib s c).peakPos ∧
      (findFrame lib s c).peakPos < halfFrameLength + symbolSz := by
  by_cases hfinds : s.findsPss
  · rw [findFrame_peakPos_of_findsPss hfinds]
    exact hpeak _ _
  · -- only a tracking block carries its peak over, and it has it one slot in
    have htracking : s.tracking.isTracking = true := by
      by_contra hflag
      exact hfinds (.inl hflag)
    rw [findFrame_peakPos_of_not_findsPss hfinds, h.peakPos htracking]
    decide

/-- A half-frame starts at most one slot before `in[0]`, and early enough to end in the least
window. -/
theorem frameStart_bounds (h : Aligned lib tr s) (hpeak : PeaksInRange lib)
    (hw : generalWork lib s c = .ok (s', .emit e)) :
    -960 ≤ e.frameStart ∧ e.frameStart < 8768 := by
  obtain ⟨hlow, hhigh⟩ := peakPos_bounds h hpeak c
  rw [(generalWork_emit hw).1]
  simp only [halfFrameLength, slotLength, symbolSz] at *
  omega

/-- The least window the scheduler offers is longer than what any call consumes. -/
theorem ninputItems_ge (c : Call S) : 19199 ≤ c.ninputItems := by
  obtain ⟨k, hk, hnoutput⟩ := c.output_multiple
  have hforecast := c.forecast
  -- the window holds the history and at least one half-frame
  simp only [history, halfFrameLength, slotLength] at *
  omega

/-- A call consumes at least nine slots and less than its window. -/
theorem nconsume_bounds (h : Aligned lib tr s) (hpeak : PeaksInRange lib)
    (hw : generalWork lib s c = .ok (s', w)) :
    8640 ≤ w.nconsume ∧ w.nconsume < c.ninputItems := by
  have hwindow := ninputItems_ge c
  cases w with
  | emit e =>
    -- a half-frame that is sent is consumed up to its end, wherever it starts
    have hstart := frameStart_bounds h hpeak hw
    simp only [Work.nconsume, halfFrameLength, slotLength]
    omega
  | drop =>
    simp only [Work.nconsume, halfFrameLength, slotLength]
    omega

/-- The half-frame that a call copies begins inside the window, and the number of items to be
consumed passes its assertion, also in a call that throws later on. -/
theorem copyRange_bounds (h : Aligned lib tr s) (hpeak : PeaksInRange lib) {lo hi : ℤ}
    (hcopy : copyRange lib s c = some (lo, hi)) :
    0 ≤ lo ∧ hi - ((history : ℤ) - 1) < c.ninputItems := by
  have hwindow := ninputItems_ge c
  obtain ⟨hlow, hhigh⟩ := peakPos_bounds h hpeak c
  simp only [copyRange] at hcopy
  split at hcopy
  · cases hcopy
    simp only [history, halfFrameLength, slotLength, symbolSz] at *
    omega
  · cases hcopy

section Runs

variable {nId2 : ℤ} {threshold : F} {after every : ℤ}

/-- A call of a run consumes at least nine slots. -/
theorem consumed_ge (hpeak : PeaksInRange lib)
    (hmake : make lib nId2 threshold after every = .ok s₀)
    (hrun : Machine.Run (step lib) s₀ tr t.pre)
    (hstep : step lib t.pre t.input = .ok (t.post, t.output)) :
    8640 * (numCalls [t] : ℤ) ≤ consumed t := by
  rcases step_cases hstep with ⟨c, w, hc, ho, hw⟩ | ⟨threshold, hc, ho, -⟩
  · rw [numCalls_singleton_of_call hc, consumed, ho]
    simpa using (nconsume_bounds (aligned_of_run hmake hrun) hpeak hw).1
  · -- a new threshold consumes nothing
    simp [numCalls, Event.isCall, consumed, hc, ho]

/-- A run consumes at least nine slots for every call in it. -/
theorem nitemsRead_ge (hpeak : PeaksInRange lib)
    (hmake : make lib nId2 threshold after every = .ok s₀)
    (hrun : Machine.Run (step lib) s₀ (tr₁ ++ tr₂) s) :
    8640 * (numCalls tr₂ : ℤ) ≤ nitemsRead tr₂ := by
  induction tr₂ using List.reverseRecOn generalizing s with
  | nil => simp [numCalls, nitemsRead]
  | append_singleton tr₂ t ih =>
    rw [← List.append_assoc] at hrun
    obtain ⟨hpre, hstep, -⟩ := hrun.last
    -- nine slots for the last call, and by induction for those before it
    have hlast := consumed_ge hpeak hmake hpre hstep
    have hbefore := ih hpre
    rw [numCalls_append, nitemsRead_append, nitemsRead_singleton]
    push_cast
    omega

/-- The windows of a trace are cut from an input of `n` samples. -/
def WithinInput (tr : List (Transition F S Det Tab)) (n : ℕ) : Prop :=
  ∀ tr₁ t tr₂ c, tr = tr₁ ++ t :: tr₂ → t.input = .work c →
    nitemsRead tr₁ + (c.ninputItems - ((history : ℤ) - 1)) ≤ n

/-- In every reachable state a call consumes at least 8640 items and less than its window, which
is what the assertion on `nconsume` says, and it reads nothing before the window. The half-frames
of a run start at least 8640 samples apart, so that two of them share at most 960. An input of
`n` samples is used up in at most `n / 8640 + 1` calls. -/
theorem progress (hpeak : PeaksInRange lib)
    (hmake : make lib nId2 threshold after every = .ok s₀)
    (hrun : Machine.Run (step lib) s₀ tr s) :
    (∀ c lo hi, copyRange lib s c = some (lo, hi) →
      0 ≤ lo ∧ hi - ((history : ℤ) - 1) < c.ninputItems) ∧
    (∀ c s' w, generalWork lib s c = .ok (s', w) →
      8640 ≤ w.nconsume ∧ w.nconsume < c.ninputItems) ∧
    (∀ tr₁ t tr₂ u tr₃ e e', tr = tr₁ ++ t :: (tr₂ ++ u :: tr₃) →
      t.output = some (.emit e) → u.output = some (.emit e') →
      nitemsRead tr₁ + e.frameStart + 8640 ≤ nitemsRead (tr₁ ++ t :: tr₂) + e'.frameStart) ∧
    (∀ n, WithinInput tr n → numCalls tr ≤ n / 8640 + 1) := by
  have haligned := aligned_of_run hmake hrun
  refine ⟨fun c lo hi => copyRange_bounds haligned hpeak,
    fun c s' w => nconsume_bounds haligned hpeak, ?_, fun n hinput => ?_⟩
  · rintro tr₁ t tr₂ u tr₃ e e' rfl he he'
    -- cut the run before the second half-frame
    rw [← List.cons_append, ← List.append_assoc] at hrun
    obtain ⟨hpre, hstep, -⟩ := hrun.at_transition
    -- the first half-frame is consumed, and so is what is read before the second
    rw [List.append_cons] at hpre
    have hbetween := nitemsRead_ge hpeak hmake hpre
    have hconsumed : consumed t = e.frameStart + 9600 := by
      rw [consumed, he]
      rfl
    rcases step_cases hstep with ⟨c, w, -, ho, hw⟩ | ⟨threshold, -, ho, -⟩
    · obtain rfl : w = .emit e' := Option.some.inj (ho.symm.trans he')
      have hstart := frameStart_bounds (aligned_of_run hmake hpre) hpeak hw
      rw [List.append_cons, nitemsRead_append, nitemsRead_append, nitemsRead_singleton]
      omega
    · simp [ho] at he'
  · rcases Nat.eq_zero_or_pos (numCalls tr) with hnone | hsome
    · omega
    · -- the last call still had a half-frame of input to read
      obtain ⟨tr₁, t, tr₂, c, rfl, hc, hcount⟩ :=
        exists_call_at (show numCalls tr - 1 < numCalls tr by omega)
      obtain ⟨hpre, -, -⟩ := hrun.at_transition
      have hlast := hinput tr₁ t tr₂ c rfl hc
      have hwindow := ninputItems_ge c
      rw [← List.nil_append tr₁] at hpre
      have hread := nitemsRead_ge hpeak hmake hpre
      simp only [history, halfFrameLength, slotLength] at hlast
      omega

/-- A block over a detector that always reports its peak at 960 sends two half-frames in a row,
and the second starts far enough after the first. -/
theorem progress_playback :
    let lib := { PssLib.playback Unit [] with findPss := fun det _ => ⟨960, 5, det⟩ }
    ∃ tr₁ t u s e e', Machine.Run (step lib) (.playback [] 1 1 8) (tr₁ ++ t :: ([] ++ [u])) s ∧
      t.output = some (.emit e) ∧ u.output = some (.emit e') ∧
      nitemsRead tr₁ + e.frameStart + 8640 ≤ nitemsRead (tr₁ ++ [t]) + e'.frameStart := by
  intro lib
  have hpeak : PeaksInRange lib := by
    intro det samples
    show 0 ≤ (960 : ℤ) ∧ (960 : ℤ) < halfFrameLength + symbolSz
    decide
  have hmake : make lib 0 1 1 8 = .ok (.playback [] 1 1 8) := rfl
  have hfirst : Machine.Run (step lib) (.playback [] 1 1 8) _ _ :=
    .snoc (i := .work (Call.minimal (fun _ => ()) 0)) .nil rfl
  have hrun := Machine.Run.snoc (i := .work (Call.minimal (fun _ => ()) 9600)) hfirst rfl
  exact ⟨[], _, _, _, _, _, hrun, rfl, rfl,
    (progress hpeak hmake hrun).2.2.1 [] _ [] _ [] _ _ rfl rfl rfl⟩

end Runs

end PssImpl

end LteTrigger
