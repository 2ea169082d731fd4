import LteTrigger.Pss.Score
import LteTrigger.RingBuffer.Log

/-!
# The rings of the `pss` block

`d_psr_data` and `d_cfo_data` are rings that every correlation, and every half-frame sent in
tracking state, adds a value to. `reset_score` rewinds both and means to clear them, but
`std::memset` counts bytes, and it clears 50 of the 200 floats. So what a reset leaves behind
depends on how many values were stored since the one before.

## Main definitions

* `resets`: the call executes the body of `reset_score`;
* `sinceReset`: the values stored since the last reset, oldest first;
* `BlankThroughout`: every slot not written since the last reset is zero, at all times;
* `ResetsClear`: no reset leaves a value behind.

## Main results

* `StoresIn.holds`: each ring holds the values stored since the last reset;
* `rings_blank_iff`: when the slots not written since the last reset are zero.
-/

namespace LteTrigger

namespace PssImpl

variable {F S Det Tab : Type} [FloatOps F]

section Logs

variable (lib : PssLib F S Det Tab)

/-- Whether the transition is a call that executes the body of `reset_score`. -/
def resets (t : Transition F S Det Tab) : Bool :=
  match t.input with
  | .work c => decide (findFrame lib t.pre c).LosesScore
  | .setPsrThreshold _ => false

/-- The ratio that a transition stores in `d_psr_data`, if it correlates. -/
def psrStored (t : Transition F S Det Tab) : List F :=
  match t.input with
  | .work c =>
    if t.pre.findsPss then [(lib.findPss t.pre.pss (c.halfFrame 0)).psr] else []
  | .setPsrThreshold _ => []

/-- The estimate that a transition stores in `d_cfo_data`, if it sends a half-frame in tracking
state. -/
def cfoStored (t : Transition F S Det Tab) : List F :=
  match t.input, t.output with
  | .work c, some (.emit e) =>
    if e.tagged then []
    else [(lib.pssCfoCompute (updateScore lib (findFrame lib t.pre c)).pss
      (pssSymbol e.copied)).1]
  | _, _ => []

/-- The values stored in a trace since the last reset. -/
def sinceReset (stored : Transition F S Det Tab → List F)
    (tr : List (Transition F S Det Tab)) : List F :=
  tr.foldl (fun log t => if resets lib t then [] else log ++ stored t) []

/-- A ring of the block stores the given values, and a reset clears it after that. -/
def StoresIn (ring : PssImpl F Det Tab → RingBuffer F movingAvgSz)
    (stored : Transition F S Det Tab → List F) : Prop :=
  ∀ t : Transition F S Det Tab, step lib t.pre t.input = .ok (t.post, t.output) →
    ring t.post =
      if resets lib t then memsetData ((stored t).foldl (.push lib.sizeWidth) (ring t.pre))
      else (stored t).foldl (.push lib.sizeWidth) (ring t.pre)

/-- After every transition of the trace, the slots of the ring that were not written since the
last reset hold zero. -/
def BlankThroughout (ring : PssImpl F Det Tab → RingBuffer F movingAvgSz)
    (stored : Transition F S Det Tab → List F) (tr : List (Transition F S Det Tab)) : Prop :=
  Machine.AtEach (fun tr₁ t =>
    (ring t.post).Blank lib.sizeWidth 0 (sinceReset lib stored (tr₁ ++ [t]))) tr

/-- At every reset of the trace, each value stored since the reset before that is the last one in
its slot is zero, unless the slot is among the first 50. -/
def ResetsClear (stored : Transition F S Det Tab → List F)
    (tr : List (Transition F S Det Tab)) : Prop :=
  Machine.AtEach (fun tr₁ t => resets lib t = true →
    RingBuffer.Clears lib.sizeWidth movingAvgSz (movingAvgSz / sizeofFloat) 0
      (sinceReset lib stored tr₁ ++ stored t)) tr

/-- Every slot of `d_psr_data` and of `d_cfo_data` that was not written since the last reset is
zero, after every transition of the trace. -/
def RingsBlank (tr : List (Transition F S Det Tab)) : Prop :=
  BlankThroughout lib PssImpl.psrData (psrStored lib) tr ∧
    BlankThroughout lib PssImpl.cfoData (cfoStored lib) tr

end Logs

section Runs

variable {lib : PssLib F S Det Tab} {s s₀ : PssImpl F Det Tab}
  {tr : List (Transition F S Det Tab)} {t : Transition F S Det Tab}
  {ring : PssImpl F Det Tab → RingBuffer F movingAvgSz}
  {stored : Transition F S Det Tab → List F}
  {nId2 : ℤ} {threshold : F} {after every : ℤ}

@[simp]
theorem sinceReset_nil : sinceReset lib stored [] = [] := rfl

@[simp]
theorem sinceReset_concat : sinceReset lib stored (tr ++ [t]) =
    if resets lib t then [] else sinceReset lib stored tr ++ stored t := by
  simp [sinceReset]

/-- A value stored since the last reset was stored in the trace. -/
theorem mem_flatMap_of_mem_sinceReset {a : F} (h : a ∈ sinceReset lib stored tr) :
    a ∈ tr.flatMap stored := by
  induction tr using List.reverseRecOn with
  | nil => simp at h
  | append_singleton tr t ih =>
    rw [sinceReset_concat] at h
    rw [List.flatMap_append, List.flatMap_singleton]
    split at h
    · simp at h
    · exact (List.mem_append.mp h).elim (fun h => List.mem_append_left _ (ih h))
        (List.mem_append_right _)

/-- The ratios are stored in `d_psr_data`. -/
theorem psrData_storesIn : StoresIn lib PssImpl.psrData (psrStored lib) := by
  intro t hstep
  rcases step_cases hstep with ⟨c, w, hc, -, hw⟩ | ⟨threshold, hc, -, hpost⟩
  · -- the correlation stores the ratio before the reset clears the buffer
    have hring : (psrStored lib t).foldl (.push lib.sizeWidth) t.pre.psrData =
        (findFrame lib t.pre c).psrData := by
      simp only [psrStored, hc, findFrame_psrData]
      split <;> rfl
    simp only [(generalWork_psr hw).2, resets, hc, hring, decide_eq_true_eq]
  · simp [resets, psrStored, hc, hpost, setPsrThreshold]

/-- The estimates are stored in `d_cfo_data`. -/
theorem cfoData_storesIn : StoresIn lib PssImpl.cfoData (cfoStored lib) := by
  intro t hstep
  rcases step_cases hstep with ⟨c, w, hc, ho, hw⟩ | ⟨threshold, hc, -, hpost⟩
  · -- a half-frame with the tag takes no estimate
    have hnone (htag : ∀ e, w = .emit e → e.tagged = true ∧ e.out = e.copied) :
        cfoStored lib t = [] := by
      cases w with
      | emit e => simp [cfoStored, hc, ho, (htag e rfl).1]
      | drop => simp [cfoStored, hc, ho]
    rcases generalWork_cfo hw with
      ⟨hloss, htag, hdata, -⟩ | ⟨hloss, htag, hdata, -⟩ | ⟨hloss, e, rfl, htag, hdata, -⟩
    · simp [hdata, resets, hc, hloss, hnone htag]
    · simp [hdata, resets, hc, hloss, hnone htag]
    · simp [hdata, resets, hc, hloss, cfoStored, ho, htag]
  · simp [resets, cfoStored, hc, hpost, setPsrThreshold]

/-- Each ring holds the values stored since the last reset. -/
theorem StoresIn.holds (h : StoresIn lib ring stored) (hinit : (ring s₀).count = 0)
    (hrun : Machine.Run (step lib) s₀ tr s) :
    (ring s).Holds lib.sizeWidth (sinceReset lib stored tr) := by
  induction hrun with
  | nil => exact RingBuffer.holds_of_count_zero _ hinit
  | @snoc tr u u' i o _ hstep ih =>
    rw [h ⟨u, i, o, u'⟩ hstep, sinceReset_concat]
    split
    · -- a reset rewinds the index
      exact RingBuffer.holds_of_count_zero _ rfl
    · exact ih.foldl_push _

/-- As long as the index has not wrapped, the slots not written since the last reset are those
from the index on. -/
theorem StoresIn.untouched_iff (h : StoresIn lib ring stored) (hinit : (ring s₀).count = 0)
    (hrun : Machine.Run (step lib) s₀ tr s)
    (hfew : (sinceReset lib stored tr).length < 2 ^ lib.sizeWidth) (j : Fin movingAvgSz) :
    RingBuffer.Untouched lib.sizeWidth (sinceReset lib stored tr) j ↔ (ring s).count ≤ j :=
  (h.holds hinit hrun).untouched_iff hfew j

/-- The ring after a trace is blank if it was after every transition. -/
theorem BlankThroughout.last (hblank : BlankThroughout lib ring stored tr)
    (hinit : (ring s₀).Blank lib.sizeWidth 0 []) (hrun : Machine.Run (step lib) s₀ tr s) :
    (ring s).Blank lib.sizeWidth 0 (sinceReset lib stored tr) := by
  cases hrun with
  | nil => exact hinit
  | snoc _ _ => exact (Machine.atEach_concat.mp hblank).2

/-- A ring is blank throughout a run exactly when the resets clear it. -/
theorem StoresIn.blank_iff (h : StoresIn lib ring stored) (hcount : (ring s₀).count = 0)
    (hinit : (ring s₀).Blank lib.sizeWidth 0 []) (hrun : Machine.Run (step lib) s₀ tr s) :
    BlankThroughout lib ring stored tr ↔ ResetsClear lib stored tr := by
  refine hrun.atEach_iff fun tr t hpre hstep hbefore => ?_
  have hholds := (h.holds hcount hpre).foldl_push (stored t)
  have hpushed := (BlankThroughout.last hbefore hinit hpre).foldl_push (h.holds hcount hpre)
    (stored t)
  rw [h t hstep, sinceReset_concat]
  cases hreset : resets lib t with
  | true =>
    -- the values stored by this call are cleared with those before
    simp only [↓reduceIte, true_imp_iff]
    exact hpushed.reset_iff hholds
  | false =>
    -- without a reset the ring stays blank
    simp only [Bool.false_eq_true, ↓reduceIte, false_imp_iff, iff_true]
    exact hpushed

/-- A reset finds at most 50 values stored since the last one, and so it clears them. -/
theorem resetsClear_of_length_le
    (hshort : Machine.AtEach (fun tr₁ t => resets lib t = true →
      (sinceReset lib stored tr₁ ++ stored t).length ≤ 50) tr) : ResetsClear lib stored tr :=
  fun tr₁ t tr₂ htr hreset => RingBuffer.clears_of_length_le (hshort tr₁ t tr₂ htr hreset)

/-- Both rings of a constructed block are rewound, and all of their slots are zero. -/
theorem make_rings (hmake : make lib nId2 threshold after every = .ok s₀) :
    s₀.psrData = .init 0 ∧ s₀.cfoData = .init 0 := by
  obtain ⟨_, _, _, -, -, -, rfl⟩ := make_eq hmake
  exact ⟨rfl, rfl⟩

/-- Every slot of the two rings that was not written since the last reset is zero, in every state
of a run, exactly when at each reset every stored value that is the last one in its slot is zero
or in one of the first 50 slots. At most 50 values between resets are enough for that. -/
theorem rings_blank_iff (hmake : make lib nId2 threshold after every = .ok s₀)
    (hrun : Machine.Run (step lib) s₀ tr s) :
    RingsBlank lib tr ↔
      ResetsClear lib (psrStored lib) tr ∧ ResetsClear lib (cfoStored lib) tr := by
  obtain ⟨hpsr, hcfo⟩ := make_rings hmake
  have hblank (u : RingBuffer F movingAvgSz) (hu : u = .init 0) :
      u.count = 0 ∧ u.Blank lib.sizeWidth 0 [] := by
    rw [hu]
    exact ⟨rfl, RingBuffer.blank_init _ _ _⟩
  exact and_congr
    (psrData_storesIn.blank_iff (hblank _ hpsr).1 (hblank _ hpsr).2 hrun)
    (cfoData_storesIn.blank_iff (hblank _ hcfo).1 (hblank _ hcfo).2 hrun)

/-- Two correlations and a loss: both rings are blank throughout. -/
theorem rings_blank_playback :
    ∃ tr s, Machine.Run (step (.playback Unit [(960, 5), (960, -1)]))
        (.playback [(960, 5), (960, -1)] 1 100 8) tr s ∧ numCalls tr = 2 ∧
      RingsBlank (.playback Unit [(960, 5), (960, -1)]) tr := by
  have hfirst : Machine.Run (step (.playback Unit [(960, 5), (960, -1)]))
      (.playback [(960, 5), (960, -1)] 1 100 8) _ _ :=
    .snoc (i := .work (Call.minimal (fun _ => ()) 0)) .nil rfl
  have hrun := Machine.Run.snoc (i := .work (Call.minimal (fun _ => ()) 0)) hfirst rfl
  refine ⟨_, _, hrun, rfl, (rings_blank_iff (make_playback Unit _ 1 100 8) hrun).mpr
    ⟨resetsClear_of_length_le ?_, resetsClear_of_length_le ?_⟩⟩
  all_goals
    rw [Machine.atEach_concat, Machine.atEach_concat]
    exact ⟨⟨Machine.atEach_nil, by decide⟩, by decide⟩

/-- After 51 correlations in a row and a loss, the ratio of the last of them is still in its
slot. -/
theorem reset_leaves_ratio :
    ¬ ∀ (correlations : List (ℕ × ℤ)) (threshold after every : ℤ) tr s,
      Machine.Run (step (.playback Unit correlations))
        (.playback correlations threshold after every) tr s →
      RingsBlank (.playback Unit correlations) tr := by
  intro h
  let correlations : List (ℕ × ℤ) := List.replicate 51 (960, 5) ++ [(960, -1)]
  -- nothing is stored since the reset, and slot 50 is not zero
  have hresult : (Machine.exec (step (.playback Unit correlations))
      (.playback correlations 1 100 8)
      (List.replicate 52 (.work (Call.minimal (fun _ => ()) 0)))).map (fun r =>
        (sinceReset (.playback Unit correlations) (psrStored (.playback Unit correlations)) r.1,
          r.2.psrData.data 50)) = some ([], 5) := by
    decide +kernel
  obtain ⟨⟨tr, s⟩, hexec, heq⟩ := Option.map_eq_some_iff.mp hresult
  obtain ⟨hlog, hdata⟩ := Prod.mk.inj heq
  have hrun := Machine.Run.of_exec hexec
  have hblank := (h _ _ _ _ _ _ hrun).1.last (RingBuffer.blank_init _ _ _) hrun
  rw [hlog] at hblank
  -- the log is empty, so slot 50 should have been cleared
  have hzero := hblank 50 (by simp [RingBuffer.Untouched])
  rw [hdata] at hzero
  exact absurd hzero (by decide)

end Runs

end PssImpl

end LteTrigger
