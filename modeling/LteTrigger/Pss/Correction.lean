import LteTrigger.Pss.Reacquisition
import LteTrigger.Pss.Rings

/-!
# The CFO correction of the `pss` block

`srslte_cfo_correct` keeps a table for the frequency of its last call and rebuilds it when the
frequency changes. `reset_score` sets `last_freq` to zero and leaves the table alone, so from
then on the table is the one for zero only if it was before. The first half-frame corrected
after a reset is rotated by the old table if its frequency is zero.

## Main definitions

* `CorrectsByTable`: what the block relies on of `srslte_cfo_init` and `srslte_cfo_correct`;
* `frequencies`: the frequencies a trace corrects by;
* `FramesCorrected`, `TableValid`: what the correction is meant to do;
* `StaleUnused`, `ResetsKeepTable`: when it does.

## Main result

* `correction_iff`: every half-frame is corrected by its own frequency exactly when no stale
  table is used, and the table is that of `last_freq` exactly when no reset makes it stale.
-/

namespace LteTrigger

namespace PssImpl

variable {F S Det Tab : Type} [FloatOps F]

/-- The corrector starts with the table for zero. It rotates by its table, which it rebuilds for
a frequency other than the last one. -/
structure CorrectsByTable (lib : PssLib F S Det Tab) (tableFor : F → Tab)
    (rotate : Tab → HalfFrame S → HalfFrame S) : Prop where
  init : ∀ n cfo, lib.cfoInit n = some cfo → cfo = ⟨0, tableFor 0⟩
  hit : ∀ cfo x, lib.cfoCorrect cfo x cfo.lastFreq = (rotate cfo.table x, cfo)
  miss : ∀ cfo x f, f ≠ cfo.lastFreq →
    lib.cfoCorrect cfo x f = (rotate (tableFor f) x, ⟨f, tableFor f⟩)

/-- The frequency that a half-frame sent in tracking state is corrected by: the mean includes
the estimate made on the half-frame itself. -/
def frequency (t : Transition F S Det Tab) : F := -t.post.meanCfo / (symbolSz : F)

/-- The frequency a transition corrects by, if it sends a half-frame in tracking state. -/
def corrected (t : Transition F S Det Tab) : Option F :=
  match t.output with
  | some (.emit e) => if e.tagged then none else some (frequency t)
  | _ => none

/-- The frequencies that a trace corrects by. -/
def frequencies (tr : List (Transition F S Det Tab)) : List F := tr.filterMap corrected

/-- The last of them, or that of a new corrector. -/
def lastFrequency (tr : List (Transition F S Det Tab)) : F := (frequencies tr).getLast?.getD 0

/-- Whether there was a reset since the last half-frame was corrected. -/
def lostSince (lib : PssLib F S Det Tab) (tr : List (Transition F S Det Tab)) : Bool :=
  tr.foldl (fun lost t => resets lib t || (lost && (corrected t).isNone)) false

/-- The frequency for an estimate that is the only one in the ring. -/
def firstFrequency (lib : PssLib F S Det Tab) (estimate : F) : F :=
  let b : RingBuffer F movingAvgSz := (RingBuffer.init 0).push lib.sizeWidth estimate;
  -computeMovingAvg b.data b.count / (symbolSz : F)

section Properties

variable (tableFor : F → Tab) (rotate : Tab → HalfFrame S → HalfFrame S)
  (tr : List (Transition F S Det Tab))

/-- A half-frame sent in tracking state is rotated by the table for its frequency, and one sent
in another state is not rotated. -/
def FrameCorrected (t : Transition F S Det Tab) : Prop :=
  ∀ e, t.output = some (.emit e) →
    (t.post.tracking.isTracking = true →
      t.post.cfo.table = tableFor (frequency t) ∧
        e.out = rotate (tableFor (frequency t)) e.copied) ∧
    (t.post.tracking.isTracking = false → e.out = e.copied)

/-- All half-frames of a trace are corrected as they should be. -/
def FramesCorrected : Prop := Machine.AtEach (fun _ t => FrameCorrected tableFor rotate t) tr

/-- After every transition the corrector holds the table for its last frequency. -/
def TableValid : Prop :=
  Machine.AtEach (fun _ t => t.post.cfo.table = tableFor t.post.cfo.lastFreq) tr

/-- The first estimate after a reset does not ask for the frequency zero, unless the table for
the frequency before the reset is that for zero. -/
def StaleUnused (lib : PssLib F S Det Tab) : Prop :=
  Machine.AtEach (fun tr₁ t => lostSince lib tr₁ = true → ∀ a ∈ cfoStored lib t,
    firstFrequency lib a = 0 → tableFor (lastFrequency tr₁) = tableFor 0) tr

/-- At every reset the table for the last frequency is that for zero. -/
def ResetsKeepTable (lib : PssLib F S Det Tab) : Prop :=
  Machine.AtEach (fun tr₁ t => resets lib t = true →
    tableFor (lastFrequency tr₁) = tableFor 0) tr

end Properties

section Runs

variable {lib : PssLib F S Det Tab} {tableFor : F → Tab}
  {rotate : Tab → HalfFrame S → HalfFrame S} {s s₀ : PssImpl F Det Tab}
  {tr : List (Transition F S Det Tab)} {t : Transition F S Det Tab}
  {nId2 : ℤ} {threshold : F} {after every : ℤ}

theorem lastFrequency_concat_none (h : corrected t = none) :
    lastFrequency (tr ++ [t]) = lastFrequency tr := by
  simp [lastFrequency, frequencies, h]

theorem lastFrequency_concat_some {f : F} (h : corrected t = some f) :
    lastFrequency (tr ++ [t]) = f := by
  simp [lastFrequency, frequencies, h]

@[simp]
theorem lostSince_concat : lostSince lib (tr ++ [t]) =
    (resets lib t || (lostSince lib tr && (corrected t).isNone)) := by
  simp [lostSince]

/-- No stale table is used if no estimate asks for the frequency zero. -/
theorem staleUnused_of_ne_zero
    (h : ∀ a ∈ tr.flatMap (cfoStored lib), firstFrequency lib a ≠ 0) :
    StaleUnused tableFor tr lib := by
  rintro tr₁ t tr₂ rfl - a ha hzero
  exact absurd hzero (h a (List.mem_flatMap.mpr ⟨t, by simp, ha⟩))

/-- A transition corrects a half-frame exactly when it stores an estimate. -/
theorem cfoStored_cases (hstep : step lib t.pre t.input = .ok (t.post, t.output)) :
    (corrected t = none ∧ cfoStored lib t = []) ∨
    (corrected t = some (frequency t) ∧ ∃ a, cfoStored lib t = [a]) := by
  rcases step_cases hstep with ⟨c, w, hc, ho, -⟩ | ⟨_, hc, ho, -⟩
  · cases w with
    | drop => exact .inl ⟨by simp [corrected, ho], by simp [cfoStored, hc, ho]⟩
    | emit e =>
      cases htag : e.tagged with
      | true => exact .inl ⟨by simp [corrected, ho, htag], by simp [cfoStored, hc, ho, htag]⟩
      | false => exact .inr ⟨by simp [corrected, ho, htag], by simp [cfoStored, hc, ho, htag]⟩
  · exact .inl ⟨by simp [corrected, ho], by simp [cfoStored, hc]⟩

/-- Nothing was stored since a reset that no half-frame was corrected after. -/
theorem sinceReset_of_lostSince (hrun : Machine.Run (step lib) s₀ tr s)
    (h : lostSince lib tr = true) : sinceReset lib (cfoStored lib) tr = [] := by
  refine hrun.invariant_history (I := fun tr _ => lostSince lib tr = true →
    sinceReset lib (cfoStored lib) tr = []) (fun _ => rfl) (fun tr t _ hstep ih h => ?_) h
  rw [sinceReset_concat]
  rw [lostSince_concat] at h
  cases hreset : resets lib t with
  | true => rfl
  | false =>
    -- the reset was before, and nothing is stored
    rcases cfoStored_cases hstep with ⟨-, hstored⟩ | ⟨hsome, -⟩
    · simp only [hreset, Bool.false_or, Bool.and_eq_true] at h
      simp [hstored, ih h.1]
    · -- a corrected half-frame ends the time since the reset
      simp [hreset, hsome] at h

/-- The first half-frame corrected after a reset is corrected by the frequency for its own
estimate. -/
theorem frequency_of_lostSince (hcount : s₀.cfoData.count = 0)
    (hpre : Machine.Run (step lib) s₀ tr t.pre) (hlost : lostSince lib tr = true)
    (hstep : step lib t.pre t.input = .ok (t.post, t.output)) (hreset : resets lib t = false)
    {a : F} (ha : cfoStored lib t = [a]) : frequency t = firstFrequency lib a := by
  have hempty := (cfoData_storesIn.holds hcount hpre).count
  rw [sinceReset_of_lostSince hpre hlost, List.length_nil, Nat.zero_mod] at hempty
  have hpost := cfoData_storesIn t hstep
  rw [hreset, ha] at hpost
  -- the ring may hold other values past its index, which the mean does not read
  have hagree : t.post.cfoData.Agree ((RingBuffer.init 0).push lib.sizeWidth a) := by
    rw [hpost]
    exact (RingBuffer.agree_of_count_zero hempty rfl).push _ _
  rw [frequency, meanCfo, computeMovingAvg_congr hagree, firstFrequency]

/-- A transition loses the cell, leaves the corrector alone or corrects a half-frame. -/
theorem step_cfo (tableFor : F → Tab) (rotate : Tab → HalfFrame S → HalfFrame S)
    (hcoh : t.pre.Coherent)
    (hstep : step lib t.pre t.input = .ok (t.post, t.output)) :
    (resets lib t = true ∧ corrected t = none ∧ FrameCorrected tableFor rotate t ∧
      t.post.cfo = { t.pre.cfo with lastFreq := 0 }) ∨
    (resets lib t = false ∧ corrected t = none ∧ FrameCorrected tableFor rotate t ∧
      t.post.cfo = t.pre.cfo) ∨
    (resets lib t = false ∧ corrected t = some (frequency t) ∧
      t.post.tracking.isTracking = true ∧ ∃ e, t.output = some (.emit e) ∧
        (e.out, t.post.cfo) = lib.cfoCorrect t.pre.cfo e.copied (frequency t)) := by
  rcases step_cases hstep with ⟨c, w, hc, ho, hw⟩ | ⟨threshold, hc, ho, hpost⟩
  · -- a half-frame with the tag is not corrected, and it was not sent in tracking state
    have hplain (htag : ∀ e, w = .emit e → e.tagged = true ∧ e.out = e.copied) :
        corrected t = none ∧ FrameCorrected tableFor rotate t := by
      refine ⟨?_, fun e he => ?_⟩
      · rw [corrected, ho]
        cases w with
        | emit e => simp [(htag e rfl).1]
        | drop => rfl
      · obtain ⟨htagged, hout⟩ := htag e (Option.some.inj (ho.symm.trans he))
        rw [(tagged_iff_not_tracking hcoh hstep he).mp htagged]
        simp [hout]
    rcases generalWork_cfo hw with
      ⟨hloss, htag, -, hcfo⟩ | ⟨hloss, htag, -, hcfo⟩ | ⟨hloss, e, rfl, htag, -, hcorrect⟩
    · exact .inl ⟨by simp [resets, hc, hloss], (hplain htag).1, (hplain htag).2, hcfo⟩
    · exact .inr (.inl ⟨by simp [resets, hc, hloss], (hplain htag).1, (hplain htag).2, hcfo⟩)
    · refine .inr (.inr ⟨by simp [resets, hc, hloss], by simp [corrected, ho, htag], ?_,
        e, ho, hcorrect⟩)
      -- a half-frame without the tag was sent in tracking state
      have hiff := tagged_iff_not_tracking hcoh hstep ho
      simpa [htag] using hiff
  · refine .inr (.inl ⟨by simp [resets, hc], by simp [corrected, ho], fun e he => ?_, ?_⟩)
    · simp [ho] at he
    · rw [hpost]
      rfl

/-- A correction by the last frequency uses the table as it is, and one by another frequency
leaves the table for that. -/
theorem CorrectsByTable.cases (hlib : CorrectsByTable lib tableFor rotate)
    {cfo cfo' : SrslteCfo F Tab} {x out : HalfFrame S} {f : F}
    (h : (out, cfo') = lib.cfoCorrect cfo x f) :
    (f = cfo.lastFreq ∧ cfo' = cfo ∧ out = rotate cfo.table x) ∨
    (f ≠ cfo.lastFreq ∧ cfo' = ⟨f, tableFor f⟩ ∧ out = rotate (tableFor f) x) := by
  by_cases hf : f = cfo.lastFreq
  · rw [hf, hlib.hit] at h
    obtain ⟨rfl, rfl⟩ := Prod.mk.inj h
    exact .inl ⟨hf, rfl, rfl⟩
  · rw [hlib.miss _ _ _ hf] at h
    obtain ⟨rfl, rfl⟩ := Prod.mk.inj h
    exact .inr ⟨hf, rfl, rfl⟩

/-- The last frequency of the corrector is the last one it corrected by, unless a reset has set
it to zero since. -/
theorem lastFreq_of_run (hlib : CorrectsByTable lib tableFor rotate)
    (hmake : make lib nId2 threshold after every = .ok s₀)
    (hrun : Machine.Run (step lib) s₀ tr s) :
    s.cfo.lastFreq = if lostSince lib tr then 0 else lastFrequency tr := by
  refine hrun.invariant_history
    (I := fun tr s => s.cfo.lastFreq = if lostSince lib tr then 0 else lastFrequency tr) ?_
    fun tr t hpre hstep ih => ?_
  · obtain ⟨_, _, cfo, -, -, hcfo, rfl⟩ := make_eq hmake
    rw [hlib.init _ _ hcfo]
    rfl
  · rw [lostSince_concat]
    -- a reset pokes zero into `last_freq`, and a correction sets it to its own frequency
    rcases step_cfo tableFor rotate (coherent_of_run hmake hpre) hstep with
      ⟨hreset, -, -, hcfo⟩ | ⟨hreset, hnone, -, hcfo⟩ | ⟨hreset, hsome, -, e, -, hcorrect⟩
    · rw [hcfo, hreset]
      rfl
    · rw [hcfo, hreset, hnone, lastFrequency_concat_none hnone, ih]
      simp
    · rw [hreset, hsome, lastFrequency_concat_some hsome]
      rcases hlib.cases hcorrect with ⟨hf, hcfo, -⟩ | ⟨-, hcfo, -⟩
      · simp [hcfo, hf]
      · simp [hcfo]

/-- While all half-frames are corrected as they should be, the table is the one for the last
frequency corrected by. -/
theorem table_of_framesCorrected (hlib : CorrectsByTable lib tableFor rotate)
    (hmake : make lib nId2 threshold after every = .ok s₀)
    (hrun : Machine.Run (step lib) s₀ tr s) (h : FramesCorrected tableFor rotate tr) :
    s.cfo.table = tableFor (lastFrequency tr) := by
  refine hrun.invariant_history (I := fun tr s => FramesCorrected tableFor rotate tr →
    s.cfo.table = tableFor (lastFrequency tr)) (fun _ => ?_) (fun tr t hpre hstep ih h => ?_) h
  · obtain ⟨_, _, cfo, -, -, hcfo, rfl⟩ := make_eq hmake
    rw [hlib.init _ _ hcfo]
    rfl
  · obtain ⟨hbefore, hlast⟩ := Machine.atEach_concat.mp h
    -- only a correction touches the table, and by assumption it left the right one
    rcases step_cfo tableFor rotate (coherent_of_run hmake hpre) hstep with
      ⟨-, hnone, -, hcfo⟩ | ⟨-, hnone, -, hcfo⟩ | ⟨-, hsome, htracking, e, he, -⟩
    · rw [hcfo, lastFrequency_concat_none hnone]
      exact ih hbefore
    · rw [hcfo, lastFrequency_concat_none hnone]
      exact ih hbefore
    · rw [lastFrequency_concat_some hsome]
      exact ((hlast e he).1 htracking).1

/-- After a trace the corrector holds the table for its last frequency, if it did after every
transition. -/
theorem TableValid.last (h : TableValid tableFor tr) (hlib : CorrectsByTable lib tableFor rotate)
    (hmake : make lib nId2 threshold after every = .ok s₀)
    (hrun : Machine.Run (step lib) s₀ tr s) : s.cfo.table = tableFor s.cfo.lastFreq := by
  cases hrun with
  | nil =>
    obtain ⟨_, _, cfo, -, -, hcfo, rfl⟩ := make_eq hmake
    rw [hlib.init _ _ hcfo]
  | snoc _ _ => exact (Machine.atEach_concat.mp h).2

/-- A half-frame sent in tracking state is corrected as it should be exactly when the table that
the correction leaves is the one for its frequency. -/
theorem frameCorrected_iff (hlib : CorrectsByTable lib tableFor rotate)
    (htracking : t.post.tracking.isTracking = true) {e : Emission S}
    (he : t.output = some (.emit e))
    (hcorrect : (e.out, t.post.cfo) = lib.cfoCorrect t.pre.cfo e.copied (frequency t)) :
    FrameCorrected tableFor rotate t ↔ t.post.cfo.table = tableFor (frequency t) := by
  have hout : e.out = rotate t.post.cfo.table e.copied := by
    rcases hlib.cases hcorrect with ⟨-, hcfo, hout⟩ | ⟨-, hcfo, hout⟩ <;> rw [hcfo, hout]
  constructor
  · intro h
    exact ((h e he).1 htracking).1
  · intro htable e' he'
    obtain rfl : e = e' := Work.emit.inj (Option.some.inj (he.symm.trans he'))
    refine ⟨fun _ => ⟨htable, by rw [hout, htable]⟩, fun hflag => ?_⟩
    simp [htracking] at hflag

/-- A valid table corrects all half-frames as it should. -/
theorem TableValid.framesCorrected (h : TableValid tableFor tr)
    (hlib : CorrectsByTable lib tableFor rotate)
    (hmake : make lib nId2 threshold after every = .ok s₀)
    (hrun : Machine.Run (step lib) s₀ tr s) : FramesCorrected tableFor rotate tr := by
  rintro tr₁ t tr₂ rfl
  obtain ⟨hpre, hstep, -⟩ := hrun.at_transition
  rcases step_cfo tableFor rotate (coherent_of_run hmake hpre) hstep with
    ⟨-, -, hframe, -⟩ | ⟨-, -, hframe, -⟩ | ⟨-, -, htracking, e, he, hcorrect⟩
  · exact hframe
  · exact hframe
  · rw [frameCorrected_iff hlib htracking he hcorrect, h tr₁ t tr₂ rfl]
    -- a table that is used as it is was valid before
    rcases hlib.cases hcorrect with ⟨hf, hcfo, -⟩ | ⟨-, hcfo, -⟩
    · rw [hcfo, hf]
    · rw [hcfo]

/-- All half-frames are corrected as they should be exactly when no stale table is used. -/
theorem framesCorrected_iff (hlib : CorrectsByTable lib tableFor rotate)
    (hmake : make lib nId2 threshold after every = .ok s₀)
    (hrun : Machine.Run (step lib) s₀ tr s) :
    FramesCorrected tableFor rotate tr ↔ StaleUnused tableFor tr lib := by
  refine hrun.atEach_iff fun tr t hpre hstep hbefore => ?_
  have htable := table_of_framesCorrected hlib hmake hpre hbefore
  have hfreq := lastFreq_of_run hlib hmake hpre
  have hcount : s₀.cfoData.count = 0 := by
    rw [(make_rings hmake).2]
    rfl
  -- without a correction no estimate was stored, and the condition is void
  have hplain (hnone : corrected t = none) : cfoStored lib t = [] := by
    rcases cfoStored_cases hstep with ⟨-, h⟩ | ⟨hsome, -⟩
    · exact h
    · simp [hnone] at hsome
  rcases step_cfo tableFor rotate (coherent_of_run hmake hpre) hstep with
    ⟨-, hnone, hframe, -⟩ | ⟨-, hnone, hframe, -⟩ | ⟨hreset, hsome, htracking, e, he, hcorrect⟩
  · exact iff_of_true hframe (by simp [hplain hnone])
  · exact iff_of_true hframe (by simp [hplain hnone])
  · rcases cfoStored_cases hstep with ⟨hnone, -⟩ | ⟨-, a, ha⟩
    · simp [hsome] at hnone
    rw [frameCorrected_iff hlib htracking he hcorrect, ha]
    simp only [List.mem_singleton, forall_eq]
    have hfirst (hlost : lostSince lib tr = true) : frequency t = firstFrequency lib a :=
      frequency_of_lostSince hcount hpre hlost hstep hreset ha
    rcases hlib.cases hcorrect with ⟨hf, hcfo, -⟩ | ⟨hf, hcfo, -⟩
    · -- the table is used as it is: it is stale if there was a reset
      rw [hcfo, htable, hf, hfreq]
      cases hlost : lostSince lib tr with
      | false => simp
      | true =>
        rw [hfreq, hlost] at hf
        simp [← hfirst hlost, hf]
    · -- a rebuilt table is right, and after a reset the frequency was not zero
      refine iff_of_true (by rw [hcfo]) fun hlost hzero => ?_
      rw [hfreq, hlost, hfirst hlost] at hf
      exact absurd hzero hf

/-- The corrector holds the table for its last frequency throughout exactly when no reset makes
the table stale. -/
theorem tableValid_iff (hlib : CorrectsByTable lib tableFor rotate)
    (hmake : make lib nId2 threshold after every = .ok s₀)
    (hrun : Machine.Run (step lib) s₀ tr s) :
    TableValid tableFor tr ↔ ResetsKeepTable tableFor tr lib := by
  refine hrun.atEach_iff fun tr t hpre hstep hbefore => ?_
  have hvalid := TableValid.last hbefore hlib hmake hpre
  have htable := table_of_framesCorrected hlib hmake hpre
    (TableValid.framesCorrected hbefore hlib hmake hpre)
  rcases step_cfo tableFor rotate (coherent_of_run hmake hpre) hstep with
    ⟨hreset, -, -, hcfo⟩ | ⟨hreset, -, -, hcfo⟩ | ⟨hreset, -, -, e, -, hcorrect⟩
  · -- a reset keeps the table it finds
    simp only [hcfo, hreset, true_imp_iff, htable]
  · exact iff_of_true (by rw [hcfo, hvalid]) (by simp [hreset])
  · refine iff_of_true ?_ (by simp [hreset])
    rcases hlib.cases hcorrect with ⟨-, hcfo, -⟩ | ⟨-, hcfo, -⟩
    · rw [hcfo, hvalid]
    · rw [hcfo]

/-- Every half-frame sent in tracking state is rotated by the table for its own frequency, and
no other half-frame is rotated, exactly when the first estimate after a reset does not ask for
the frequency zero, unless the table for the frequency before is that for zero. The corrector
holds the table for its last frequency in every state exactly when that table is the one for
zero at every reset. -/
theorem correction_iff (hlib : CorrectsByTable lib tableFor rotate)
    (hmake : make lib nId2 threshold after every = .ok s₀)
    (hrun : Machine.Run (step lib) s₀ tr s) :
    (FramesCorrected tableFor rotate tr ↔ StaleUnused tableFor tr lib) ∧
    (TableValid tableFor tr ↔ ResetsKeepTable tableFor tr lib) :=
  ⟨framesCorrected_iff hlib hmake hrun, tableValid_iff hlib hmake hrun⟩

end Runs

/-- The corrector of a script. -/
theorem correctsByTable_ofScript {S : Type} [DecidableEq F]
    (rotate : F → HalfFrame S → HalfFrame S) (script : PssScript F) :
    CorrectsByTable (.ofScript rotate script) id rotate where
  init n cfo h := (Option.some.inj h).symm
  hit cfo x := by simp [PssLib.ofScript]
  miss cfo x f hf := by simp [PssLib.ofScript, hf]

/-- Samples that are phases, rotated by a frequency. -/
def rotatePhases (f : ℤ) (x : HalfFrame ℤ) : HalfFrame ℤ := fun k => x k + f * k

/-- Two half-frames in tracking state, with a reset between them, that are corrected by `-1`
and `1`. -/
theorem correction_ofScript :
    ∃ tr s, Machine.Run
        (step (.ofScript rotatePhases ([(960, 5), (960, -1), (960, 5)], [128, -128])))
        (.ofScript ([(960, 5), (960, -1), (960, 5)], [128, -128]) 1 1 0) tr s ∧
      frequencies tr = [-1, 1] ∧ FramesCorrected id rotatePhases tr := by
  let script : PssScript ℤ := ([(960, 5), (960, -1), (960, 5)], [128, -128])
  have hresult : (Machine.exec (step (.ofScript rotatePhases script)) (.ofScript script 1 1 0)
      (List.replicate 3 (.work (Call.minimal id 0)))).map (fun r =>
        (frequencies r.1, r.1.flatMap (cfoStored (.ofScript rotatePhases script)))) =
      some ([-1, 1], [128, -128]) := by
    decide +kernel
  obtain ⟨⟨tr, s⟩, hexec, heq⟩ := Option.map_eq_some_iff.mp hresult
  obtain ⟨hfrequencies, hestimates⟩ := Prod.mk.inj heq
  have hrun := Machine.Run.of_exec hexec
  refine ⟨tr, s, hrun, hfrequencies, (correction_iff (correctsByTable_ofScript _ script)
    (make_ofScript _ script 1 1 0) hrun).1.mpr (staleUnused_of_ne_zero ?_)⟩
  rw [hestimates]
  decide +kernel

/-- The second half-frame in tracking state is to be corrected by zero, and the table is still
that for `-1`. -/
theorem reset_leaves_table :
    ¬ ∀ (script : PssScript ℤ) (threshold after every : ℤ) tr s,
      Machine.Run (step (.ofScript rotatePhases script))
        (.ofScript script threshold after every) tr s →
      FramesCorrected id rotatePhases tr := by
  intro h
  let script : PssScript ℤ := ([(960, 5), (960, -1), (960, 5)], [128, 0])
  let k : Fin halfFrameLength := ⟨1, by decide⟩
  have hresult : (Machine.exec (step (.ofScript rotatePhases script)) (.ofScript script 1 1 0)
      (List.replicate 3 (.work (Call.minimal id 0)))).bind (fun r =>
        r.1.getLast?.map fun t => (t.post.tracking.isTracking, frequency t,
          (t.output.bind Work.emission).map fun e => (e.copied k, e.out k))) =
      some (true, 0, some (1, 0)) := by
    decide +kernel
  obtain ⟨⟨tr, s⟩, hexec, hlast⟩ := Option.bind_eq_some_iff.mp hresult
  obtain ⟨t, ht, heq⟩ := Option.map_eq_some_iff.mp hlast
  obtain ⟨htracking, hfrequency, hemit⟩ := by simpa only [Prod.mk.injEq] using heq
  obtain ⟨tr₁, htr⟩ := List.getLast?_eq_some_iff.mp ht
  obtain ⟨e, he, hout⟩ := Option.map_eq_some_iff.mp hemit
  obtain ⟨w, hw, hwe⟩ := Option.bind_eq_some_iff.mp he
  cases w with
  | drop => cases hwe
  | emit e' =>
    obtain rfl := Option.some.inj hwe
    obtain ⟨-, hrotated⟩ :=
      (h _ _ _ _ _ _ (Machine.Run.of_exec hexec) tr₁ t [] htr e' hw).1 htracking
    obtain ⟨hcopied, hsample⟩ := Prod.mk.inj hout
    rw [hrotated, hfrequency] at hsample
    -- the sample should have been left as it was
    simp [rotatePhases, k, hcopied] at hsample

end PssImpl

end LteTrigger
