import Mathlib.Algebra.BigOperators.Group.List.Basic
import Mathlib.Algebra.Order.BigOperators.Group.List
import Mathlib.Algebra.Order.Field.Basic
import Mathlib.Algebra.Order.Field.Rat
import LteTrigger.Pss.Rings

/-!
# The averages of the `pss` block

In exact arithmetic `mean_psr` and `mean_cfo` are the means of the last 200 values stored since
the last reset, and `max_psr` is the largest ratio ever measured. Floats are here any ordered
field. The mean is taken over the live slots of a ring, and these hold nothing that was stored
before the reset, although the reset clears only some slots.

## Main definitions

* `mean`: the arithmetic mean of a list;
* `recent`: the last values of a list that a ring has room for.

## Main results

* `computeMovingAvg_of_holds`: the moving average of a ring;
* `maxPsr_isGreatest`: the maximum of a run;
* `averages_exact`: the averages and the maximum of a run.
-/

namespace LteTrigger

/-- The last values of a list, as many as a ring has room for. -/
def recent {F : Type} (l : List F) : List F := l.drop (l.length - movingAvgSz)

theorem length_recent {F : Type} (l : List F) :
    (recent l).length = min l.length movingAvgSz := by
  rw [recent, List.length_drop]
  omega

variable {F : Type} [Field F] [LinearOrder F]

/-- Exact arithmetic. -/
instance FloatOps.exact : FloatOps F where
  decLt := inferInstance

/-- The arithmetic mean of a list, zero for no values. -/
def mean (l : List F) : F := if l = [] then 0 else l.sum / l.length

/-- A mean is no larger than a bound of the values that is not negative. -/
theorem mean_le [IsStrictOrderedRing F] {l : List F} {a : F} (ha : 0 ≤ a) (hl : ∀ b ∈ l, b ≤ a) :
    mean l ≤ a := by
  unfold mean
  split
  · exact ha
  · rename_i hne
    have hpos : (0 : F) < l.length := by exact_mod_cast List.length_pos_of_ne_nil hne
    rw [div_le_iff₀ hpos, mul_comm, ← nsmul_eq_mul]
    exact List.sum_le_card_nsmul l a hl

/-- The moving average is the sum of the slots it reads, divided by their number. -/
theorem computeMovingAvg_eq (data : Fin movingAvgSz → F) {npts : ℕ} (hnpts : npts ≠ 0) :
    computeMovingAvg data npts =
      (((List.finRange movingAvgSz).take npts).map data).sum / (min npts movingAvgSz : ℕ) := by
  have hmin : (if movingAvgSz < npts then movingAvgSz else npts) = min npts movingAvgSz := by
    split <;> omega
  have htake : (List.finRange movingAvgSz).take npts =
      (List.finRange movingAvgSz).take (min npts movingAvgSz) := by
    rw [List.take_eq_take_min, List.length_finRange]
  rw [computeMovingAvg, if_neg hnpts, hmin, htake, List.sum_eq_foldl, List.foldl_map]

/-- The moving average of a ring is the mean of the last values of its log. -/
theorem computeMovingAvg_of_holds {w : ℕ} {b : RingBuffer F movingAvgSz} {log : List F}
    (h : b.Holds w log) (hfew : log.length < 2 ^ w) :
    computeMovingAvg b.data b.count = mean (recent log) := by
  have hcount : b.count = log.length := by rw [h.count, Nat.mod_eq_of_lt hfew]
  by_cases hlog : log = []
  · -- no value: both sides are zero by definition
    simp [hcount, hlog, computeMovingAvg, mean, recent]
  · have hpos : log.length ≠ 0 := by simpa using hlog
    have hrecent : recent log ≠ [] := by
      rw [← List.length_pos_iff, length_recent]
      have : 0 < movingAvgSz := by decide
      omega
    -- a sum does not depend on the order of the slots
    rw [mean, if_neg hrecent, length_recent, hcount, computeMovingAvg_eq _ hpos,
      (h.live_perm hfew).sum_eq, recent]

namespace PssImpl

variable {S Det Tab : Type} {lib : PssLib F S Det Tab} {s s₀ : PssImpl F Det Tab}
  {tr : List (Transition F S Det Tab)} {t : Transition F S Det Tab}
  {nId2 : ℤ} {threshold : F} {after every : ℤ}

/-- The ratios measured in a trace. -/
def measured (lib : PssLib F S Det Tab) (tr : List (Transition F S Det Tab)) : List F :=
  tr.flatMap (psrStored lib)

/-- A transition takes the maximum of the ratio it ends with, which is one it has measured or the
one before. -/
theorem step_psrMax (hstep : step lib t.pre t.input = .ok (t.post, t.output))
    (hpsr : t.pre.psr ≤ t.pre.psrMax) :
    t.post.psr ≤ t.post.psrMax ∧ t.pre.psrMax ≤ t.post.psrMax ∧
      (∀ a ∈ psrStored lib t, a ≤ t.post.psrMax) ∧
      (t.post.psrMax = t.pre.psrMax ∨ t.post.psrMax ∈ psrStored lib t) := by
  rcases step_cases hstep with ⟨c, w, hc, -, hw⟩ | ⟨threshold, hc, -, hpost⟩
  · have hmax : t.post.psrMax = max t.pre.psrMax t.post.psr :=
      (generalWork_psr hw).1.trans (max_def_lt _ _).symm
    have hpost := (generalWork_spec hw).1
    rw [findFrame_psr] at hpost
    by_cases hfinds : t.pre.findsPss
    · -- the ratio stored is the one the call ends with
      have hstored : psrStored lib t = [t.post.psr] := by
        simp only [psrStored, hc, hpost, hfinds, ↓reduceIte]
      rw [hstored, hmax]
      refine ⟨le_max_right _ _, le_max_left _ _, by simp, ?_⟩
      exact (max_choice _ _).imp_right fun h => List.mem_singleton.mpr h
    · -- without a correlation the ratio is the old one
      rw [if_neg hfinds] at hpost
      have hstored : psrStored lib t = [] := by
        simp only [psrStored, hc, hfinds, ↓reduceIte]
      rw [hstored, hmax, hpost, max_eq_left hpsr]
      exact ⟨hpsr, le_rfl, by simp, .inl rfl⟩
  · simp [psrStored, hc, hpost, setPsrThreshold, hpsr]

/-- The maximum is that of zero and all ratios ever measured. -/
theorem maxPsr_isGreatest (hmake : make lib nId2 threshold after every = .ok s₀)
    (hrun : Machine.Run (step lib) s₀ tr s) :
    s.psr ≤ s.psrMax ∧ IsGreatest {a | a = 0 ∨ a ∈ measured lib tr} s.maxPsr := by
  induction hrun with
  | nil =>
    obtain ⟨_, _, _, -, -, -, rfl⟩ := make_eq hmake
    exact ⟨le_rfl, .inl rfl, by simp [upperBounds, measured, maxPsr]⟩
  | @snoc tr u u' i o _ hstep ih =>
    obtain ⟨hpsr, hmem, hub⟩ := ih
    obtain ⟨hpost, hgrows, hstored, hfrom⟩ := step_psrMax (t := ⟨u, i, o, u'⟩) hstep hpsr
    have hmeasured : measured lib (tr ++ [⟨u, i, o, u'⟩]) =
        measured lib tr ++ psrStored lib ⟨u, i, o, u'⟩ := by simp [measured]
    refine ⟨hpost, ?_, fun a ha => ?_⟩
    · rw [Set.mem_ofPred_eq, hmeasured, List.mem_append]
      rcases hfrom with heq | hnew
      · -- the old maximum, which was measured before
        rw [maxPsr, heq]
        exact hmem.imp_right .inl
      · exact .inr (.inr hnew)
    · rw [Set.mem_ofPred_eq, hmeasured, List.mem_append, ← or_assoc] at ha
      rcases ha with hold | hnew
      · exact (hub hold).trans hgrows
      · exact hstored a hnew

/-- After every event the mean ratio is the mean of the last 200 ratios stored since the last
reset, or of all of them if there are fewer, and zero if there are none. The same holds of the
CFO estimates. The maximum is that of zero and all ratios ever measured, so that no mean exceeds
it. Fewer values are stored than the index can count. -/
theorem averages_exact [IsStrictOrderedRing F]
    (hmake : make lib nId2 threshold after every = .ok s₀)
    (hrun : Machine.Run (step lib) s₀ tr s)
    (hpsr : (sinceReset lib (psrStored lib) tr).length < 2 ^ lib.sizeWidth)
    (hcfo : (sinceReset lib (cfoStored lib) tr).length < 2 ^ lib.sizeWidth) :
    s.meanPsr = mean (recent (sinceReset lib (psrStored lib) tr)) ∧
    s.meanCfo = mean (recent (sinceReset lib (cfoStored lib) tr)) ∧
    IsGreatest {a | a = 0 ∨ a ∈ measured lib tr} s.maxPsr ∧
    s.meanPsr ≤ s.maxPsr := by
  obtain ⟨hpsrInit, hcfoInit⟩ := make_rings hmake
  have hmean : s.meanPsr = mean (recent (sinceReset lib (psrStored lib) tr)) :=
    computeMovingAvg_of_holds (psrData_storesIn.holds (by rw [hpsrInit]; rfl) hrun) hpsr
  have hgreatest := (maxPsr_isGreatest hmake hrun).2
  refine ⟨hmean, computeMovingAvg_of_holds
    (cfoData_storesIn.holds (by rw [hcfoInit]; rfl) hrun) hcfo, hgreatest, ?_⟩
  -- what the mean is taken of was measured at some time
  rw [hmean]
  refine mean_le (hgreatest.2 (.inl rfl)) fun a ha => hgreatest.2 (.inr ?_)
  exact mem_flatMap_of_mem_sinceReset (List.mem_of_mem_drop ha)

/-- Two ratios and the estimate made with the second of them, over the rationals. -/
theorem averages_exact_ofScript :
    ∃ tr s, Machine.Run (step (.ofScript (S := Unit) (fun _ x => x) ([(960, 5), (960, 3)], [7])))
        (.ofScript ([(960, 5), (960, 3)], [7]) (1 : ℚ) 2 0) tr s ∧
      measured (.ofScript (S := Unit) (fun _ x => x) ([(960, 5), (960, 3)], [7])) tr = [5, 3] ∧
      s.meanPsr ≤ s.maxPsr := by
  let lib : PssLib ℚ Unit (PssScript ℚ) ℚ :=
    .ofScript (fun _ x => x) ([(960, 5), (960, 3)], [7])
  have hresult : (Machine.exec (step lib) (.ofScript ([(960, 5), (960, 3)], [7]) 1 2 0)
      (List.replicate 2 (.work (Call.minimal (fun _ => ()) 0)))).map (fun r =>
        (measured lib r.1, (sinceReset lib (psrStored lib) r.1).length,
          (sinceReset lib (cfoStored lib) r.1).length)) = some ([5, 3], 2, 1) := by
    decide +kernel
  obtain ⟨⟨tr, s⟩, hexec, heq⟩ := Option.map_eq_some_iff.mp hresult
  simp only [Prod.mk.injEq] at heq
  obtain ⟨hmeasured, hpsr, hcfo⟩ := heq
  have hrun := Machine.Run.of_exec hexec
  exact ⟨tr, s, hrun, hmeasured, (averages_exact (make_ofScript _ _ 1 2 0) hrun
    (by rw [hpsr]; decide) (by rw [hcfo]; decide)).2.2.2⟩

end PssImpl

end LteTrigger
