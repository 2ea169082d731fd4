import Mathlib.Algebra.BigOperators.Group.List.Basic
import Mathlib.Algebra.Ring.Int.Defs
import LteTrigger.Pss.Acquisition

/-!
# Which samples the `pss` block emits

Input samples are numbered absolutely: `in[k]` of a call is sample `nitemsRead + k`, where
`nitemsRead` is what the earlier calls of the run consumed. `SinceCorrelation` names the
absolute position `P` of the peak that the last `srslte_pss_find_pss` call returned and the
number of half-frames emitted since. The invariant `Aligned` ties both to `d_peak_pos` and
to `nitemsRead` while the block is tracking.

## Main results

* `alignment`: every emitted half-frame is the one at `P - 960 + 9600 * j`;
* `copy_in_window_iff`: the copy stays inside the input window exactly when the peak is not
  too late for it.
-/

namespace LteTrigger

namespace PssImpl

variable {F S Det Tab : Type}

section Positions

variable (tr tr' : List (Machine.Transition (PssImpl F Det Tab) (Event F S) (Option (Work S))))
  (t : Machine.Transition (PssImpl F Det Tab) (Event F S) (Option (Work S)))

/-- The items a transition consumes. -/
def consumed : ℤ := (t.output.map Work.nconsume).getD 0

/-- `nitems_read(0)` after a trace. -/
def nitemsRead : ℤ := (tr.map consumed).sum

/-- The half-frames emitted in a trace. -/
def emitted : List (Emission S) := tr.filterMap fun t => t.output.bind Work.emission

@[simp]
theorem nitemsRead_append : nitemsRead (tr ++ tr') = nitemsRead tr + nitemsRead tr' := by
  simp [nitemsRead]

@[simp]
theorem nitemsRead_singleton : nitemsRead [t] = consumed t := by
  simp [nitemsRead]

@[simp]
theorem emitted_append : emitted (tr ++ tr') = emitted tr ++ emitted tr' := by
  simp [emitted]

/-- The input windows of a trace are cut from the stream `x`. -/
def ReadsStream (x : ℤ → S) : Prop :=
  ∀ tr₁ t tr₂ c, tr = tr₁ ++ t :: tr₂ → t.input = .work c →
    ∀ k : ℤ, -((history : ℤ) - 1) ≤ k → k < c.ninputItems - ((history : ℤ) - 1) →
      c.input k = x (nitemsRead tr₁ + k)

/-- The input window of every call reaches to the end of the half-frame it copies. -/
def WindowsSuffice : Prop :=
  ∀ t ∈ tr, ∀ c e, t.input = .work c → t.output = some (.emit e) →
    e.frameStart + halfFrameLength ≤ c.ninputItems - ((history : ℤ) - 1)

/-- The last correlation of the trace found a peak at the absolute position `P`, and `j`
half-frames were emitted from that call on. -/
def SinceCorrelation (lib : PssLib F S Det Tab) (P : ℤ) (j : ℕ) : Prop :=
  ∃ tr₁ f tr₂ c, tr = tr₁ ++ f :: tr₂ ∧ f.input = .work c ∧ f.pre.findsPss ∧
    (∀ t ∈ tr₂, ∀ c', t.input = .work c' → ¬ t.pre.findsPss) ∧
    P = nitemsRead tr₁ + (lib.findPss f.pre.pss (c.halfFrame 0)).peakPos ∧
    j = (emitted (f :: tr₂)).length

/-- The last call of the trace emitted the half-frame that starts at the absolute position
`start`. -/
def LastEmitted (start : ℤ) : Prop :=
  ∃ tr₁ u tr₂ e, tr = tr₁ ++ u :: tr₂ ∧ u.output = some (.emit e) ∧
    (∀ t ∈ tr₂, t.output = none) ∧ start = nitemsRead tr₁ + e.frameStart

end Positions

section Steps

variable {lib : PssLib F S Det Tab}
  {tr : List (Machine.Transition (PssImpl F Det Tab) (Event F S) (Option (Work S)))}
  {t : Machine.Transition (PssImpl F Det Tab) (Event F S) (Option (Work S))}
  {P : ℤ} {j : ℕ} {c : Call S}

/-- A transition that does not correlate leaves the last correlation where it was. -/
theorem SinceCorrelation.snoc (h : SinceCorrelation tr lib P j)
    (hskip : ∀ c, t.input = .work c → ¬ t.pre.findsPss) :
    SinceCorrelation (tr ++ [t]) lib P (j + (emitted [t]).length) := by
  obtain ⟨tr₁, f, tr₂, c, rfl, hf, hfinds, hnone, hP, hj⟩ := h
  -- the correlation stays where it is, and the new transition joins those after it
  refine ⟨tr₁, f, tr₂ ++ [t], c, by simp, hf, hfinds, ?_, hP, ?_⟩
  · intro u hu c' hc'
    rcases List.mem_append.mp hu with hu | hu
    · exact hnone u hu c' hc'
    · obtain rfl := List.mem_singleton.mp hu
      exact hskip c' hc'
  · rw [← List.cons_append, emitted_append, List.length_append, hj]

/-- A correlating call is the last correlation. -/
theorem sinceCorrelation_here (hcall : t.input = .work c) (hfinds : t.pre.findsPss) :
    SinceCorrelation (tr ++ [t]) lib
      (nitemsRead tr + (lib.findPss t.pre.pss (c.halfFrame 0)).peakPos)
      (emitted [t]).length :=
  ⟨tr, t, [], c, rfl, hcall, hfinds, by simp, rfl, rfl⟩

/-- A transition without a call does not hide the last half-frame. -/
theorem LastEmitted.snoc {start : ℤ} (h : LastEmitted tr start) (hnone : t.output = none) :
    LastEmitted (tr ++ [t]) start := by
  obtain ⟨tr₁, u, tr₂, e, rfl, he, hquiet, hstart⟩ := h
  refine ⟨tr₁, u, tr₂ ++ [t], e, by simp, he, fun v hv => ?_, hstart⟩
  rcases List.mem_append.mp hv with hv | hv
  · exact hquiet v hv
  · obtain rfl := List.mem_singleton.mp hv
    exact hnone

/-- Each call of a trace reads the stream from where the calls before it have stopped. -/
theorem readsStream_iff_atEach {x : ℤ → S} : ReadsStream tr x ↔
    Machine.AtEach (fun tr₁ t => ∀ c, t.input = .work c →
      ∀ k : ℤ, -((history : ℤ) - 1) ≤ k → k < c.ninputItems - ((history : ℤ) - 1) →
        c.input k = x (nitemsRead tr₁ + k)) tr :=
  ⟨fun h tr₁ t tr₂ htr c => h tr₁ t tr₂ c htr, fun h tr₁ t tr₂ c htr => h tr₁ t tr₂ htr c⟩

theorem readsStream_nil (x : ℤ → S) :
    ReadsStream
      ([] : List (Machine.Transition (PssImpl F Det Tab) (Event F S) (Option (Work S)))) x :=
  readsStream_iff_atEach.mpr Machine.atEach_nil

/-- A trace reads the stream when the calls before the last do and the last call reads on. -/
theorem ReadsStream.snoc {x : ℤ → S} (h : ReadsStream tr x)
    (ht : ∀ c, t.input = .work c → ∀ k, c.input k = x (nitemsRead tr + k)) :
    ReadsStream (tr ++ [t]) x :=
  readsStream_iff_atEach.mpr
    ((readsStream_iff_atEach.mp h).snoc fun c hc k _ _ => ht c hc k)

end Steps

section Aligned

variable [FloatOps F] {lib : PssLib F S Det Tab} {s s' s₀ : PssImpl F Det Tab}
  {tr : List (Machine.Transition (PssImpl F Det Tab) (Event F S) (Option (Work S)))}
  {c : Call S} {w : Work S} {e : Emission S}

/-- What the history of a run says about the block: in tracking state the stored peak is one
slot into the next half-frame, the next half-frame to read continues the last one emitted,
and its distance from the last peak counts the half-frames emitted since. -/
structure Aligned (lib : PssLib F S Det Tab)
    (tr : List (Machine.Transition (PssImpl F Det Tab) (Event F S) (Option (Work S))))
    (s : PssImpl F Det Tab) : Prop where
  coherent : s.Coherent
  peakPos : s.tracking.isTracking = true → s.peakPos = slotLength
  sinceCorrelation : s.tracking.isTracking = true → ∃ P j, SinceCorrelation tr lib P j ∧
    nitemsRead tr = P - slotLength + halfFrameLength * j
  lastEmitted : s.tracking.isTracking = true →
    LastEmitted tr (nitemsRead tr - halfFrameLength)

/-- A call that skips the correlation of an aligned block sends the half-frame that starts
at `in[0]`. -/
theorem frameStart_of_not_findsPss (h : Aligned lib tr s) (hskip : ¬ s.findsPss)
    (hw : generalWork lib s c = .ok (s', w)) : ∃ e, w = .emit e ∧ e.frameStart = 0 := by
  have htracking : s.tracking.isTracking = true := by
    by_contra hflag
    exact hskip (.inl hflag)
  have hlocked : s.tracking.phase = .locked := by simp [Tracking.phase, htracking]
  -- a locked lock is never idle, so the call does not drop its half-frame
  have hbusy : w ≠ .drop := by
    rw [Ne, drop_iff_idle h.coherent hw, lockStep, HitLock.verdict_eq_idle_iff, hlocked]
    simp
  cases w with
  | drop => exact absurd rfl hbusy
  | emit e =>
    refine ⟨e, rfl, ?_⟩
    rw [(generalWork_emit hw).1, findFrame_peakPos_of_not_findsPss hskip, h.peakPos htracking]
    simp

/-- An emitted half-frame starts `j` half-frames after the one around the last peak, where
`j` counts the half-frames emitted since the correlation. -/
theorem emit_position (h : Aligned lib tr s) (hw : generalWork lib s c = .ok (s', .emit e)) :
    ∃ P j, SinceCorrelation (tr ++ [⟨s, .work c, some (.emit e), s'⟩]) lib P (j + 1) ∧
      nitemsRead tr + e.frameStart = P - slotLength + halfFrameLength * j := by
  by_cases hfinds : s.findsPss
  · -- the half-frame around the new peak is the one with number zero
    refine ⟨_, 0, sinceCorrelation_here (t := ⟨s, .work c, some (.emit e), s'⟩) rfl hfinds, ?_⟩
    rw [(generalWork_emit hw).1, findFrame_peakPos_of_findsPss hfinds]
    simp
    omega
  · -- the invariant places `in[0]`, where this half-frame starts
    obtain ⟨e', he, hstart⟩ := frameStart_of_not_findsPss h hfinds hw
    obtain rfl := Work.emit.inj he
    have htracking : s.tracking.isTracking = true := by
      by_contra hflag
      exact hfinds (.inl hflag)
    obtain ⟨P, j, hsince, hread⟩ := h.sinceCorrelation htracking
    refine ⟨P, j, hsince.snoc (t := ⟨s, .work c, some (.emit e), s'⟩) fun _ _ => hfinds, ?_⟩
    rw [hstart, hread]
    simp

/-- A call keeps alignment. -/
theorem aligned_work (h : Aligned lib tr s) (hw : generalWork lib s c = .ok (s', w)) :
    Aligned lib (tr ++ [⟨s, .work c, some w, s'⟩]) s' := by
  have hcoh := generalWork_coherent h.coherent hw
  -- a block that is still tracking has sent its half-frame
  have hemits : s'.tracking.isTracking = true → ∃ e, w = .emit e := by
    intro htracking
    have hfollow := (isTracking_iff_follow h.coherent hw).mp htracking
    cases w with
    | emit e => exact ⟨e, rfl⟩
    | drop =>
      rw [(drop_iff_idle h.coherent hw).mp rfl] at hfollow
      cases hfollow
  refine ⟨hcoh, fun htracking => ?_, fun htracking => ?_, fun htracking => ?_⟩
  all_goals obtain ⟨e, rfl⟩ := hemits htracking
  · exact (generalWork_emit hw).2.2
  · -- the call consumes up to the end of what it emitted
    obtain ⟨P, j, hsince, hpos⟩ := emit_position h hw
    refine ⟨P, j + 1, hsince, ?_⟩
    simp only [nitemsRead_append, nitemsRead_singleton, consumed, Option.map_some,
      Option.getD_some, Work.nconsume, Nat.cast_add, Nat.cast_one, mul_add, mul_one]
    omega
  · refine ⟨tr, _, [], e, rfl, rfl, by simp, ?_⟩
    simp [consumed, Work.nconsume]
    omega

/-- Every event keeps alignment. -/
theorem aligned_step {i : Event F S} {o : Option (Work S)} (h : Aligned lib tr s)
    (hstep : step lib s i = .ok (s', o)) : Aligned lib (tr ++ [⟨s, i, o, s'⟩]) s' := by
  rcases step_cases hstep with ⟨c, w, rfl, rfl, hw⟩ | ⟨threshold, rfl, rfl, rfl⟩
  · exact aligned_work h hw
  · -- a new threshold reads and emits nothing
    refine ⟨step_coherent h.coherent hstep, h.peakPos, fun htracking => ?_,
      fun htracking => ?_⟩
    · obtain ⟨P, j, hsince, hread⟩ := h.sinceCorrelation htracking
      exact ⟨P, _, hsince.snoc (by simp), by simpa [consumed, emitted] using hread⟩
    · simpa [consumed] using (h.lastEmitted htracking).snoc (t := ⟨s, _, none, _⟩) rfl

/-- Every run from construction is aligned. -/
theorem aligned_of_run {nId2 : ℤ} {threshold : F} {after every : ℤ}
    (hmake : make lib nId2 threshold after every = .ok s₀)
    (hrun : Machine.Run (step lib) s₀ tr s) : Aligned lib tr s := by
  induction hrun with
  | nil =>
    -- a new block does not track, and all but coherence is about tracking blocks
    have hflag : s₀.tracking.isTracking = false := by
      obtain ⟨det, pss, cfo, -, -, -, rfl⟩ := make_eq hmake
      rfl
    exact ⟨make_coherent hmake, by simp [hflag], by simp [hflag], by simp [hflag]⟩
  | snoc _ hstep ih => exact aligned_step ih hstep

/-- A frame start is never more than one slot before `in[0]`. -/
theorem neg_slotLength_le_frameStart (h : Aligned lib tr s)
    (hpeak : ∀ det samples, 0 ≤ (lib.findPss det samples).peakPos)
    (hw : generalWork lib s c = .ok (s', .emit e)) : -(slotLength : ℤ) ≤ e.frameStart := by
  by_cases hfinds : s.findsPss
  · rw [(generalWork_emit hw).1, findFrame_peakPos_of_findsPss hfinds]
    have := hpeak s.pss (c.halfFrame 0)
    omega
  · obtain ⟨e', he, hstart⟩ := frameStart_of_not_findsPss h hfinds hw
    obtain rfl := Work.emit.inj he
    rw [hstart]
    omega

/-- Every emitted half-frame is the `j`-th one after the half-frame around the last peak `P`,
where `j` counts the half-frames emitted since that peak was found. A call that skips the
correlation continues the half-frame emitted last, and a tracking block has its peak one slot
into the next half-frame. -/
theorem alignment {nId2 : ℤ} {threshold : F} {after every : ℤ} {x : ℤ → S}
    (hpeak : ∀ det samples, 0 ≤ (lib.findPss det samples).peakPos)
    (hmake : make lib nId2 threshold after every = .ok s₀)
    (hrun : Machine.Run (step lib) s₀ tr s)
    (hstream : ReadsStream tr x) (hwindow : WindowsSuffice tr) :
    (∀ tr₁ t tr₂ e, tr = tr₁ ++ t :: tr₂ → t.output = some (.emit e) →
      ∃ P j, SinceCorrelation (tr₁ ++ [t]) lib P (j + 1) ∧
        e.copied = halfFrameAt x (P - slotLength + halfFrameLength * j)) ∧
    (∀ tr₁ t tr₂ c, tr = tr₁ ++ t :: tr₂ → t.input = .work c → ¬ t.pre.findsPss →
      ∃ e start, t.output = some (.emit e) ∧ LastEmitted tr₁ start ∧
        nitemsRead tr₁ + e.frameStart = start + halfFrameLength) ∧
    (s.tracking.isTracking = true → s.peakPos = slotLength) := by
  refine ⟨?_, ?_, (aligned_of_run hmake hrun).peakPos⟩
  · rintro tr₁ t tr₂ e rfl he
    obtain ⟨hpre, hstep, -⟩ := hrun.at_transition
    have haligned := aligned_of_run hmake hpre
    rcases step_cases hstep with ⟨c, w, hi, ho, hw⟩ | ⟨_, -, ho, -⟩
    · obtain rfl : w = .emit e := Option.some.inj (ho.symm.trans he)
      obtain ⟨P, j, hsince, hpos⟩ := emit_position haligned hw
      refine ⟨P, j, by rw [← hi, ← ho] at hsince; exact hsince, ?_⟩
      -- the copied samples lie in the window, where the input is the stream
      have hlow := neg_slotLength_le_frameStart haligned hpeak hw
      have hhigh := hwindow t (by simp) c e hi he
      rw [(generalWork_emit hw).2.1]
      funext k
      have hk := k.isLt
      rw [Call.halfFrame, halfFrameAt, halfFrameAt, hstream tr₁ t tr₂ c rfl hi, ← hpos,
        add_assoc]
      all_goals simp only [history, halfFrameLength, slotLength] at *; omega
    · simp [ho] at he
  · rintro tr₁ t tr₂ c rfl hi hskip
    obtain ⟨hpre, hstep, -⟩ := hrun.at_transition
    have haligned := aligned_of_run hmake hpre
    rcases step_cases hstep with ⟨c', w, -, ho, hw⟩ | ⟨_, hi', -, -⟩
    · obtain ⟨e, rfl, hstart⟩ := frameStart_of_not_findsPss haligned hskip hw
      have htracking : t.pre.tracking.isTracking = true := by
        by_contra hflag
        exact hskip (.inl hflag)
      exact ⟨e, _, ho, haligned.lastEmitted htracking, by rw [hstart]; omega⟩
    · simp [hi'] at hi

/-- A block that locks at its first correlation and skips the next, over the stream of the
integers. The second half-frame follows the half-frame around the peak. -/
theorem alignment_playback :
    ∃ tr₁ t e s, Machine.Run (step (.playback ℤ [(960, 5)])) (.playback [(960, 5)] 1 1 8)
        (tr₁ ++ [t]) s ∧ ¬ t.pre.findsPss ∧ t.output = some (.emit e) ∧
      ∃ P j, SinceCorrelation (tr₁ ++ [t]) (.playback ℤ [(960, 5)]) P (j + 1) ∧
        e.copied = halfFrameAt id (P - slotLength + halfFrameLength * j) := by
  let first : Machine.Run (step (.playback ℤ [(960, 5)])) (.playback [(960, 5)] 1 1 8) _ _ :=
    .snoc (i := .work (Call.minimal id 0)) .nil rfl
  let second := Machine.Run.snoc (i := .work (Call.minimal id halfFrameLength)) first rfl
  refine ⟨_, _, _, _, second, by decide, rfl, ?_⟩
  refine (alignment (x := id) (PssLib.playback_peakPos_nonneg ℤ _)
    (make_playback ℤ [(960, 5)] 1 1 8) second ?_ ?_).1 _ _ [] _ rfl rfl
  · refine ((readsStream_nil id).snoc ?_).snoc ?_ <;> rintro c ⟨⟩ k
    · rw [Call.minimal_input]
      rfl
    · rw [Call.minimal_input]
      rfl
  · intro t ht c e hc he
    simp only [List.nil_append, List.mem_append, List.mem_singleton] at ht
    rcases ht with rfl | rfl <;> cases hc <;> cases he <;> decide

end Aligned

/-! ### Reading inside the input window -/

section Window

variable [FloatOps F] {lib : PssLib F S Det Tab} {s s' s₀ : PssImpl F Det Tab}
  {tr : List (Machine.Transition (PssImpl F Det Tab) (Event F S) (Option (Work S)))}

/-- The half-open range of indices, counted from `input_items[0]`, that `std::copy` reads in a
call, also in a call that throws later on. -/
def copyRange (lib : PssLib F S Det Tab) (s : PssImpl F Det Tab) (c : Call S) :
    Option (ℤ × ℤ) :=
  let s := findFrame lib s c
  if s.psrOverThreshold ∨ (updateScore lib s).trackingLost then
    let frameStart := s.peakPos - slotLength
    let nconsume := frameStart + halfFrameLength
    some ((history : ℤ) - 1 + frameStart, (history : ℤ) - 1 + nconsume)
  else none

/-- What the half-frame of a call that returns was copied from. -/
theorem copyRange_of_emit {c : Call S} {e : Emission S}
    (hw : generalWork lib s c = .ok (s', .emit e)) :
    copyRange lib s c = some ((history : ℤ) - 1 + e.frameStart,
      (history : ℤ) - 1 + (e.frameStart + halfFrameLength)) := by
  have hstart := (generalWork_emit hw).1
  rcases generalWork_cases hw with ⟨-, -, hdrop, -⟩ | ⟨hcond, -⟩
  · cases hdrop
  · simp only [copyRange, hcond, ↓reduceIte, hstart]

/-- A correlation that sends its half-frame finds its peak early enough for the window. -/
def CopyFits (lib : PssLib F S Det Tab) (s : PssImpl F Det Tab) (c : Call S) : Prop :=
  s.findsPss →
    (¬ s.psrThreshold < (lib.findPss s.pss (c.halfFrame 0)).psr ∧ s.tracking.score = 0) ∨
    (lib.findPss s.pss (c.halfFrame 0)).peakPos - slotLength + halfFrameLength ≤
      c.ninputItems - ((history : ℤ) - 1)

/-- A range lies inside the window when its ends do. -/
private theorem range_inside_iff {p : Prop} [Decidable p] {a b n : ℤ} (hab : a < b) :
    (∀ lo hi, (if p then some (a, b) else none) = some (lo, hi) →
      ∀ i, lo ≤ i → i < hi → 0 ≤ i ∧ i < n) ↔ (p → 0 ≤ a ∧ b ≤ n) := by
  constructor
  · intro h hp
    have hrange := h a b (by simp [hp])
    have hfirst := hrange a le_rfl hab
    have hlast := hrange (b - 1) (by omega) (by omega)
    omega
  · intro h lo hi heq i hlo hhi
    split at heq
    · rename_i hp
      cases heq
      have := h hp
      omega
    · cases heq

/-- In every reachable state and for every call, all indices read lie in the window exactly
when a correlation that sends its half-frame finds its peak early enough: at most at
`ninputItems - 18239`, which is 960 for the least window. -/
theorem copy_in_window_iff {nId2 : ℤ} {threshold : F} {after every : ℤ}
    (hpeak : ∀ det samples, 0 ≤ (lib.findPss det samples).peakPos)
    (hmake : make lib nId2 threshold after every = .ok s₀)
    (hrun : Machine.Run (step lib) s₀ tr s) (c : Call S) :
    (∀ lo hi, copyRange lib s c = some (lo, hi) →
      ∀ i, lo ≤ i → i < hi → 0 ≤ i ∧ i < (c.ninputItems : ℤ)) ↔ CopyFits lib s c := by
  have haligned := aligned_of_run hmake hrun
  obtain ⟨n, hn, hnoutput⟩ := c.output_multiple
  have hforecast := c.forecast
  -- the range is a whole half-frame, so it is in the window when both of its ends are
  have hnonempty : (history : ℤ) - 1 + ((findFrame lib s c).peakPos - slotLength) <
      history - 1 + ((findFrame lib s c).peakPos - slotLength + halfFrameLength) := by
    simp only [halfFrameLength, slotLength]
    omega
  simp only [copyRange, if_congr (sends_iff haligned.coherent) rfl rfl]
  rw [range_inside_iff hnonempty]
  by_cases hfinds : s.findsPss
  · -- `hpeak` and the history keep the lower end in; the peak decides about the upper one
    have hpos := hpeak s.pss (c.halfFrame 0)
    have hpsr : (findFrame lib s c).psrOverThreshold = true ↔
        s.psrThreshold < (lib.findPss s.pss (c.halfFrame 0)).psr := by
      simp [psrOverThreshold, findFrame, hfinds]
    rw [hpsr, findFrame_peakPos_of_findsPss hfinds, CopyFits]
    have hsends : ¬ (¬ s.psrThreshold < (lib.findPss s.pss (c.halfFrame 0)).psr ∧
        s.tracking.score = 0) ↔
        s.psrThreshold < (lib.findPss s.pss (c.halfFrame 0)).psr ∨ s.tracking.score ≠ 0 := by
      tauto
    simp only [hfinds, true_imp_iff, or_iff_not_imp_left (b := _ ≤ _), hsends, history,
      halfFrameLength, slotLength]
    refine imp_congr_right fun _ => ?_
    omega
  · -- a skipped correlation copies from `in[0]`, which the least window covers
    have htracking : s.tracking.isTracking = true := by
      by_contra hflag
      exact hfinds (.inl hflag)
    rw [findFrame_peakPos_of_not_findsPss hfinds, haligned.peakPos htracking]
    simp only [CopyFits, hfinds, false_imp_iff, iff_true, history, halfFrameLength,
      slotLength] at *
    omega

/-- With its peak at 960 the first call stays inside the least window. -/
theorem copy_in_window_playback :
    ∃ lo hi, copyRange (.playback Unit [(960, 2)]) (.playback [(960, 2)] 1 16 8)
        (Call.minimal (fun _ => ()) 0) = some (lo, hi) ∧
      ∀ i, lo ≤ i → i < hi →
        0 ≤ i ∧ i < ((Call.minimal (fun _ => ()) 0).ninputItems : ℤ) := by
  have hfits := (copy_in_window_iff (PssLib.playback_peakPos_nonneg Unit _)
    (make_playback Unit [(960, 2)] 1 16 8) .nil (Call.minimal (fun _ => ()) 0)).mpr
    fun _ => .inr (by decide)
  exact ⟨9599, 19199, rfl, hfits 9599 19199 rfl⟩

/-- A first call on the least window whose peak is one sample past the slot copies an item
past the window, although every peak is in range. -/
theorem copy_past_window :
    ¬ ∀ correlations : List (ℕ × ℤ),
      (∀ found ∈ correlations, found.1 < halfFrameLength + symbolSz) →
      ∀ tr s, Machine.Run (step (.playback Unit correlations)) (.playback correlations 1 16 8)
        tr s → ∀ (c : Call Unit) lo hi, copyRange (.playback Unit correlations) s c =
          some (lo, hi) → ∀ i, lo ≤ i → i < hi → 0 ≤ i ∧ i < (c.ninputItems : ℤ) := by
  intro h
  -- the range is `[9600, 19200)`, and the window ends at 19199
  have hlate := h [(961, 2)] (by decide) [] _ .nil (Call.minimal (fun _ => ()) 0) 9600 19200
    rfl 19199 (by decide) (by decide)
  exact absurd hlate.2 (by decide)

end Window

end PssImpl

end LteTrigger
