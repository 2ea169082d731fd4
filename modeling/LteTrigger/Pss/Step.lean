import LteTrigger.Pss.Basic

/-!
# What one call of the `pss` block does

Each part of `general_work` has its lemmas here, and later modules use only these. The two
case lemmas say all a call can do: `emitFrame_cases` for the half-frame that goes out and
`generalWork_cases` for the whole call. `generalWork_spec` collects the members that do not
depend on the tracking decision.
-/

namespace LteTrigger

namespace PssImpl

variable {F S Det Tab : Type} {lib : PssLib F S Det Tab} {s s' : PssImpl F Det Tab}
  {c : Call S} {w : Work S} {e : Emission S}

/-! ### The correlation -/

section FindFrame

/-- The correlation moves the timer only. -/
@[simp]
theorem findFrame_isTracking :
    (findFrame lib s c).tracking.isTracking = s.tracking.isTracking := by
  unfold findFrame
  split <;> rfl

@[simp]
theorem findFrame_score : (findFrame lib s c).tracking.score = s.tracking.score := by
  unfold findFrame
  split <;> rfl

@[simp]
theorem findFrame_trackingLost : (findFrame lib s c).trackingLost = s.trackingLost := by
  unfold findFrame
  split <;> rfl

@[simp]
theorem findFrame_psrThreshold : (findFrame lib s c).psrThreshold = s.psrThreshold := by
  unfold findFrame
  split <;> rfl

@[simp]
theorem findFrame_trackAfterNFrames :
    (findFrame lib s c).trackAfterNFrames = s.trackAfterNFrames := by
  unfold findFrame
  split <;> rfl

@[simp]
theorem findFrame_trackEveryNFrames :
    (findFrame lib s c).trackEveryNFrames = s.trackEveryNFrames := by
  unfold findFrame
  split <;> rfl

@[simp]
theorem findFrame_psrMax : (findFrame lib s c).psrMax = s.psrMax := by
  unfold findFrame
  split <;> rfl

@[simp]
theorem findFrame_cfo : (findFrame lib s c).cfo = s.cfo := by
  unfold findFrame
  split <;> rfl

@[simp]
theorem findFrame_cfoData : (findFrame lib s c).cfoData = s.cfoData := by
  unfold findFrame
  split <;> rfl

theorem findFrame_psrData : (findFrame lib s c).psrData =
    if s.findsPss then s.psrData.push lib.sizeWidth (lib.findPss s.pss (c.halfFrame 0)).psr
    else s.psrData := by
  unfold findFrame
  split <;> rfl

theorem findFrame_psr : (findFrame lib s c).psr =
    if s.findsPss then (lib.findPss s.pss (c.halfFrame 0)).psr else s.psr := by
  unfold findFrame
  split <;> rfl

/-- A correlating call stores the peak it found. -/
theorem findFrame_peakPos_of_findsPss (h : s.findsPss) :
    (findFrame lib s c).peakPos = (lib.findPss s.pss (c.halfFrame 0)).peakPos := by
  simp [findFrame, h]

/-- A call that skips the correlation keeps the stored peak. -/
theorem findFrame_peakPos_of_not_findsPss (h : ¬ s.findsPss) :
    (findFrame lib s c).peakPos = s.peakPos := by
  simp [findFrame, h]

end FindFrame

variable [FloatOps F]

/-! ### The score -/

section UpdateScore

@[simp]
theorem updateScore_psr : (updateScore lib s).psr = s.psr := by
  unfold updateScore incrScore resetScore
  grind

@[simp]
theorem updateScore_psrThreshold : (updateScore lib s).psrThreshold = s.psrThreshold := by
  unfold updateScore incrScore resetScore
  grind

@[simp]
theorem updateScore_peakPos : (updateScore lib s).peakPos = s.peakPos := by
  unfold updateScore incrScore resetScore
  grind

@[simp]
theorem updateScore_trackAfterNFrames :
    (updateScore lib s).trackAfterNFrames = s.trackAfterNFrames := by
  unfold updateScore incrScore resetScore
  grind

@[simp]
theorem updateScore_trackEveryNFrames :
    (updateScore lib s).trackEveryNFrames = s.trackEveryNFrames := by
  unfold updateScore incrScore resetScore
  grind

theorem updateScore_psrMax (lib : PssLib F S Det Tab) (s : PssImpl F Det Tab) :
    (updateScore lib s).psrMax = if s.psrMax < s.psr then s.psr else s.psrMax := by
  unfold updateScore incrScore resetScore
  grind

/-- The score update executes the body of `reset_score`. -/
def LosesScore (s : PssImpl F Det Tab) : Prop :=
  s.psrOverThreshold = false ∧ s.tracking.score ≠ 0

instance (s : PssImpl F Det Tab) : Decidable s.LosesScore :=
  inferInstanceAs (Decidable (_ ∧ _))

/-- The body of `reset_score` clears both rings and the last frequency. -/
theorem updateScore_of_losesScore (lib : PssLib F S Det Tab) (h : s.LosesScore) :
    (updateScore lib s).tracking = {} ∧
      (updateScore lib s).psrData = memsetData s.psrData ∧
      (updateScore lib s).cfoData = memsetData s.cfoData ∧
      (updateScore lib s).cfo = { s.cfo with lastFreq := 0 } := by
  obtain ⟨hmiss, hscore⟩ := h
  simp only [updateScore, hmiss, Bool.false_eq_true, ↓reduceIte, resetScore, hscore]
  split <;> exact ⟨rfl, rfl, rfl, rfl⟩

/-- Without it the rings and the corrector stay as they are. -/
theorem updateScore_of_not_losesScore (lib : PssLib F S Det Tab) (h : ¬ s.LosesScore) :
    (updateScore lib s).psrData = s.psrData ∧ (updateScore lib s).cfoData = s.cfoData ∧
      (updateScore lib s).cfo = s.cfo := by
  rw [LosesScore, not_and, Bool.eq_false_iff] at h
  unfold updateScore incrScore resetScore
  grind

end UpdateScore

/-! ### The whole call -/

/-- A half-frame goes out either in tracking state, corrected and untagged, or otherwise,
tagged as it was copied. -/
theorem emitFrame_cases (h : emitFrame lib s c = .ok (s', e)) :
    (s.tracking.isTracking = true ∧ e.tagged = false ∧
      ∃ pss cfoData cfo, s' = { s with peakPos := slotLength, pss, cfoData, cfo }) ∨
    (s.tracking.isTracking = false ∧ e.tagged = true ∧
      s' = { s with peakPos := slotLength, trackingLost := false }) := by
  unfold emitFrame at h
  cases htracking : s.tracking.isTracking with
  | true =>
    left
    simp only [htracking, ↓reduceIte] at h
    split at h
    · -- the channel estimate failed, and the call threw
      cases h
    · cases h
      exact ⟨rfl, rfl, _, _, _, rfl⟩
  | false =>
    right
    simp only [htracking, Bool.false_eq_true, ↓reduceIte, Except.ok.injEq, Prod.mk.injEq] at h
    obtain ⟨rfl, rfl⟩ := h
    exact ⟨rfl, rfl, rfl⟩

/-- The samples that go out start at the stored peak less one slot. -/
theorem emitFrame_copied (h : emitFrame lib s c = .ok (s', e)) :
    e.frameStart = s.peakPos - slotLength ∧ e.copied = c.halfFrame e.frameStart := by
  unfold emitFrame at h
  cases htracking : s.tracking.isTracking with
  | true =>
    simp only [htracking, ↓reduceIte] at h
    split at h
    · cases h
    · cases h
      exact ⟨rfl, rfl⟩
  | false =>
    simp only [htracking, Bool.false_eq_true, ↓reduceIte, Except.ok.injEq, Prod.mk.injEq] at h
    obtain ⟨rfl, rfl⟩ := h
    exact ⟨rfl, rfl⟩

/-- What goes out in tracking state adds its estimate to the CFO ring and is corrected by the
mean that includes it. -/
theorem emitFrame_of_tracking (h : emitFrame lib s c = .ok (s', e))
    (htracking : s.tracking.isTracking = true) :
    s'.cfoData = s.cfoData.push lib.sizeWidth
        (lib.pssCfoCompute s.pss (pssSymbol e.copied)).1 ∧
      (e.out, s'.cfo) = lib.cfoCorrect s.cfo e.copied (-s'.meanCfo / (symbolSz : F)) := by
  unfold emitFrame at h
  simp only [htracking, ↓reduceIte] at h
  split at h
  · cases h
  · cases h
    exact ⟨rfl, rfl⟩

/-- What goes out in another state is not corrected. -/
theorem emitFrame_of_not_tracking (h : emitFrame lib s c = .ok (s', e))
    (hflag : s.tracking.isTracking = false) :
    s'.cfoData = s.cfoData ∧ s'.cfo = s.cfo ∧ e.out = e.copied := by
  unfold emitFrame at h
  simp only [hflag, Bool.false_eq_true, ↓reduceIte, Except.ok.injEq, Prod.mk.injEq] at h
  obtain ⟨rfl, rfl⟩ := h
  exact ⟨rfl, rfl, rfl⟩

/-- A call that returns either sends a half-frame or drops one. It drops one exactly when
the correlation is not over the threshold and no loss is to be signalled. -/
theorem generalWork_cases (h : generalWork lib s c = .ok (s', w)) :
    ((findFrame lib s c).psrOverThreshold = false ∧
      (updateScore lib (findFrame lib s c)).trackingLost = false ∧
      w = .drop ∧ s' = updateScore lib (findFrame lib s c)) ∨
    (((findFrame lib s c).psrOverThreshold = true ∨
        (updateScore lib (findFrame lib s c)).trackingLost = true) ∧
      ∃ e, w = .emit e ∧
        emitFrame lib (updateScore lib (findFrame lib s c)) c = .ok (s', e)) := by
  simp only [generalWork] at h
  split at h
  · -- over the threshold, or a loss to signal
    rename_i hcond
    right
    refine ⟨hcond, ?_⟩
    cases hemit : emitFrame lib (updateScore lib (findFrame lib s c)) c with
    | error err => simp [hemit, Except.map] at h
    | ok r =>
      obtain ⟨u, e⟩ := r
      simp only [hemit, Except.map, Except.ok.injEq, Prod.mk.injEq] at h
      obtain ⟨rfl, rfl⟩ := h
      exact ⟨e, rfl, rfl⟩
  · -- nothing to see
    rename_i hcond
    left
    simp only [not_or, Bool.not_eq_true] at hcond
    simp only [Except.ok.injEq, Prod.mk.injEq] at h
    obtain ⟨rfl, rfl⟩ := h
    exact ⟨hcond.1, hcond.2, rfl, rfl⟩

/-- The members a call leaves in the same way on every path. -/
theorem generalWork_spec (h : generalWork lib s c = .ok (s', w)) :
    s'.psr = (findFrame lib s c).psr ∧ s'.psrThreshold = s.psrThreshold ∧
      s'.trackAfterNFrames = s.trackAfterNFrames ∧
      s'.trackEveryNFrames = s.trackEveryNFrames ∧
      s'.tracking = (updateScore lib (findFrame lib s c)).tracking := by
  rcases generalWork_cases h with ⟨-, -, -, rfl⟩ | ⟨-, e, -, hemit⟩
  · simp
  · -- neither way out of `emitFrame` touches them
    rcases emitFrame_cases hemit with ⟨-, -, _, _, _, rfl⟩ | ⟨-, -, rfl⟩ <;> simp

/-- A half-frame sent by a call starts one slot before the stored peak, which is then one
slot into the next half-frame. -/
theorem generalWork_emit (h : generalWork lib s c = .ok (s', .emit e)) :
    e.frameStart = (findFrame lib s c).peakPos - slotLength ∧
      e.copied = c.halfFrame e.frameStart ∧ s'.peakPos = slotLength := by
  rcases generalWork_cases h with ⟨-, -, hdrop, -⟩ | ⟨-, e', he, hemit⟩
  · cases hdrop
  · cases he
    obtain ⟨hstart, hcopied⟩ := emitFrame_copied hemit
    refine ⟨by simpa using hstart, hcopied, ?_⟩
    rcases emitFrame_cases hemit with ⟨-, -, _, _, _, rfl⟩ | ⟨-, -, rfl⟩ <;> rfl

/-- What a call leaves in the maximum and in the ring of the ratios. -/
theorem generalWork_psr (h : generalWork lib s c = .ok (s', w)) :
    s'.psrMax = (if s.psrMax < s'.psr then s'.psr else s.psrMax) ∧
      s'.psrData = if (findFrame lib s c).LosesScore then memsetData (findFrame lib s c).psrData
        else (findFrame lib s c).psrData := by
  have hpsr := (generalWork_spec h).1
  have hring : (updateScore lib (findFrame lib s c)).psrData =
      if (findFrame lib s c).LosesScore then memsetData (findFrame lib s c).psrData
      else (findFrame lib s c).psrData := by
    split
    · exact (updateScore_of_losesScore lib ‹_›).2.1
    · exact (updateScore_of_not_losesScore lib ‹_›).1
  rw [← hring, hpsr]
  have hmax := updateScore_psrMax lib (findFrame lib s c)
  rw [findFrame_psrMax] at hmax
  rcases generalWork_cases h with ⟨-, -, -, rfl⟩ | ⟨-, e, -, hemit⟩
  · exact ⟨hmax, rfl⟩
  · -- `emitFrame` touches neither
    rcases emitFrame_cases hemit with ⟨-, -, _, _, _, rfl⟩ | ⟨-, -, rfl⟩ <;> exact ⟨hmax, rfl⟩

/-- What a call leaves in the CFO ring and in the corrector: a loss resets both, and a
half-frame sent in tracking state adds its estimate and is corrected. -/
theorem generalWork_cfo (h : generalWork lib s c = .ok (s', w)) :
    ((findFrame lib s c).LosesScore ∧ (∀ e, w = .emit e → e.tagged = true ∧ e.out = e.copied) ∧
      s'.cfoData = memsetData s.cfoData ∧ s'.cfo = { s.cfo with lastFreq := 0 }) ∨
    (¬ (findFrame lib s c).LosesScore ∧ (∀ e, w = .emit e → e.tagged = true ∧ e.out = e.copied) ∧
      s'.cfoData = s.cfoData ∧ s'.cfo = s.cfo) ∨
    (¬ (findFrame lib s c).LosesScore ∧ ∃ e, w = .emit e ∧ e.tagged = false ∧
      s'.cfoData = s.cfoData.push lib.sizeWidth (lib.pssCfoCompute
        (updateScore lib (findFrame lib s c)).pss (pssSymbol e.copied)).1 ∧
      (e.out, s'.cfo) = lib.cfoCorrect s.cfo e.copied (-s'.meanCfo / (symbolSz : F))) := by
  by_cases hloss : (findFrame lib s c).LosesScore
  · left
    obtain ⟨htracking, -, hdata, hcfo⟩ := updateScore_of_losesScore lib hloss
    rw [findFrame_cfoData] at hdata
    rw [findFrame_cfo] at hcfo
    rcases generalWork_cases h with ⟨-, -, rfl, rfl⟩ | ⟨-, e, rfl, hemit⟩
    · exact ⟨hloss, by simp, hdata, hcfo⟩
    · obtain ⟨hdata', hcfo', hout⟩ := emitFrame_of_not_tracking hemit (by rw [htracking])
      rcases emitFrame_cases hemit with ⟨hflag, -⟩ | ⟨-, htag, -⟩
      · simp [htracking] at hflag
      · refine ⟨hloss, ?_, hdata'.trans hdata, hcfo'.trans hcfo⟩
        rintro _ ⟨⟩
        exact ⟨htag, hout⟩
  · right
    obtain ⟨-, hdata, hcfo⟩ := updateScore_of_not_losesScore lib hloss
    rw [findFrame_cfoData] at hdata
    rw [findFrame_cfo] at hcfo
    rcases generalWork_cases h with ⟨-, -, rfl, rfl⟩ | ⟨-, e, rfl, hemit⟩
    · exact .inl ⟨hloss, by simp, hdata, hcfo⟩
    · rcases emitFrame_cases hemit with ⟨hflag, htag, -⟩ | ⟨hflag, htag, -⟩
      · obtain ⟨hpush, hcorrect⟩ := emitFrame_of_tracking hemit hflag
        rw [hdata] at hpush
        rw [hcfo] at hcorrect
        exact .inr ⟨hloss, e, rfl, htag, hpush, hcorrect⟩
      · obtain ⟨hdata', hcfo', hout⟩ := emitFrame_of_not_tracking hemit hflag
        refine .inl ⟨hloss, ?_, hdata'.trans hdata, hcfo'.trans hcfo⟩
        rintro _ ⟨⟩
        exact ⟨htag, hout⟩

/-- What a constructor that returns has made. -/
theorem make_eq {nId2 : ℤ} {threshold : F} {after every : ℤ}
    (hmake : make lib nId2 threshold after every = .ok s) :
    ∃ det pss cfo, lib.pssInit halfFrameLength = some det ∧
      lib.pssSetNId2 det nId2 = some pss ∧ lib.cfoInit halfFrameLength = some cfo ∧
      s = { tracking := {}, trackingLost := false, pss, psrData := .init 0, psr := 0,
             psrMax := 0, peakPos := 0, cfo, cfoData := .init 0, nId2,
             psrThreshold := threshold, trackAfterNFrames := after,
             trackEveryNFrames := every } := by
  unfold make at hmake
  split at hmake
  · cases hmake
  · rename_i det hdet
    split at hmake
    · cases hmake
    · rename_i pss hpss
      split at hmake
      · cases hmake
      · rename_i cfo hcfo
        exact ⟨det, pss, cfo, hdet, hpss, hcfo, (Except.ok.inj hmake).symm⟩

/-- The two events, with the work done by a call. -/
theorem step_cases {i : Event F S} {o : Option (Work S)} (h : step lib s i = .ok (s', o)) :
    (∃ c w, i = .work c ∧ o = some w ∧ generalWork lib s c = .ok (s', w)) ∨
    (∃ threshold, i = .setPsrThreshold threshold ∧ o = none ∧
      s' = s.setPsrThreshold threshold) := by
  cases i with
  | work c =>
    left
    simp only [step] at h
    cases hw : generalWork lib s c with
    | error err => simp [hw, Except.map] at h
    | ok r =>
      obtain ⟨u, w⟩ := r
      simp only [hw, Except.map, Except.ok.injEq, Prod.mk.injEq] at h
      obtain ⟨rfl, rfl⟩ := h
      exact ⟨c, w, rfl, rfl, hw⟩
  | setPsrThreshold threshold =>
    right
    simp only [step, Except.ok.injEq, Prod.mk.injEq] at h
    exact ⟨threshold, rfl, h.2.symm, h.1.symm⟩

end PssImpl

end LteTrigger
