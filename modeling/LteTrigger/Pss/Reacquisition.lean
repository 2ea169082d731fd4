import LteTrigger.Pss.Acquisition

/-!
# After a loss the `pss` block behaves like a new one

Two blocks are twins when they agree in everything that later calls can observe: the
tracking state, the detector, the live slots of the two ring buffers and the parameters,
and, while they track, the stored ratio and peak. Stale ring slots, the maximum ratio, the
CFO corrector and, while they search, the stored ratio and peak may differ. Twins stay
twins (`Twin.step`), and a block that has just lost its cell is the twin of a new block
(`twin_of_loss`).

## Main result

* `reset_like_new`: from a loss on, the block and a new block run in lockstep and cannot be
  told apart.
-/

namespace LteTrigger

/-- The average only reads the live slots. -/
theorem computeMovingAvg_congr {F : Type} [FloatOps F] {b c : RingBuffer F movingAvgSz}
    (h : b.Agree c) : computeMovingAvg b.data b.count = computeMovingAvg c.data c.count := by
  obtain ⟨hcount, hdata⟩ := h
  simp only [computeMovingAvg, hcount]
  split
  · rfl
  congr 1
  apply List.foldl_ext
  intro acc j hj
  congr 1
  apply hdata
  -- a slot among the first `min count moving_avg_sz` ones is live
  obtain ⟨i, hi, rfl⟩ := List.mem_take_iff_getElem.mp hj
  simp only [List.getElem_finRange, List.length_finRange, Fin.val_cast] at hi ⊢
  rw [hcount]
  split at hi <;> omega

/-- The half-frame that goes out before the CFO correction, and whether it is tagged. -/
def Work.uncorrected {S : Type} (w : Work S) : Option (HalfFrame S × Bool) :=
  w.emission.map fun e => (e.copied, e.tagged)

/-- The same work up to the CFO correction. -/
structure Work.Same {S : Type} (w w' : Work S) : Prop where
  nconsume : w'.nconsume = w.nconsume
  noutput : w'.noutput = w.noutput
  uncorrected : w'.uncorrected = w.uncorrected

namespace PssImpl

variable {F S Det Tab : Type} {lib : PssLib F S Det Tab} {s s' u u' s₀ : PssImpl F Det Tab}
  {c : Call S} {w : Work S}

/-- The detector states that the block can bring about from `det₀`. -/
inductive DetReach (lib : PssLib F S Det Tab) (det₀ : Det) : Det → Prop
  | init : DetReach lib det₀ det₀
  | find {det : Det} {samples : HalfFrame S} :
      DetReach lib det₀ det → DetReach lib det₀ (lib.findPss det samples).pss
  | reset {det : Det} : DetReach lib det₀ det → DetReach lib det₀ (lib.pssReset det)
  | cfo {det : Det} {samples : Symbol S} :
      DetReach lib det₀ det → DetReach lib det₀ (lib.pssCfoCompute det samples).2

/-- Agreement in what the calls of a block read before they write it. -/
structure Alike (s u : PssImpl F Det Tab) : Prop where
  tracking : s.tracking = u.tracking
  trackingLost : s.trackingLost = u.trackingLost
  pss : s.pss = u.pss
  psrData : s.psrData.Agree u.psrData
  cfoData : s.cfoData.Agree u.cfoData
  psrThreshold : s.psrThreshold = u.psrThreshold
  trackAfterNFrames : s.trackAfterNFrames = u.trackAfterNFrames
  trackEveryNFrames : s.trackEveryNFrames = u.trackEveryNFrames

/-- Agreement that includes the result of the last correlation. -/
structure AlikeFound (s u : PssImpl F Det Tab) : Prop extends Alike s u where
  psr : s.psr = u.psr
  peakPos : s.peakPos = u.peakPos

/-- Agreement between two calls: the result of the last correlation only matters while the
blocks track. -/
structure Twin (s u : PssImpl F Det Tab) : Prop extends Alike s u where
  found : s.tracking.isTracking = true → s.psr = u.psr ∧ s.peakPos = u.peakPos

theorem Alike.symm (h : Alike s u) : Alike u s where
  tracking := h.tracking.symm
  trackingLost := h.trackingLost.symm
  pss := h.pss.symm
  psrData := h.psrData.symm
  cfoData := h.cfoData.symm
  psrThreshold := h.psrThreshold.symm
  trackAfterNFrames := h.trackAfterNFrames.symm
  trackEveryNFrames := h.trackEveryNFrames.symm

theorem Twin.symm (h : Twin s u) : Twin u s where
  toAlike := h.toAlike.symm
  found htracking :=
    let ⟨hpsr, hpeak⟩ := h.found (h.tracking ▸ htracking)
    ⟨hpsr.symm, hpeak.symm⟩

/-- After the correlation twins agree in its result too: it is either new or kept. -/
theorem Twin.findFrame (h : Twin s u) (lib : PssLib F S Det Tab) (c : Call S) :
    AlikeFound (PssImpl.findFrame lib s c) (PssImpl.findFrame lib u c) := by
  have hfinds : s.findsPss ↔ u.findsPss := by simp [findsPss, h.tracking]
  by_cases hs : s.findsPss
  · -- both correlate with equal detectors
    have hu := hfinds.mp hs
    simp only [PssImpl.findFrame, hs, hu, ↓reduceIte]
    constructor
    · exact ⟨by simp only [h.tracking, h.trackEveryNFrames], h.trackingLost, by rw [h.pss],
        by rw [h.pss]; exact h.psrData.push _ _, h.cfoData, h.psrThreshold,
        h.trackAfterNFrames, h.trackEveryNFrames⟩
    · simp only [h.pss]
    · simp only [h.pss]
  · -- both skip, so both track and agree in the last result
    have hu : ¬ u.findsPss := fun h => hs (hfinds.mpr h)
    have htracking : s.tracking.isTracking = true := by
      by_contra hflag
      exact hs (.inl hflag)
    simp only [PssImpl.findFrame, hs, hu, ↓reduceIte]
    obtain ⟨hpsr, hpeak⟩ := h.found htracking
    exact ⟨⟨by simp only [h.tracking], h.trackingLost, h.pss, h.psrData, h.cfoData,
      h.psrThreshold, h.trackAfterNFrames, h.trackEveryNFrames⟩, hpsr, hpeak⟩

/-- The correlation keeps the detector within reach. -/
theorem DetReach.findFrame {det₀ : Det} (h : DetReach lib det₀ s.pss) (c : Call S) :
    DetReach lib det₀ (PssImpl.findFrame lib s c).pss := by
  unfold PssImpl.findFrame
  split
  · exact h.find
  · exact h

theorem AlikeFound.incrScore (h : AlikeFound s u) :
    AlikeFound (PssImpl.incrScore lib s) (PssImpl.incrScore lib u) := by
  unfold PssImpl.incrScore
  rw [h.tracking, h.trackAfterNFrames]
  dsimp only
  split
  · exact h
  split
  · -- the last hit needed: tracking starts and the detector is reset
    exact { h with
      tracking := rfl
      trackAfterNFrames := rfl
      pss := congrArg lib.pssReset h.pss }
  · exact { h with
      tracking := rfl
      trackAfterNFrames := rfl }

variable [FloatOps F]

/-- A reset forgets the slots that may differ. -/
theorem AlikeFound.resetScore (h : AlikeFound s u) :
    AlikeFound (PssImpl.resetScore lib s) (PssImpl.resetScore lib u) := by
  unfold PssImpl.resetScore
  rw [h.tracking]
  dsimp only
  split
  · exact h
  · exact { h with
      tracking := rfl
      pss := congrArg lib.pssReset h.pss
      trackingLost := rfl
      psrData := RingBuffer.agree_of_count_zero rfl rfl
      cfoData := RingBuffer.agree_of_count_zero rfl rfl }

theorem AlikeFound.updateScore (h : AlikeFound s u) (lib : PssLib F S Det Tab) :
    AlikeFound (PssImpl.updateScore lib s) (PssImpl.updateScore lib u) := by
  have hover : s.psrOverThreshold = u.psrOverThreshold := by
    simp [psrOverThreshold, h.psr, h.psrThreshold]
  -- the maximum is written last and belongs to no agreement
  have hmax {a b : PssImpl F Det Tab} (hab : AlikeFound a b) :
      AlikeFound (if a.psrMax < a.psr then { a with psrMax := a.psr } else a)
        (if b.psrMax < b.psr then { b with psrMax := b.psr } else b) := by
    split <;> split <;> exact { hab with }
  unfold PssImpl.updateScore
  rw [← hover]
  cases s.psrOverThreshold with
  | true => exact hmax h.incrScore
  | false => exact hmax h.resetScore

/-- Blocks that agree send the same half-frame up to the CFO correction, and agree again. -/
theorem AlikeFound.emitFrame (hchest : ∀ det x y, lib.pssChest det x = lib.pssChest det y)
    (h : AlikeFound s u) {e : Emission S} (hemit : PssImpl.emitFrame lib s c = .ok (s', e)) :
    ∃ u' e', PssImpl.emitFrame lib u c = .ok (u', e') ∧ AlikeFound s' u' ∧
      e'.frameStart = e.frameStart ∧ e'.copied = e.copied ∧ e'.tagged = e.tagged := by
  unfold PssImpl.emitFrame at hemit ⊢
  rw [← h.tracking, ← h.peakPos, ← h.pss]
  dsimp only at hemit ⊢
  cases htracking : s.tracking.isTracking with
  | true =>
    simp only [htracking, ↓reduceIte] at hemit ⊢
    split at hemit
    · cases hemit
    rename_i hok
    cases hemit
    -- the corrected samples may differ, but the channel estimate succeeds for both
    rw [if_neg (by rwa [hchest _ _ (pssSymbol _)])]
    refine ⟨_, _, rfl, ?_, rfl, rfl, rfl⟩
    exact { h with
      tracking := rfl
      pss := rfl
      peakPos := rfl
      cfoData := h.cfoData.push _ _ }
  | false =>
    simp only [htracking, Bool.false_eq_true, ↓reduceIte] at hemit ⊢
    cases hemit
    exact ⟨_, _, rfl, { h with
      tracking := rfl
      trackingLost := rfl
      pss := rfl
      peakPos := rfl }, rfl, rfl, rfl⟩

/-- On one call twins do the same work, and stay twins. -/
theorem Twin.generalWork (hchest : ∀ det x y, lib.pssChest det x = lib.pssChest det y)
    (h : Twin s u) (hw : PssImpl.generalWork lib s c = .ok (s', w)) :
    ∃ u' w', PssImpl.generalWork lib u c = .ok (u', w') ∧ Twin s' u' ∧ Work.Same w w' := by
  have hfound := h.findFrame lib c
  have hupdate := hfound.updateScore lib
  have hover : (PssImpl.findFrame lib s c).psrOverThreshold =
      (PssImpl.findFrame lib u c).psrOverThreshold := by
    simp [psrOverThreshold, hfound.psr, h.psrThreshold]
  simp only [PssImpl.generalWork]
  rw [← hover, ← hupdate.trackingLost]
  rcases generalWork_cases hw with ⟨hmiss, hlost, rfl, rfl⟩ | ⟨hsends, e, rfl, hemit⟩
  · -- both drop their half-frame
    rw [if_neg (by simp [hmiss, hlost])]
    exact ⟨_, _, rfl, ⟨hupdate.toAlike, fun _ => ⟨hupdate.psr, hupdate.peakPos⟩⟩,
      rfl, rfl, rfl⟩
  · obtain ⟨u', e', hemit', halike, hstart, hcopied, htagged⟩ := hupdate.emitFrame hchest hemit
    rw [if_pos hsends, hemit']
    exact ⟨u', .emit e', rfl, ⟨halike.toAlike, fun _ => ⟨halike.psr, halike.peakPos⟩⟩,
      by simp [Work.nconsume, hstart], rfl, by simp [Work.uncorrected, Work.emission, hcopied,
        htagged]⟩

/-- On one event twins stay twins. -/
theorem Twin.step (hchest : ∀ det x y, lib.pssChest det x = lib.pssChest det y)
    (h : Twin s u) {i : Event F S} {o : Option (Work S)}
    (hstep : PssImpl.step lib s i = .ok (s', o)) :
    ∃ u' o', PssImpl.step lib u i = .ok (u', o') ∧ Twin s' u' ∧ Option.Rel Work.Same o o' := by
  rcases step_cases hstep with ⟨c, w, rfl, rfl, hw⟩ | ⟨threshold, rfl, rfl, rfl⟩
  · obtain ⟨u', w', hw', htwin, hsame⟩ := h.generalWork hchest hw
    exact ⟨u', some w', by simp [PssImpl.step, hw', Except.map], htwin, .some hsame⟩
  · exact ⟨_, none, rfl, { h with psrThreshold := rfl }, .none⟩

/-! ### The state after a loss -/

/-- A call that loses the cell leaves the score and the rings as a constructor does, and the
detector reset. -/
theorem generalWork_loss (h : s.Coherent) (hw : generalWork lib s c = .ok (s', w))
    (hmiss : ¬ s.psrThreshold < s'.psr) (hscore : s.tracking.score ≠ 0) :
    s'.tracking = {} ∧ s'.trackingLost = false ∧
      s'.pss = lib.pssReset (findFrame lib s c).pss ∧
      s'.psrData.count = 0 ∧ s'.cfoData.count = 0 := by
  have hover : (findFrame lib s c).psrOverThreshold = false := by
    rw [findFrame_psrOverThreshold hw]
    exact decide_eq_false hmiss
  have hupdate : (updateScore lib (findFrame lib s c)).tracking = {} ∧
      (updateScore lib (findFrame lib s c)).pss = lib.pssReset (findFrame lib s c).pss ∧
      (updateScore lib (findFrame lib s c)).psrData.count = 0 ∧
      (updateScore lib (findFrame lib s c)).cfoData.count = 0 := by
    simp only [updateScore, hover, Bool.false_eq_true, ↓reduceIte, resetScore, findFrame_score,
      hscore]
    split <;> simp [Tracking.stop, memsetData]
  -- the tagged half-frame goes out after that and changes none of it
  obtain ⟨htracking, hpss, hpsr, hcfo⟩ := hupdate
  have hlost := (generalWork_coherent h hw).not_lost
  rcases generalWork_cases hw with ⟨-, -, -, rfl⟩ | ⟨-, e, -, hemit⟩
  · exact ⟨htracking, hlost, hpss, hpsr, hcfo⟩
  · rcases emitFrame_cases hemit with ⟨hflag, -⟩ | ⟨-, -, rfl⟩
    · simp [htracking] at hflag
    · exact ⟨htracking, hlost, hpss, hpsr, hcfo⟩

/-- What a constructor leaves, whatever the threshold. -/
theorem make_spec {nId2 : ℤ} {threshold : F} {after every : ℤ}
    (hmake : make lib nId2 threshold after every = .ok s) :
    s.tracking = {} ∧ s.trackingLost = false ∧ s.psrData.count = 0 ∧ s.cfoData.count = 0 ∧
      s.psrThreshold = threshold ∧ s.trackAfterNFrames = after ∧
      s.trackEveryNFrames = every ∧
      ∃ det, lib.pssInit halfFrameLength = some det ∧ lib.pssSetNId2 det nId2 = some s.pss := by
  obtain ⟨det, pss, cfo, hdet, hpss, -, rfl⟩ := make_eq hmake
  exact ⟨rfl, rfl, rfl, rfl, rfl, rfl, rfl, det, hdet, hpss⟩

/-- Two constructors with the same `N_id_2` leave the same detector. -/
theorem make_pss_eq {nId2 : ℤ} {threshold threshold' : F} {after every after' every' : ℤ}
    (hmake : make lib nId2 threshold after every = .ok s)
    (hmake' : make lib nId2 threshold' after' every' = .ok u) : s.pss = u.pss := by
  obtain ⟨-, -, -, -, -, -, -, det, hdet, hpss⟩ := make_spec hmake
  obtain ⟨-, -, -, -, -, -, -, det', hdet', hpss'⟩ := make_spec hmake'
  obtain rfl : det = det' := Option.some.inj (hdet.symm.trans hdet')
  exact Option.some.inj (hpss.symm.trans hpss')

/-- Every event keeps the detector within reach. -/
theorem DetReach.step {det₀ : Det} {i : Event F S} {o : Option (Work S)}
    (h : DetReach lib det₀ s.pss) (hstep : PssImpl.step lib s i = .ok (s', o)) :
    DetReach lib det₀ s'.pss := by
  rcases step_cases hstep with ⟨c, w, -, -, hw⟩ | ⟨threshold, -, -, rfl⟩
  · have hupdate : DetReach lib det₀ (updateScore lib (PssImpl.findFrame lib s c)).pss := by
      have hfound := h.findFrame c
      have hreset := hfound.reset
      unfold updateScore incrScore resetScore
      grind
    rcases generalWork_cases hw with ⟨-, -, -, rfl⟩ | ⟨-, e, -, hemit⟩
    · exact hupdate
    · unfold PssImpl.emitFrame at hemit
      dsimp only at hemit
      split at hemit
      · split at hemit
        · cases hemit
        · cases hemit
          exact hupdate.cfo
      · cases hemit
        exact hupdate
  · exact h

/-! ### Runs -/

section Runs

variable {tr : List (Machine.Transition (PssImpl F Det Tab) (Event F S) (Option (Work S)))}
  {t : Machine.Transition (PssImpl F Det Tab) (Event F S) (Option (Work S))}

/-- Transitions on the same event that do the same work up to the CFO correction and after
which the getters read the same, `max_psr` excepted. -/
structure Same (t u : Machine.Transition (PssImpl F Det Tab) (Event F S) (Option (Work S))) :
    Prop where
  input : u.input = t.input
  output : Option.Rel Work.Same t.output u.output
  trackingScore : u.post.trackingScore = t.post.trackingScore
  meanPsr : u.post.meanPsr = t.post.meanPsr
  meanCfo : u.post.meanCfo = t.post.meanCfo

/-- Runs from twins are matched step by step. -/
theorem Twin.run (hchest : ∀ det x y, lib.pssChest det x = lib.pssChest det y)
    (h : Twin s u) (hrun : Machine.Run (PssImpl.step lib) s tr s') :
    ∃ tr' u', Machine.Run (PssImpl.step lib) u tr' u' ∧ Twin s' u' ∧
      List.Forall₂ Same tr tr' := by
  refine hrun.lockstep (fun a b i a' o htwin hstep => ?_) h
  obtain ⟨b', o', hstep', htwin', hsame⟩ := htwin.step hchest hstep
  refine ⟨b', o', hstep', htwin', rfl, hsame, ?_, ?_, ?_⟩
  · simp only [trackingScore, htwin'.tracking]
  · exact (computeMovingAvg_congr htwin'.psrData).symm
  · exact (computeMovingAvg_congr htwin'.cfoData).symm

/-- A block that has just lost its cell is the twin of a new block with its threshold. -/
theorem twin_of_loss {nId2 : ℤ} {threshold : F} {after every : ℤ} {f : PssImpl F Det Tab}
    (hmake : make lib nId2 threshold after every = .ok s₀)
    (hreset : ∀ det, DetReach lib s₀.pss det → lib.pssReset det = s₀.pss)
    (hrun : Machine.Run (PssImpl.step lib) s₀ (tr ++ [t]) s) (hcall : t.input = .work c)
    (hmiss : ¬ t.pre.psrThreshold < t.post.psr) (hscore : t.pre.tracking.score ≠ 0)
    (hfresh : make lib nId2 s.psrThreshold after every = .ok f) : Twin s f := by
  obtain ⟨hpre, hstep, rfl⟩ := hrun.last
  have hcoh := coherent_of_run hmake hpre
  -- the detector is one that the reset restores, and the counts are still those given
  have hreach : DetReach lib s₀.pss t.pre.pss :=
    hpre.invariant (I := fun u => DetReach lib s₀.pss u.pss) .init fun _ _ _ _ h hs => h.step hs
  have hcounts : t.pre.trackAfterNFrames = after ∧ t.pre.trackEveryNFrames = every := by
    obtain ⟨-, -, -, -, -, hafter, hevery, -⟩ := make_spec hmake
    refine hpre.invariant (I := fun u => u.trackAfterNFrames = after ∧
      u.trackEveryNFrames = every) ⟨hafter, hevery⟩ fun a i b o hcounts hs => ?_
    rcases step_cases hs with ⟨c, w, -, -, hw⟩ | ⟨threshold, -, -, rfl⟩
    · obtain ⟨-, -, ha, he, -⟩ := generalWork_spec hw
      exact ⟨ha.trans hcounts.1, he.trans hcounts.2⟩
    · exact hcounts
  rcases step_cases hstep with ⟨c', w, hc', -, hw⟩ | ⟨threshold, hthreshold, -⟩
  · obtain ⟨-, -, ha, he, -⟩ := generalWork_spec hw
    obtain ⟨htracking, hlost, hpss, hpsr, hcfo⟩ := generalWork_loss hcoh hw hmiss hscore
    obtain ⟨ftracking, flost, fpsr, fcfo, fthreshold, fafter, fevery, -⟩ := make_spec hfresh
    exact
      { tracking := htracking.trans ftracking.symm
        trackingLost := hlost.trans flost.symm
        pss := by rw [hpss, hreset _ (hreach.findFrame c'), make_pss_eq hmake hfresh]
        psrData := RingBuffer.agree_of_count_zero hpsr fpsr
        cfoData := RingBuffer.agree_of_count_zero hcfo fcfo
        psrThreshold := fthreshold.symm
        trackAfterNFrames := (ha.trans hcounts.1).trans fafter.symm
        trackEveryNFrames := (he.trans hcounts.2).trans fevery.symm
        found := fun hflag => by simp [htracking] at hflag }
  · simp [hthreshold] at hcall

/-- After a call that loses the cell, the block and a new block with the same parameters
cannot be told apart. Each run of the one is matched by a run of the other over the same
calls and thresholds, with the same half-frames before the CFO correction, the same counts
and tags, and the same score and averages. The detector reset restores the detector, and
whether the channel estimate fails does not depend on the samples. -/
theorem reset_like_new {nId2 : ℤ} {threshold : F} {after every : ℤ} {f : PssImpl F Det Tab}
    (hmake : make lib nId2 threshold after every = .ok s₀)
    (hreset : ∀ det, DetReach lib s₀.pss det → lib.pssReset det = s₀.pss)
    (hchest : ∀ det x y, lib.pssChest det x = lib.pssChest det y)
    (hrun : Machine.Run (step lib) s₀ (tr ++ [t]) s) (hcall : t.input = .work c)
    (hmiss : ¬ t.pre.psrThreshold < t.post.psr) (hscore : t.pre.tracking.score ≠ 0)
    (hfresh : make lib nId2 s.psrThreshold after every = .ok f) :
    (∀ tr₁ s₁, Machine.Run (step lib) s tr₁ s₁ →
      ∃ tr₂ s₂, Machine.Run (step lib) f tr₂ s₂ ∧ List.Forall₂ Same tr₁ tr₂) ∧
    (∀ tr₂ s₂, Machine.Run (step lib) f tr₂ s₂ →
      ∃ tr₁ s₁, Machine.Run (step lib) s tr₁ s₁ ∧ List.Forall₂ Same tr₂ tr₁) := by
  have htwin := twin_of_loss hmake hreset hrun hcall hmiss hscore hfresh
  -- being twins is symmetric, so each run is matched by the other
  constructor
  · intro tr₁ s₁ h₁
    obtain ⟨tr₂, s₂, h₂, -, hsame⟩ := htwin.run hchest h₁
    exact ⟨tr₂, s₂, h₂, hsame⟩
  · intro tr₂ s₂ h₂
    obtain ⟨tr₁, s₁, h₁, -, hsame⟩ := htwin.symm.run hchest h₂
    exact ⟨tr₁, s₁, h₁, hsame⟩

/-- A block that has lost its cell keeps the maximum ratio, and otherwise behaves like the
new block it was. -/
theorem reset_like_new_playback :
    let lib := { PssLib.playback Unit [(960, 5), (960, -1)] with
      pssReset := fun _ => [(960, 5), (960, -1)] }
    ∃ s, s.maxPsr = 5 ∧ ∀ tr₁ s₁, Machine.Run (step lib) s tr₁ s₁ →
      ∃ tr₂ s₂, Machine.Run (step lib) (.playback [(960, 5), (960, -1)] 1 2 1) tr₂ s₂ ∧
        List.Forall₂ Same tr₁ tr₂ := by
  intro lib
  let call := Call.minimal (fun _ => ()) 0
  have hrun : Machine.Run (step lib) (.playback [(960, 5), (960, -1)] 1 2 1) _ _ :=
    .snoc (i := .work call) (.snoc (i := .work call) .nil rfl) rfl
  have hmake : make lib 0 1 2 1 = .ok (.playback [(960, 5), (960, -1)] 1 2 1) := rfl
  exact ⟨_, rfl, (reset_like_new hmake (fun _ _ => rfl) (fun _ _ _ => rfl) hrun rfl
    (by decide) (by decide) hmake).1⟩

end Runs

end PssImpl

end LteTrigger
