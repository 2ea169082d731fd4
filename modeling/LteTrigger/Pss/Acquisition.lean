import LteTrigger.HitLock.Basic
import LteTrigger.Machine.Run
import LteTrigger.Pss.Step

/-!
# Acquisition and loss in the `pss` block

`tracking_t` with its score implements a `HitLock` that locks after `track_after`
consecutive calls that end over the threshold. The abstraction is `Tracking.phase`. It is
exact on states that are `Coherent`: the score of a tracking block is `track_after` and
positive, and no loss is waiting to be signalled. Construction and every event establish and
keep coherence, and `generalWork_refines` says that one call is one step of the lock, with
the half-frame it sends or drops showing the verdict downstream.

## Main results

* `generalWork_refines`: the block refines the lock;
* `coherent_of_run`: every state between two calls is coherent;
* `trackingLost_protocol`: what the `tracking_lost` tags of a run say.
-/

namespace LteTrigger

/-- The state of the lock that `tracking_t` stands for. -/
def Tracking.phase (t : Tracking) : HitLock :=
  if t.isTracking then .locked else .searching t.score.toNat

/-- The score counts up from zero, and is positive and equal to `track_after` in tracking
state. -/
structure Tracking.Sound (trackAfter : ℤ) (t : Tracking) : Prop where
  score_nonneg : 0 ≤ t.score
  score_of_tracking : t.isTracking = true → t.score = trackAfter ∧ 0 < t.score

/-- The phase reads as searching without hits exactly when the score is zero. -/
theorem Tracking.Sound.phase_eq_iff {after : ℤ} {t : Tracking} (h : t.Sound after) :
    t.phase = .searching 0 ↔ t.score = 0 := by
  have hnonneg := h.score_nonneg
  cases htracking : t.isTracking with
  | true =>
    have hpos := (h.score_of_tracking htracking).2
    simp only [phase, htracking, ↓reduceIte, reduceCtorEq, false_iff]
    omega
  | false =>
    simp only [phase, htracking, Bool.false_eq_true, ↓reduceIte, HitLock.searching.injEq]
    omega

/-- The verdict that the work of a call shows to the blocks downstream. -/
def Work.Shows {S : Type} : Work S → HitLock.Verdict → Prop
  | .emit e, .follow => e.tagged = false
  | .emit e, .probe => e.tagged = true
  | .emit e, .lost => e.tagged = true
  | .drop, .idle => True
  | _, _ => False

/-- What follows a cell is sent without the tag. -/
theorem Work.shows_follow {S : Type} {w : Work S} :
    w.Shows .follow ↔ ∃ e, w = .emit e ∧ e.tagged = false := by
  cases w <;> simp [Shows]

/-- A loss is sent with the tag. -/
theorem Work.shows_lost {S : Type} {w : Work S} :
    w.Shows .lost ↔ ∃ e, w = .emit e ∧ e.tagged = true := by
  cases w <;> simp [Shows]

namespace PssImpl

variable {F S Det Tab : Type} {lib : PssLib F S Det Tab} {s s' s₀ : PssImpl F Det Tab}
  {c : Call S} {w : Work S}

/-- The states between two calls. -/
structure Coherent (s : PssImpl F Det Tab) : Prop where
  tracking_sound : s.tracking.Sound s.trackAfterNFrames
  not_lost : s.trackingLost = false

/-- The correlation keeps the score sound. -/
theorem findFrame_sound (lib : PssLib F S Det Tab) (c : Call S) (h : s.Coherent) :
    (findFrame lib s c).tracking.Sound (findFrame lib s c).trackAfterNFrames :=
  ⟨by simpa using h.tracking_sound.score_nonneg,
    by simpa using h.tracking_sound.score_of_tracking⟩

/-- The correlation keeps the phase. -/
@[simp]
theorem findFrame_phase : (findFrame lib s c).tracking.phase = s.tracking.phase := by
  simp [Tracking.phase]

/-- Counting a hit is the lock's step on a hit, and signals no loss. -/
theorem incrScore_refines (lib : PssLib F S Det Tab)
    (h : s.tracking.Sound s.trackAfterNFrames) :
    (incrScore lib s).tracking.Sound s.trackAfterNFrames ∧
      (incrScore lib s).tracking.phase =
        (s.tracking.phase.next s.trackAfterNFrames true).1 ∧
      (incrScore lib s).trackingLost = s.trackingLost := by
  have hnonneg := h.score_nonneg
  cases htracking : s.tracking.isTracking with
  | true =>
    -- the score is full, and `incr_score` returns early
    have heq : incrScore lib s = s := by
      simp [incrScore, htracking, (h.score_of_tracking htracking).1]
    rw [heq]
    exact ⟨h, by simp [Tracking.phase, htracking, HitLock.next], rfl⟩
  | false =>
    have hcast : ((s.tracking.score.toNat : ℕ) : ℤ) = s.tracking.score :=
      Int.toNat_of_nonneg hnonneg
    by_cases hafter : s.tracking.score + 1 = s.trackAfterNFrames
    · -- this hit is the last one needed
      simp only [incrScore, htracking, Bool.false_eq_true, false_and, ↓reduceIte,
        not_false_eq_true, hafter, and_self]
      refine ⟨⟨by simp only [Tracking.start]; omega,
        fun _ => ⟨rfl, by simp only [Tracking.start]; omega⟩⟩, ?_, trivial⟩
      simp [Tracking.phase, Tracking.start, htracking, HitLock.next, hcast, hafter]
    · simp only [incrScore, htracking, Bool.false_eq_true, false_and, ↓reduceIte,
        not_false_eq_true, hafter, and_false]
      refine ⟨⟨by simp only; omega, by simp⟩, ?_, trivial⟩
      have hsucc : (s.tracking.score + 1).toNat = s.tracking.score.toNat + 1 := by omega
      simp [Tracking.phase, htracking, HitLock.next, hcast, hafter, hsucc]

variable [FloatOps F]

/-- Counting a miss is the lock's step on a miss, and signals a loss exactly when there was a
score to lose. -/
theorem resetScore_refines (lib : PssLib F S Det Tab)
    (h : s.tracking.Sound s.trackAfterNFrames) :
    (resetScore lib s).tracking.Sound s.trackAfterNFrames ∧
      (resetScore lib s).tracking.phase =
        (s.tracking.phase.next s.trackAfterNFrames false).1 ∧
      ((resetScore lib s).trackingLost = true ↔
        s.trackingLost = true ∨ s.tracking.phase ≠ .searching 0) := by
  have hphase := h.phase_eq_iff
  by_cases hscore : s.tracking.score = 0
  · -- nothing to lose: `reset_score` returns early, and so no loss is signalled
    have heq : resetScore lib s = s := by simp [resetScore, hscore]
    have hsearch : s.tracking.phase = .searching 0 := hphase.mpr hscore
    rw [heq]
    exact ⟨h, by simp [hsearch, HitLock.next], by simp [hsearch]⟩
  · have hne : s.tracking.phase ≠ .searching 0 := fun heq => hscore (hphase.mp heq)
    simp only [resetScore, hscore, ↓reduceIte]
    refine ⟨⟨by simp [Tracking.stop], by simp [Tracking.stop]⟩, ?_, by simp [hne]⟩
    rcases hlock : s.tracking.phase with (_ | hits) | _
    · exact absurd hlock hne
    · simp [Tracking.phase, Tracking.stop, HitLock.next]
    · simp [Tracking.phase, Tracking.stop, HitLock.next]

/-- The score update is one step of the lock, and signals a loss exactly on the verdict
`lost`. -/
theorem updateScore_refines (lib : PssLib F S Det Tab)
    (h : s.tracking.Sound s.trackAfterNFrames) (hlost : s.trackingLost = false) :
    (updateScore lib s).tracking.Sound s.trackAfterNFrames ∧
      (updateScore lib s).tracking.phase =
        (s.tracking.phase.next s.trackAfterNFrames s.psrOverThreshold).1 ∧
      ((updateScore lib s).trackingLost = true ↔
        (s.tracking.phase.next s.trackAfterNFrames s.psrOverThreshold).2 = .lost) := by
  -- the maximum is updated after the score and touches neither of the two
  have htracking : (updateScore lib s).tracking =
      (if s.psrOverThreshold then incrScore lib s else resetScore lib s).tracking := by
    unfold updateScore
    grind
  have htrackingLost : (updateScore lib s).trackingLost =
      (if s.psrOverThreshold then incrScore lib s else resetScore lib s).trackingLost := by
    unfold updateScore
    grind
  rw [htracking, htrackingLost]
  cases s.psrOverThreshold with
  | true =>
    obtain ⟨hsound, hphase, hl⟩ := incrScore_refines lib h
    exact ⟨hsound, hphase, by simp [HitLock.verdict_eq_lost_iff, hl, hlost]⟩
  | false =>
    obtain ⟨hsound, hphase, hl⟩ := resetScore_refines lib h
    exact ⟨hsound, hphase, by simp [HitLock.verdict_eq_lost_iff, hl, hlost]⟩

/-- The lock's step on the correlation that a call from `s` to `s'` ends with. -/
def lockStep (s s' : PssImpl F Det Tab) : HitLock × HitLock.Verdict :=
  s.tracking.phase.next s.trackAfterNFrames (decide (s.psrThreshold < s'.psr))

/-- The score is updated by the correlation that the call ends with. -/
theorem findFrame_psrOverThreshold (hw : generalWork lib s c = .ok (s', w)) :
    (findFrame lib s c).psrOverThreshold = decide (s.psrThreshold < s'.psr) := by
  simp [psrOverThreshold, (generalWork_spec hw).1]

/-- The score update inside a call of a coherent block is one step of the lock. -/
theorem generalWork_lockStep (h : s.Coherent) (hw : generalWork lib s c = .ok (s', w)) :
    s'.tracking.Sound s'.trackAfterNFrames ∧ s'.tracking.phase = (lockStep s s').1 ∧
      ((updateScore lib (findFrame lib s c)).trackingLost = true ↔
        (lockStep s s').2 = .lost) := by
  obtain ⟨-, -, hafter, -, htracking⟩ := generalWork_spec hw
  have hstep := updateScore_refines lib (findFrame_sound lib c h)
    (by simpa using h.not_lost)
  rw [findFrame_phase, findFrame_psrOverThreshold hw, findFrame_trackAfterNFrames,
    ← htracking] at hstep
  rw [hafter]
  exact hstep

/-- A call of a coherent block copies a half-frame out when it is over the threshold or has a
score to lose. -/
theorem sends_iff (h : s.Coherent) :
    ((findFrame lib s c).psrOverThreshold = true ∨
        (updateScore lib (findFrame lib s c)).trackingLost = true) ↔
      ((findFrame lib s c).psrOverThreshold = true ∨ s.tracking.score ≠ 0) := by
  obtain ⟨-, -, hlost⟩ := updateScore_refines lib (findFrame_sound lib c h)
    (by simpa using h.not_lost)
  rw [hlost, findFrame_phase, HitLock.verdict_eq_lost_iff, Ne, h.tracking_sound.phase_eq_iff]
  cases (findFrame lib s c).psrOverThreshold <;> simp

/-- A call that returns in tracking state has verdict `follow`, and conversely. -/
theorem isTracking_iff_follow (h : s.Coherent) (hw : generalWork lib s c = .ok (s', w)) :
    s'.tracking.isTracking = true ↔ (lockStep s s').2 = .follow := by
  rw [lockStep, HitLock.verdict_eq_follow_iff, ← lockStep, ← (generalWork_lockStep h hw).2.1]
  cases hflag : s'.tracking.isTracking <;> simp [Tracking.phase, hflag]

/-- A call drops its half-frame exactly on the verdict `idle`. -/
theorem drop_iff_idle (h : s.Coherent) (hw : generalWork lib s c = .ok (s', w)) :
    w = .drop ↔ (lockStep s s').2 = .idle := by
  have hlost := (generalWork_lockStep h hw).2.2
  have hover := findFrame_psrOverThreshold hw
  rw [lockStep, HitLock.verdict_eq_lost_iff] at hlost
  rw [lockStep, HitLock.verdict_eq_idle_iff, ← hover]
  rw [← hover] at hlost
  rcases generalWork_cases hw with ⟨hmiss, hnolost, rfl, -⟩ | ⟨hcond, e, rfl, -⟩
  · -- had there been a score to lose, the loss would have been signalled
    simp only [hmiss, true_and, true_iff] at hlost ⊢
    by_contra hne
    simp [hlost.mpr hne] at hnolost
  · simp only [reduceCtorEq, false_iff, not_and]
    intro hmiss hsearch
    rcases hcond with hhit | hl
    · simp [hhit] at hmiss
    · exact (hlost.mp hl).2 hsearch

/-- A call keeps coherence: the loss it may see is signalled before it returns. -/
theorem generalWork_coherent (h : s.Coherent) (hw : generalWork lib s c = .ok (s', w)) :
    s'.Coherent := by
  obtain ⟨hsound, -, hlost⟩ := generalWork_lockStep h hw
  refine ⟨hsound, ?_⟩
  rcases generalWork_cases hw with ⟨-, hnolost, -, rfl⟩ | ⟨-, e, -, hemit⟩
  · exact hnolost
  · rcases emitFrame_cases hemit with ⟨hflag, -, _, _, _, rfl⟩ | ⟨-, -, rfl⟩
    · -- the flag is only cleared out of tracking state; in tracking state the verdict is
      -- `follow`, so no loss was seen
      rw [(isTracking_iff_follow h hw).mp hflag] at hlost
      simpa using hlost
    · rfl

/-- One call of a coherent block is one step of the lock, and its work shows the verdict. -/
theorem generalWork_refines (h : s.Coherent) (hw : generalWork lib s c = .ok (s', w)) :
    s'.Coherent ∧ s'.tracking.phase = (lockStep s s').1 ∧ w.Shows (lockStep s s').2 := by
  refine ⟨generalWork_coherent h hw, (generalWork_lockStep h hw).2.1, ?_⟩
  have hfollow := isTracking_iff_follow h hw
  have hidle := drop_iff_idle h hw
  have htracking := (generalWork_spec hw).2.2.2.2
  rcases generalWork_cases hw with ⟨-, -, rfl, -⟩ | ⟨-, e, rfl, hemit⟩
  · rw [hidle.mp rfl]
    trivial
  · -- the tag and the verdict both follow the tracking flag after the score update
    rw [htracking] at hfollow
    rcases emitFrame_cases hemit with ⟨hflag, htag, -⟩ | ⟨hflag, htag, -⟩ <;>
      cases hverdict : (lockStep s s').2 <;> simp_all [Work.Shows]

/-! ### Runs -/

/-- A constructed block is coherent. -/
theorem make_coherent {nId2 : ℤ} {threshold : F} {after every : ℤ}
    (hmake : make lib nId2 threshold after every = .ok s) : s.Coherent := by
  obtain ⟨det, pss, cfo, -, -, -, rfl⟩ := make_eq hmake
  exact ⟨⟨le_rfl, by simp⟩, rfl⟩

/-- Every event keeps coherence. -/
theorem step_coherent {i : Event F S} {o : Option (Work S)} (h : s.Coherent)
    (hstep : step lib s i = .ok (s', o)) : s'.Coherent := by
  rcases step_cases hstep with ⟨c, w, -, -, hw⟩ | ⟨threshold, -, -, rfl⟩
  · exact generalWork_coherent h hw
  · exact ⟨h.tracking_sound, h.not_lost⟩

section Runs

variable {tr : List (Machine.Transition (PssImpl F Det Tab) (Event F S) (Option (Work S)))}
  {t : Machine.Transition (PssImpl F Det Tab) (Event F S) (Option (Work S))}

/-- Between two calls of a run every block is coherent. -/
theorem coherent_of_run {nId2 : ℤ} {threshold : F} {after every : ℤ}
    (hmake : make lib nId2 threshold after every = .ok s₀)
    (hrun : Machine.Run (step lib) s₀ tr s) : s.Coherent :=
  hrun.invariant (make_coherent hmake) fun _ _ _ _ => step_coherent

/-- The transition is a call that sends a half-frame tagged `tracking_lost`. -/
def SendsTagged (t : Machine.Transition (PssImpl F Det Tab) (Event F S) (Option (Work S))) :
    Prop :=
  ∃ e, t.output = some (.emit e) ∧ e.tagged = true

/-- The transition is a call that sends a half-frame without the tag. -/
def SendsUntagged (t : Machine.Transition (PssImpl F Det Tab) (Event F S) (Option (Work S))) :
    Prop :=
  ∃ e, t.output = some (.emit e) ∧ e.tagged = false

/-- A call that finds a score to lose below the threshold sends a tagged half-frame. -/
theorem sendsTagged_of_loss (h : t.pre.Coherent) {c : Call S} (hcall : t.input = .work c)
    (hstep : step lib t.pre t.input = .ok (t.post, t.output))
    (hmiss : ¬ t.pre.psrThreshold < t.post.psr) (hscore : t.pre.tracking.score ≠ 0) :
    SendsTagged t := by
  rcases step_cases hstep with ⟨c', w, hc', ho, hw⟩ | ⟨threshold, hthreshold, -, -⟩
  · -- a miss with a score is a loss, and a loss shows as a tagged half-frame
    have hlost : (lockStep t.pre t.post).2 = .lost := by
      rw [lockStep, HitLock.verdict_eq_lost_iff]
      exact ⟨by simpa using hmiss, fun heq => hscore (h.tracking_sound.phase_eq_iff.mp heq)⟩
    have hshows := (generalWork_refines h hw).2.2
    rw [hlost, Work.shows_lost] at hshows
    obtain ⟨e, rfl, htag⟩ := hshows
    exact ⟨e, ho, htag⟩
  · simp [hthreshold] at hcall

/-- A half-frame is tagged exactly when the block that sent it is not tracking. -/
theorem tagged_iff_not_tracking (h : t.pre.Coherent)
    (hstep : step lib t.pre t.input = .ok (t.post, t.output)) {e : Emission S}
    (he : t.output = some (.emit e)) :
    e.tagged = true ↔ t.post.tracking.isTracking = false := by
  rcases step_cases hstep with ⟨c, w, -, ho, hw⟩ | ⟨threshold, -, ho, -⟩
  · obtain rfl : w = .emit e := by
      rw [ho] at he
      exact Option.some.inj he
    have htracking := isTracking_iff_follow h hw
    have hshows := (generalWork_refines h hw).2.2
    cases hverdict : (lockStep t.pre t.post).2 <;>
      simp_all [Work.Shows]
  · simp [ho] at he

/-- A tracking block either goes on with an untagged half-frame and stays tracking, or sends
a tagged one. A new threshold leaves it tracking. -/
theorem continues_or_sendsTagged (h : t.pre.Coherent)
    (hstep : step lib t.pre t.input = .ok (t.post, t.output))
    (htracking : t.pre.tracking.isTracking = true) :
    SendsTagged t ∨
      (t.post.tracking.isTracking = true ∧ ∀ c, t.input = .work c → SendsUntagged t) := by
  rcases step_cases hstep with ⟨c, w, -, ho, hw⟩ | ⟨threshold, hthreshold, -, hpost⟩
  · have hlocked : t.pre.tracking.phase = .locked := by simp [Tracking.phase, htracking]
    have hshows := (generalWork_refines h hw).2.2
    -- a locked lock either follows or loses
    rcases HitLock.follow_or_lost_of_locked t.pre.trackAfterNFrames
      (decide (t.pre.psrThreshold < t.post.psr)) with hfollow | hlost
    all_goals rw [← hlocked, ← lockStep] at *
    · refine .inr ⟨(isTracking_iff_follow h hw).mpr hfollow, fun _ _ => ?_⟩
      rw [hfollow, Work.shows_follow] at hshows
      obtain ⟨e, rfl, htag⟩ := hshows
      exact ⟨e, ho, htag⟩
    · left
      rw [hlost, Work.shows_lost] at hshows
      obtain ⟨e, rfl, htag⟩ := hshows
      exact ⟨e, ho, htag⟩
  · -- a new threshold does not touch the lock
    refine .inr ⟨by rw [hpost]; exact htracking, fun c hc => ?_⟩
    simp [hthreshold] at hc

/-- From a tracking state, a stretch of a run without tagged half-frames stays in tracking
state and every call in it sends an untagged half-frame. -/
theorem epoch_of_no_tag (h : s₀.Coherent) (htracking : s₀.tracking.isTracking = true)
    (hrun : Machine.Run (step lib) s₀ tr s) (hno : ∀ t ∈ tr, ¬ SendsTagged t) :
    s.tracking.isTracking = true ∧ ∀ t ∈ tr, t.pre.tracking.isTracking = true ∧
      t.post.tracking.isTracking = true ∧ ∀ c, t.input = .work c → SendsUntagged t := by
  -- by induction on the run: each call either sends the tag or leaves the next one tracking
  induction hrun with
  | nil => exact ⟨htracking, by simp⟩
  | @snoc tr u u' i o hpre hstep ih =>
    obtain ⟨hlast, hall⟩ := ih fun t ht => hno t (List.mem_append_left _ ht)
    have hcoh : u.Coherent := hpre.invariant h fun _ _ _ _ => step_coherent
    rcases continues_or_sendsTagged (t := ⟨u, i, o, u'⟩) hcoh hstep hlast with
      htag | ⟨hpost, hsends⟩
    · exact absurd htag (hno _ (by simp))
    · refine ⟨hpost, fun t ht => ?_⟩
      rcases List.mem_append.mp ht with ht | ht
      · exact hall t ht
      · obtain rfl := List.mem_singleton.mp ht
        exact ⟨hlast, hpost, hsends⟩

/-- The `tracking_lost` protocol. Between two calls no loss is waiting to be signalled. A call
that misses the threshold with a nonzero score signals the loss itself. A half-frame carries
the tag exactly when the block that sent it is not tracking. Two untagged half-frames without
a tagged one between them belong to one stretch of tracking, in which every call sends an
untagged half-frame. -/
theorem trackingLost_protocol {nId2 : ℤ} {threshold : F} {after every : ℤ}
    (hmake : make lib nId2 threshold after every = .ok s₀)
    (hrun : Machine.Run (step lib) s₀ tr s) :
    s.trackingLost = false ∧
    (∀ t ∈ tr, ∀ c, t.input = .work c → ¬ t.pre.psrThreshold < t.post.psr →
      t.pre.tracking.score ≠ 0 → SendsTagged t) ∧
    (∀ t ∈ tr, ∀ e, t.output = some (.emit e) →
      (e.tagged = true ↔ t.post.tracking.isTracking = false)) ∧
    (∀ tr₁ a tr₂ b tr₃, tr = tr₁ ++ a :: (tr₂ ++ b :: tr₃) →
      SendsUntagged a → SendsUntagged b → (∀ t ∈ tr₂, ¬ SendsTagged t) →
      a.post.tracking.isTracking = true ∧ b.pre.tracking.isTracking = true ∧
        ∀ t ∈ tr₂, t.pre.tracking.isTracking = true ∧ t.post.tracking.isTracking = true ∧
          ∀ c, t.input = .work c → SendsUntagged t) := by
  have hinit := make_coherent hmake
  have htrace {t} (ht : t ∈ tr) := hrun.invariant_trace hinit (fun _ _ _ _ => step_coherent) ht
  refine ⟨(coherent_of_run hmake hrun).not_lost, fun t ht c hc hmiss hscore => ?_,
    fun t ht e he => ?_, ?_⟩
  · obtain ⟨hpre, hstep, -⟩ := htrace ht
    exact sendsTagged_of_loss hpre hc hstep hmiss hscore
  · obtain ⟨hpre, hstep, -⟩ := htrace ht
    exact tagged_iff_not_tracking hpre hstep he
  · rintro tr₁ a tr₂ b tr₃ rfl ⟨ea, hea, haTag⟩ - hno
    obtain ⟨hpre, hstep, hpost⟩ := htrace (t := a) (by simp)
    -- an untagged half-frame leaves its block tracking
    have hlocked : a.post.tracking.isTracking = true := by
      by_contra hflag
      have := (tagged_iff_not_tracking hpre hstep hea).mpr (by simpa using hflag)
      simp [haTag] at this
    -- the stretch between the two starts in that state and sends no tag
    obtain ⟨hmid, -, -⟩ := hrun.at_transition.2.2.at_transition
    obtain ⟨hb, hall⟩ := epoch_of_no_tag hpost hlocked hmid hno
    exact ⟨hlocked, hb, hall⟩

/-- A block that locks at its first correlation and loses the cell at the second has told so
by then. -/
theorem trackingLost_protocol_playback :
    ∃ tr s, Machine.Run (step (.playback Unit [(960, 5), (960, -1)]))
        (.playback [(960, 5), (960, -1)] 1 1 0) tr s ∧
      tr.length = 2 ∧ s.trackingLost = false :=
  let call := Call.minimal (fun _ => ()) 0
  let hrun := Machine.Run.snoc (i := .work call)
    (Machine.Run.snoc (i := .work call) .nil rfl) rfl
  ⟨_, _, hrun, rfl, (trackingLost_protocol (make_playback Unit _ 1 1 0) hrun).1⟩

end Runs

end PssImpl

end LteTrigger
