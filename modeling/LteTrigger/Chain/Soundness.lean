import LteTrigger.Chain.Basic
import LteTrigger.Mib.Batching
import LteTrigger.Pss.Acquisition

/-!
# What reaches the `mib` block of a chain

The half-frames of a chain keep their order, and each block puts out one half-frame for each
it takes, so the `n`-th call of `mib` is about the `n`-th half-frame that `pss` emitted. Three
relations follow a half-frame through the blocks: `Carries` from the emission to the stream,
`PassedOn` through `sss`, and `Processed` in `mib`. Each holds item by item over a run.

## Main results

* `reaches_mib`: what a call of `mib` does, in terms of the emission it is about;
* `end_to_end`: a cell is only decoded, and hence only published, on half-frames emitted in
  tracking state, and is dropped at the first half-frame after a loss.
-/

namespace LteTrigger

section HalfFrames

variable [GnuRadio] {S Dec : Type}

/-- The half-frame on the stream is the emission: it has its samples, it carries a
`tracking_lost` tag exactly when the block was not tracking, and no `cell_id` tag. -/
structure Carries (e : Emission S × Bool) (frame : Frame S) : Prop where
  samples : frame.samples = e.1.out
  lost : frame.kind = .lost ↔ e.2 = false
  noCellId : getTagsInWindow frame.tags cellIdTagKey = []

/-- What `sss` makes of a half-frame: a lost one stays lost, and one for a cell is a kept one
with its samples. -/
structure PassedOn (taken given : Frame S) : Prop where
  lost : taken.kind = .lost → given.kind = .lost
  candidate : getTagsInWindow taken.tags cellIdTagKey = [] →
    ∀ cellIdTag cpTypeTag, given.kind = .candidate cellIdTag cpTypeTag →
      taken.kind ≠ .lost ∧ given.samples = taken.samples

/-- What `mib` does with a half-frame: it drops the held cell on a lost one, and decodes the
samples of one for a cell only. A message on `track` needs a decoding attempt. -/
structure Processed (frame : Frame S) (step : MibImpl S Dec × MibWork S) : Prop where
  lost : frame.kind = .lost → step.2.msgs = step.1.held.toList.map (Message.mk .drop)
  decodes : ∀ addr samples nofPorts, .ueMibDecode addr samples nofPorts ∈ step.2.calls →
    samples = [frame.samples] ∧
      ∃ cellIdTag cpTypeTag, frame.kind = .candidate cellIdTag cpTypeTag
  tracks : ∀ p, ⟨.track, p⟩ ∈ step.2.msgs →
    ∃ addr samples nofPorts, .ueMibDecode addr samples nofPorts ∈ step.2.calls

/-- Foreign tags are not seen by the blocks. -/
theorem getTagsInWindow_foreign {tags : List Tag} (foreign : ∀ tag ∈ tags, tag.Foreign)
    {key : String} (hkey : key ∈ chainKeys) : getTagsInWindow tags key = [] := by
  refine getTagsInWindow_eq_nil fun tag htag heq => foreign tag htag ?_
  rwa [heq]

/-- A half-frame carries the emission it is made from. -/
theorem carries_frame {e : Emission S} {tracking : Bool} {tags : List Tag}
    (foreign : ∀ tag ∈ tags, tag.Foreign) (htagged : e.tagged = true ↔ tracking = false) :
    Carries (e, tracking) (e.frame tags) where
  samples := rfl
  lost := by
    rw [Frame.kind_eq_lost_iff, Emission.frame, getTagsInWindow_append,
      getTagsInWindow_foreign foreign (by simp [chainKeys]), List.nil_append, ← htagged]
    cases e.tagged <;> simp [getTagsInWindow_eq_filter]
  noCellId := by
    rw [Emission.frame, getTagsInWindow_append,
      getTagsInWindow_foreign foreign (by simp [chainKeys]), List.nil_append]
    cases e.tagged <;> simp [getTagsInWindow_eq_filter, trackingLostTagKey, cellIdTagKey]

/-- A call of `sss` passes its half-frame on. -/
theorem passedOn_work {Sync : Type} (lib : SssLib S Sync) (s : SssImpl Sync) (frame : Frame S)
    (stale : HalfFrame S) :
    PassedOn frame (SssImpl.outputFrame frame (SssImpl.work lib s frame stale).2) where
  lost := by
    rw [Frame.kind_eq_lost_iff, Frame.kind_eq_lost_iff, SssImpl.outputFrame,
      getTagsInWindow_append]
    intro hlost heq
    exact hlost (List.append_eq_nil_iff.mp heq).1
  candidate := by
    intro hid cellIdTag cpTypeTag hkind
    obtain ⟨hkept, hidTag⟩ := Frame.kind_eq_candidate hkind
    rw [SssImpl.outputFrame, getTagsInWindow_append] at hkept hidTag
    rw [ne_eq, Frame.kind_eq_lost_iff, ne_eq, not_not]
    refine ⟨(List.append_eq_nil_iff.mp hkept).1, ?_⟩
    rcases SssImpl.work_cases lib s frame stale with ⟨-, hout, -⟩ | ⟨-, -, hadded⟩ | ⟨-, hout, -⟩
    · exact hout
    · -- the output is unwritten, but after an `N_id_1` error there is no `cell_id` tag
      rw [hid, hadded, getTagsInWindow_nil] at hidTag
      cases hidTag
    · exact hout

/-- A call of `mib` processes its half-frame. -/
theorem processed_generalWork {lib : MibLib S Dec} {s s' : MibImpl S Dec} {w : MibWork S}
    {frame : Frame S} {now : ℤ} {fresh : ℕ}
    (h : MibImpl.generalWork lib s ⟨frame, [], now, fresh⟩ = .ok (s', w)) :
    Processed frame (s, w) where
  lost := by
    intro hlost
    rcases MibImpl.generalWork_cases h with
      ⟨-, -, rfl⟩ | ⟨hkept, -⟩ | ⟨cellId, cp, -, hsearched, -⟩ | ⟨cellId, cp, -, hsearched, -⟩
    · -- the only branch for a lost half-frame
      rw [MibImpl.dropCurrentCell_msgs, MibImpl.held_receive]
    · exact absurd hlost hkept
    · simp [MibImpl.searched, hlost] at hsearched
    · simp [MibImpl.searched, hlost] at hsearched
  decodes := by
    intro addr samples nofPorts hcall
    rcases MibImpl.generalWork_calls h with
      ⟨-, -, hcalls⟩ |
      ⟨cellId, cp, hsearched, -, -,
        ⟨-, -, hcalls, -, -⟩ | ⟨reinits, unpacked, hcalls, -, hreinits⟩⟩
    · cases hcalls _ hcall
    · rw [hcalls] at hcall
      simp [MibImpl.reinitCalls] at hcall
    · refine ⟨?_, MibImpl.kind_of_searched hsearched⟩
      rw [hcalls, List.mem_append] at hcall
      rcases hcall with hcall | hcall
      · -- a re-initialisation decodes nothing
        rcases hreinits with ⟨-, -, rfl⟩ | ⟨-, -, rfl⟩ <;> simp [MibImpl.reinitCalls] at hcall
      · simp only [MibImpl.decodeCalls, List.cons_append, List.nil_append, List.mem_cons,
          reduceCtorEq, false_or, Option.mem_toList, Option.map_eq_some_iff, and_false,
          exists_false, or_false, LibCall.ueMibDecode.injEq] at hcall
        exact hcall.2.1
  tracks := by
    intro p hp
    rcases MibImpl.generalWork_cases h with
      ⟨-, -, rfl⟩ | ⟨-, -, -, rfl⟩ | ⟨cellId, cp, -, -, -, -, rfl⟩ | ⟨cellId, cp, -, -, -, -, rfl⟩
    · simp [MibImpl.dropCurrentCell_msgs] at hp
    · cases hp
    · cases hp
    · -- only a decoding attempt tracks, and it has called the decoder
      obtain ⟨addr, samples, nofPorts, hmem⟩ := MibImpl.ueMibDecode_mem_calls lib
        (MibImpl.configure lib (s.receive ⟨frame, [], now, fresh⟩) cellId cp).1
        ⟨frame, [], now, fresh⟩
      exact ⟨addr, samples, nofPorts, List.mem_append_right _ hmem⟩

end HalfFrames

namespace Chain

variable {F S Det Tab Sync Dec : Type} [FloatOps F] {lib : ChainLib F S Det Tab Sync Dec}
  {c c' c₀ : Chain F S Det Tab Sync Dec} {i : ChainEvent F S} {o : ChainWork S}

/-- One event in a run of a chain. -/
abbrev Transition (F S Det Tab Sync Dec : Type) :=
  Machine.Transition (Chain F S Det Tab Sync Dec) (ChainEvent F S) (ChainWork S)

/-- The events of the three blocks. -/
theorem step_cases [GnuRadio] (h : step lib c i = .ok (c', o)) :
    (∃ event tags foreign work, i = .pss event tags foreign ∧
      PssImpl.step lib.pss c.pss event = .ok (c'.pss, work) ∧
      o = .pss work ((work.bind Work.emission).map (Emission.frame · tags)) ∧
      c' = { c with
        pss := c'.pss
        toSss := c.toSss ++ ((work.bind Work.emission).map (Emission.frame · tags)).toList }) ∨
    (∃ stale frame toSss, i = .sss stale ∧ c.toSss = frame :: toSss ∧
      o = .sss frame (SssImpl.outputFrame frame (SssImpl.work lib.sss c.sss frame stale).2) ∧
      c' = { c with
        sss := c'.sss
        toSss := toSss
        toMib := c.toMib ++
          [SssImpl.outputFrame frame (SssImpl.work lib.sss c.sss frame stale).2] }) ∨
    (∃ now fresh frame toMib w, i = .mib now fresh ∧ c.toMib = frame :: toMib ∧
      MibImpl.generalWork lib.mib c.mib ⟨frame, [], now, fresh⟩ = .ok (c'.mib, w) ∧
      o = .mib frame w ∧
      c' = { c with
        mib := c'.mib
        toMib := c.toMib.drop (w.nconsume / halfFrameLength) }) := by
  cases i with
  | pss event tags foreign =>
    left
    simp only [step] at h
    split at h
    · cases h
    · rename_i pss work hpss
      obtain ⟨rfl, rfl⟩ := Prod.mk.inj (Except.ok.inj h)
      exact ⟨event, tags, foreign, work, rfl, hpss, rfl, rfl⟩
  | sss stale =>
    right; left
    simp only [step] at h
    split at h
    · cases h
    · rename_i frame toSss hqueue
      obtain ⟨rfl, rfl⟩ := Prod.mk.inj (Except.ok.inj h)
      exact ⟨stale, frame, toSss, rfl, hqueue, rfl, rfl⟩
  | mib now fresh =>
    right; right
    simp only [step] at h
    split at h
    · cases h
    · rename_i frame toMib hqueue
      split at h
      · cases h
      · rename_i mib w hmib
        obtain ⟨rfl, rfl⟩ := Prod.mk.inj (Except.ok.inj h)
        exact ⟨now, fresh, frame, toMib, w, rfl, hqueue, hmib, rfl, rfl⟩

/-- The states of a chain between two events: `pss` is coherent, and `mib` does not exit on
success. -/
structure Sound (c : Chain F S Det Tab Sync Dec) : Prop where
  pss : c.pss.Coherent
  mib : c.mib.exitOnSuccess = false

theorem step_sound [GnuRadio] (h : c.Sound) (hstep : step lib c i = .ok (c', o)) : c'.Sound := by
  rcases step_cases hstep with
    ⟨event, tags, foreign, work, -, hpss, -, hc⟩ | ⟨stale, frame, toSss, -, -, -, hc⟩ |
    ⟨now, fresh, frame, toMib, w, -, -, hmib, -, hc⟩
  · exact ⟨PssImpl.step_coherent h.pss hpss, by rw [hc]; exact h.mib⟩
  · exact ⟨by rw [hc]; exact h.pss, by rw [hc]; exact h.mib⟩
  · exact ⟨by rw [hc]; exact h.pss, (MibImpl.generalWork_exitOnSuccess hmib).trans h.mib⟩

section Streams

variable (t : Transition F S Det Tab Sync Dec)

/-- The half-frames that `pss` emitted in an event, each with whether the block was tracking
afterwards. -/
def emitted : List (Emission S × Bool) :=
  match t.output with
  | .pss work _ => (work.bind Work.emission).toList.map fun e =>
      (e, t.post.pss.tracking.isTracking)
  | _ => []

/-- The half-frames that `pss` put on its output stream. -/
def sentToSss : List (Frame S) :=
  match t.output with
  | .pss _ frame => frame.toList
  | _ => []

/-- The half-frames that `sss` took. -/
def takenBySss : List (Frame S) :=
  match t.output with
  | .sss taken _ => [taken]
  | _ => []

/-- The half-frames that `sss` put on its output stream. -/
def sentToMib : List (Frame S) :=
  match t.output with
  | .sss _ given => [given]
  | _ => []

/-- The half-frames that `mib` looked at. -/
def takenByMib : List (Frame S) :=
  match t.output with
  | .mib taken _ => [taken]
  | _ => []

/-- The calls of `mib`: the state before and the work. -/
def mibSteps : List (MibImpl S Dec × MibWork S) :=
  match t.output with
  | .mib _ work => [(t.pre.mib, work)]
  | _ => []

end Streams

section Steps

variable [GnuRadio]

/-- What `pss` puts on its output stream carries what it emitted. -/
theorem carries_work {pss pss' : PssImpl F Det Tab} {event : PssImpl.Event F S}
    {work : Option (Work S)} {tags : List Tag} (h : pss.Coherent)
    (hstep : PssImpl.step lib.pss pss event = .ok (pss', work))
    (foreign : ∀ tag ∈ tags, tag.Foreign) :
    List.Forall₂ Carries
      ((work.bind Work.emission).toList.map fun e => (e, pss'.tracking.isTracking))
      ((work.bind Work.emission).map (Emission.frame · tags)).toList := by
  cases hwork : work.bind Work.emission with
  | none => exact .nil
  | some e =>
    -- one half-frame, tagged exactly when the block is not tracking
    refine .cons (carries_frame foreign ?_) .nil
    obtain ⟨w, rfl, hemit⟩ := Option.bind_eq_some_iff.mp hwork
    cases w with
    | drop => cases hemit
    | emit e' =>
      cases hemit
      exact PssImpl.tagged_iff_not_tracking (t := ⟨pss, event, some (.emit e), pss'⟩) h hstep rfl

/-- The streams in one event: what each block takes is related to what it gives, and the two
buffers are queues. -/
structure Streams (t : Transition F S Det Tab Sync Dec) : Prop where
  carries : List.Forall₂ Carries (emitted t) (sentToSss t)
  passedOn : List.Forall₂ PassedOn (takenBySss t) (sentToMib t)
  processed : List.Forall₂ Processed (takenByMib t) (mibSteps t)
  toSss : t.pre.toSss ++ sentToSss t = takenBySss t ++ t.post.toSss
  toMib : t.pre.toMib ++ sentToMib t = takenByMib t ++ t.post.toMib

/-- The streams in an event of a sound chain. -/
theorem step_streams (h : c.Sound) (hstep : step lib c i = .ok (c', o)) :
    Streams ⟨c, i, o, c'⟩ := by
  rcases step_cases hstep with
    ⟨event, tags, foreign, work, -, hpss, rfl, hc⟩ | ⟨stale, frame, toSss, -, hqueue, rfl, hc⟩ |
    ⟨now, fresh, frame, toMib, w, -, hqueue, hmib, rfl, hc⟩
  · exact
      { carries := carries_work h.pss hpss foreign
        passedOn := .nil
        processed := .nil
        toSss := (congrArg Chain.toSss hc).symm
        toMib := (List.append_nil _).trans (congrArg Chain.toMib hc).symm }
  · exact
      { carries := .nil
        passedOn := .cons (passedOn_work lib.sss c.sss frame stale) .nil
        processed := .nil
        toSss := by
          rw [hc, hqueue]
          exact List.append_nil _
        toMib := (congrArg Chain.toMib hc).symm }
  · -- given one half-frame, `mib` consumes one
    have hone := MibImpl.consumed_one h.mib hmib
    exact
      { carries := .nil
        passedOn := .nil
        processed := .cons (processed_generalWork hmib) .nil
        toSss := (List.append_nil _).trans (congrArg Chain.toSss hc).symm
        toMib := by
          rw [hc, hqueue, hone]
          exact List.append_nil _ }

end Steps

section Runs

variable {tr : List (Transition F S Det Tab Sync Dec)}

/-- A constructed chain is sound and has nothing between its blocks. -/
theorem make_spec {nId2 : ℤ} {threshold : F} {after every : ℤ} {mib : Dec}
    {phichLength : PhichLength} {phichResources : PhichResources} {sfnOffset : ℤ}
    (hmake : make lib nId2 threshold after every mib phichLength phichResources sfnOffset =
      .ok c) : c.Sound ∧ c.toSss = [] ∧ c.toMib = [] := by
  simp only [make] at hmake
  split at hmake
  · rename_i pss sss mib' calls hpss hsss hmib
    cases hmake
    refine ⟨⟨PssImpl.make_coherent hpss, ?_⟩, rfl, rfl⟩
    obtain ⟨rfl, -⟩ := MibImpl.make_eq hmib
    rfl
  all_goals cases hmake

/-- The `n`-th call of `mib` is about the `n`-th half-frame that `pss` emitted. It decodes only
if `pss` was tracking then, and only the samples that `pss` emitted. If `pss` was not
tracking, it drops the held cell, if there is one, and publishes nothing else. -/
theorem reaches_mib [GnuRadio] (h : c₀.Sound) (hsss : c₀.toSss = []) (hmib : c₀.toMib = [])
    (hrun : Machine.Run (step lib) c₀ tr c) {n : ℕ} {m : MibImpl S Dec × MibWork S}
    (hm : (tr.flatMap mibSteps)[n]? = some m) :
    ∃ e tracking, (tr.flatMap emitted)[n]? = some (e, tracking) ∧
      (tracking = false → m.2.msgs = m.1.held.toList.map (Message.mk .drop)) ∧
      (∀ addr samples nofPorts, .ueMibDecode addr samples nofPorts ∈ m.2.calls →
        tracking = true ∧ samples = [e.out]) ∧
      (∀ p, ⟨.track, p⟩ ∈ m.2.msgs →
        ∃ addr samples nofPorts, .ueMibDecode addr samples nofPorts ∈ m.2.calls) := by
  have hinv : ∀ s i s' o, Sound s → step lib s i = .ok (s', o) → Sound s' :=
    fun _ _ _ _ => step_sound
  -- from `mib` back to `pss`, one stream after the other
  have hprocessed := hrun.trace_forall₂ h hinv fun _ hs ht => (step_streams hs ht).processed
  have hqueue₂ := hrun.fifo h hinv (fun _ hs ht => (step_streams hs ht).toMib) hmib
  have hpassed := hrun.trace_forall₂ h hinv fun _ hs ht => (step_streams hs ht).passedOn
  have hqueue₁ := hrun.fifo h hinv (fun _ hs ht => (step_streams hs ht).toSss) hsss
  have hcarries := hrun.trace_forall₂ h hinv fun _ hs ht => (step_streams hs ht).carries
  obtain ⟨given, hgiven, hproc⟩ := Machine.forall₂_getElem? hprocessed hm
  obtain ⟨taken, htaken, hpass⟩ := Machine.forall₂_getElem? hpassed (n := n) (b := given) (by
    rw [hqueue₂, List.getElem?_append_left (List.getElem?_eq_some_iff.mp hgiven).1, hgiven])
  obtain ⟨⟨e, tracking⟩, he, hcarry⟩ := Machine.forall₂_getElem? hcarries (n := n) (b := taken)
    (by rw [hqueue₁, List.getElem?_append_left (List.getElem?_eq_some_iff.mp htaken).1, htaken])
  -- forward again: a lost half-frame stays lost, and one for a cell was kept
  refine ⟨e, tracking, he, fun hlost => ?_, fun addr samples nofPorts hcall => ?_, hproc.tracks⟩
  · exact hproc.lost (hpass.lost (hcarry.lost.mpr hlost))
  · obtain ⟨hsamples, cellIdTag, cpTypeTag, hkind⟩ := hproc.decodes addr samples nofPorts hcall
    obtain ⟨hkept, hpassed⟩ := hpass.candidate hcarry.noCellId cellIdTag cpTypeTag hkind
    refine ⟨?_, by rw [hsamples, hpassed, hcarry.samples]⟩
    rw [ne_eq, hcarry.lost] at hkept
    simpa using hkept

/-- The event is a `pss` call in which tracking is lost: the correlation is not over the
threshold and there was a score. -/
def LosesTracking (t : Transition F S Det Tab Sync Dec) : Prop :=
  ∃ call tags foreign, t.input = .pss (.work call) tags foreign ∧
    ¬ t.pre.pss.psrThreshold < t.post.pss.psr ∧ t.pre.pss.tracking.score ≠ 0

/-- A `pss` call in which tracking is lost emits a half-frame, after which it is not
tracking. -/
theorem emitted_of_loss [GnuRadio] {t : Transition F S Det Tab Sync Dec} (h : t.pre.Sound)
    (hstep : step lib t.pre t.input = .ok (t.post, t.output)) (hloss : LosesTracking t) :
    ∃ e, emitted t = [(e, false)] := by
  obtain ⟨call, tags, foreign, hinput, hmiss, hscore⟩ := hloss
  rcases step_cases hstep with
    ⟨event, tags', foreign', work, hevent, hpss, ho, -⟩ | ⟨_, _, _, hi, -⟩ | ⟨_, _, _, _, _, hi, -⟩
  · rw [hinput] at hevent
    cases hevent
    -- the same call as an event of `pss` alone
    let t' : Machine.Transition (PssImpl F Det Tab) (PssImpl.Event F S) (Option (Work S)) :=
      ⟨t.pre.pss, .work call, work, t.post.pss⟩
    obtain ⟨e, he, htagged⟩ := PssImpl.sendsTagged_of_loss (t := t') h.pss rfl hpss hmiss hscore
    have hflag := (PssImpl.tagged_iff_not_tracking (t := t') h.pss hpss he).mp htagged
    refine ⟨e, ?_⟩
    have hwork : work = some (.emit e) := he
    simp only [emitted, ho, hwork]
    rw [show t.post.pss.tracking.isTracking = false from hflag]
    rfl
  · rw [hinput] at hi
    cases hi
  · rw [hinput] at hi
    cases hi

/-- End-to-end soundness of a chain, one half-frame at a time. The blocks take the half-frames
in the order they are sent in. A call of `mib` decodes only on a half-frame that `pss` emitted
in tracking state, and then the samples it decodes are the ones that `pss` emitted. A message
on `track` needs such a call. When tracking is lost in a `pss` call, the call of `mib` that
reaches the half-frame emitted then drops the held cell, and from there on nothing is tracked
until `pss` emits a half-frame in tracking state. -/
theorem end_to_end [GnuRadio] {nId2 : ℤ} {threshold : F} {after every : ℤ} {mib : Dec}
    {phichLength : PhichLength} {phichResources : PhichResources} {sfnOffset : ℤ}
    (hmake : make lib nId2 threshold after every mib phichLength phichResources sfnOffset =
      .ok c₀) (hrun : Machine.Run (step lib) c₀ tr c) :
    tr.flatMap takenBySss <+: tr.flatMap sentToSss ∧
    tr.flatMap takenByMib <+: tr.flatMap sentToMib ∧
    (∀ (n : ℕ) (m : MibImpl S Dec × MibWork S) addr samples nofPorts,
      (tr.flatMap mibSteps)[n]? = some m →
      LibCall.ueMibDecode addr samples nofPorts ∈ m.2.calls →
        ∃ e : Emission S, (tr.flatMap emitted)[n]? = some (e, true) ∧ samples = [e.out]) ∧
    (∀ (n : ℕ) (m : MibImpl S Dec × MibWork S) p,
      (tr.flatMap mibSteps)[n]? = some m → Message.mk .track p ∈ m.2.msgs →
        ∃ e : Emission S, (tr.flatMap emitted)[n]? = some (e, true)) ∧
    (∀ tr₁ t tr₂ n, tr = tr₁ ++ t :: tr₂ → LosesTracking t →
      n = (tr₁.flatMap emitted).length →
        (∃ e : Emission S, (tr.flatMap emitted)[n]? = some (e, false)) ∧
        (∀ m : MibImpl S Dec × MibWork S, (tr.flatMap mibSteps)[n]? = some m →
          ∀ p, m.1.held = some p → m.2.msgs = [⟨.drop, p⟩]) ∧
        (∀ (k : ℕ) (m : MibImpl S Dec × MibWork S), n ≤ k →
          (∀ (j : ℕ) (e : Emission S) tracking, n ≤ j → j ≤ k →
            (tr.flatMap emitted)[j]? = some (e, tracking) → tracking = false) →
          (tr.flatMap mibSteps)[k]? = some m → ∀ p, Message.mk .track p ∉ m.2.msgs)) := by
  obtain ⟨hsound, hsss, hmib⟩ := make_spec hmake
  have hinv : ∀ s i s' o, Sound s → step lib s i = .ok (s', o) → Sound s' :=
    fun _ _ _ _ => step_sound
  have hreach {n : ℕ} {m : MibImpl S Dec × MibWork S}
      (hm : (tr.flatMap mibSteps)[n]? = some m) := reaches_mib hsound hsss hmib hrun hm
  have htrack {n : ℕ} {m : MibImpl S Dec × MibWork S} {p : PmtT}
      (hm : (tr.flatMap mibSteps)[n]? = some m) (hp : Message.mk .track p ∈ m.2.msgs) :
      ∃ e : Emission S, (tr.flatMap emitted)[n]? = some (e, true) := by
    obtain ⟨e, tracking, he, -, hdecodes, htracks⟩ := hreach hm
    obtain ⟨addr, samples, nofPorts, hcall⟩ := htracks p hp
    obtain ⟨rfl, -⟩ := hdecodes addr samples nofPorts hcall
    exact ⟨e, he⟩
  refine ⟨⟨c.toSss, ?_⟩, ⟨c.toMib, ?_⟩, fun n m addr samples nofPorts hm hcall => ?_,
    fun n m p => htrack, ?_⟩
  · rw [hrun.fifo hsound hinv (fun _ hs ht => (step_streams hs ht).toSss) hsss]
  · rw [hrun.fifo hsound hinv (fun _ hs ht => (step_streams hs ht).toMib) hmib]
  · obtain ⟨e, tracking, he, -, hdecodes, -⟩ := hreach hm
    obtain ⟨rfl, hsamples⟩ := hdecodes addr samples nofPorts hcall
    exact ⟨e, he, hsamples⟩
  · rintro tr₁ t tr₂ n rfl hloss rfl
    obtain ⟨hpre, hstep, -⟩ := hrun.at_transition
    have hpresound : t.pre.Sound := hpre.invariant hsound hinv
    obtain ⟨e, he⟩ := emitted_of_loss hpresound hstep hloss
    -- the half-frame of the call in which tracking was lost is the `n`-th one
    have hemitted : ((tr₁ ++ t :: tr₂).flatMap emitted)[(tr₁.flatMap emitted).length]? =
        some (e, false) := by
      rw [List.flatMap_append, List.flatMap_cons, he, List.getElem?_append_right le_rfl,
        Nat.sub_self]
      rfl
    refine ⟨⟨e, hemitted⟩, fun m hm p hp => ?_, fun k m hk hquiet hm p hp => ?_⟩
    · obtain ⟨e', tracking, he', hlost, -⟩ := hreach hm
      rw [hemitted] at he'
      cases he'
      rw [hlost rfl, hp]
      rfl
    · -- a track would need a half-frame emitted in tracking state
      obtain ⟨e', he'⟩ := htrack hm hp
      cases hquiet k e' true hk le_rfl he'

/-- A chain that finds a cell at its first correlation and loses it at the second: what `mib`
tracked it drops. -/
theorem end_to_end_playback :
    ∃ tr c, Machine.Run (step (.playback Unit [(960, 5), (960, -1)] 3))
        (.playback Unit [(960, 5), (960, -1)] 1 1 0 [true, true]) tr c ∧
      (∃ e : Emission Unit, (tr.flatMap emitted)[0]? = some (e, true)) ∧
      ∃ (m : MibImpl Unit (List Bool) × MibWork Unit) (p : PmtT),
        (tr.flatMap mibSteps)[1]? = some m ∧ m.2.msgs = [⟨.drop, p⟩] := by
  have hfound : Machine.Run (step (.playback Unit [(960, 5), (960, -1)] 3))
      (.playback Unit [(960, 5), (960, -1)] 1 1 0 [true, true]) _ _ :=
    .snoc (i := .pss (.work (.minimal (fun _ => ()) 0)) [] (by simp)) .nil rfl
  have htagged := Machine.Run.snoc (i := .sss fun _ => ()) hfound rfl
  have htracked := Machine.Run.snoc (i := .mib 0 1) htagged rfl
  have hlost :=
    Machine.Run.snoc (i := .pss (.work (.minimal (fun _ => ()) 0)) [] (by simp)) htracked rfl
  have hpassed := Machine.Run.snoc (i := .sss fun _ => ()) hlost rfl
  have hrun := Machine.Run.snoc (i := .mib 0 2) hpassed rfl
  obtain ⟨-, -, -, htrack, hloss⟩ := end_to_end (make_playback Unit _ 3 1 1 0 [true, true]) hrun
  have hdrop := (hloss [_, _, _] _ [_, _] 1 rfl
    ⟨.minimal (fun _ => ()) 0, [], _, rfl, by decide, by decide⟩ rfl).2.1 _ rfl _ rfl
  exact ⟨_, _, hrun, htrack 0 _ _ rfl (List.mem_singleton_self _), _, _, rfl, hdrop⟩

end Runs

end Chain

end LteTrigger
