import LteTrigger.FlowGraph.ExitOnSuccess
import LteTrigger.FlowGraph.Termination

/-!
# Cells that are there are found

The other half of `FlowGraph.store_sound` and `FlowGraph.cells_tracked`. Suppose that srsLTE finds
what it is asked for: the cell group in every half-frame that `sss` looks at and the block in every
half-frame that `mib` decodes. Then sixteen calls of `pss` in a row that end over the threshold are
enough, however the scheduler calls the blocks: once the flow graph is quiet, the store holds the
cell of the row, for good if the trigger exits on success, and otherwise until a call of `pss` ends
below the threshold. A call of `mib` that is given several half-frames passes over none of them
without holding a cell.

What counts are the calls of `pss`, not its correlations (`PssImpl.hits`). A call that skips the
correlation compares the ratio of the last one with the threshold in force, so it counts as well,
and a threshold that is raised can lose a row without a new correlation.

## Main definitions

* `RowWork.Finds`: srsLTE finds what it is asked for in an event of a row;
* `Row.Acquired`: a row whose `pss` has had enough calls in a row that ended over the threshold.

## Main results

* `MibImpl.generalWork_finds`: what a call of `mib` then does;
* `Row.exists_consumed`: what becomes of a half-frame that `pss` emits in tracking state;
* `Row.held_of_emitted`, `Row.held_of_tracking`: which rows hold a cell once they are quiet;
* `FlowGraph.found_iff`, `FlowGraph.kept_iff`: which rows have a cell in the store.
-/

namespace LteTrigger

/-- A half-frame in which `sss` finds the group is one for a cell. -/
theorem SssImpl.outputFrame_candidate [GnuRadio] {S Sync : Type} {lib : SssLib S Sync}
    {s : SssImpl Sync} {frame : Frame S} {stale : HalfFrame S}
    (hkept : getTagsInWindow frame.tags trackingLostTagKey = [])
    (hid : getTagsInWindow frame.tags cellIdTagKey = [])
    (hcp : getTagsInWindow frame.tags cpTypeTagKey = [])
    (hfound :
      getTagsInWindow (outputFrame frame (work lib s frame stale).2).tags cellIdTagKey ≠ []) :
    ∃ cellIdTag cpTypeTag,
      (outputFrame frame (work lib s frame stale).2).kind = .candidate cellIdTag cpTypeTag := by
  rw [outputFrame, getTagsInWindow_append, hid, List.nil_append] at hfound
  rcases work_cases lib s frame stale with
    ⟨-, -, hadded⟩ | ⟨-, -, hadded⟩ | ⟨-, -, cellId, cpNorm, hadded⟩
  · simp [hadded] at hfound
  · simp [hadded] at hfound
  · refine ⟨⟨cellIdTagKey, .fromLong cellId⟩, ⟨cpTypeTagKey, .bool cpNorm⟩, ?_⟩
    have hlost : getTagsInWindow (outputFrame frame (work lib s frame stale).2).tags
        trackingLostTagKey = [] := by
      rw [outputFrame, getTagsInWindow_append, hkept, hadded]
      simp [getTagsInWindow_cons, trackingLostTagKey, cellIdTagKey, cpTypeTagKey]
    have hcellId : getTagsInWindow (outputFrame frame (work lib s frame stale).2).tags
        cellIdTagKey = [⟨cellIdTagKey, .fromLong cellId⟩] := by
      rw [outputFrame, getTagsInWindow_append, hid, hadded]
      simp [getTagsInWindow_cons, cellIdTagKey, cpTypeTagKey]
    have hcpType : getTagsInWindow (outputFrame frame (work lib s frame stale).2).tags
        cpTypeTagKey = [⟨cpTypeTagKey, .bool cpNorm⟩] := by
      rw [outputFrame, getTagsInWindow_append, hcp, hadded]
      simp [getTagsInWindow_cons, cellIdTagKey, cpTypeTagKey]
    rw [Frame.kind, if_neg (not_not.mpr hlost), hcellId, hcpType]

/-- A call of `srslte_ue_mib_init` that fails. -/
def LibCall.initFails {S : Type} : LibCall S → Bool
  | .ueMibInit _ _ ok => !ok
  | _ => false

/-- A call of `srslte_ue_mib_decode`. -/
def LibCall.decodes {S : Type} : LibCall S → Bool
  | .ueMibDecode _ _ _ => true
  | _ => false

/-- A call of `srslte_pbch_mib_unpack`. -/
def LibCall.unpacks {S : Type} : LibCall S → Bool
  | .pbchMibUnpack _ => true
  | _ => false

/-- In a call of `mib`, the decoder can be initialised and finds the block: what is decoded is
unpacked. -/
def MibWork.Finds {S : Type} (w : MibWork S) : Prop :=
  (∀ call ∈ w.calls, call.initFails = false) ∧
    ((∃ call ∈ w.calls, call.decodes = true) → ∃ call ∈ w.calls, call.unpacks = true)

instance {S : Type} (w : MibWork S) : Decidable w.Finds := inferInstanceAs (Decidable (_ ∧ _))

/-- In an event of a row, srsLTE finds what it is asked for: `sss` finds the group in a half-frame
that is not lost, and `mib` the block in one that it decodes. -/
def RowWork.Finds [GnuRadio] {S : Type} : RowWork S → Prop
  | .pss _ _ => True
  | .sss taken given => taken.kind ≠ .lost → getTagsInWindow given.tags cellIdTagKey ≠ []
  | .mib _ w => w.Finds

instance [GnuRadio] {S : Type} : (work : RowWork S) → Decidable work.Finds
  | .pss _ _ => .isTrue trivial
  | .sss _ _ => inferInstanceAs (Decidable (_ → _))
  | .mib _ w => inferInstanceAs (Decidable w.Finds)

namespace MibImpl

variable [GnuRadio] {S Dec : Type} {lib : MibLib S Dec} {s s' : MibImpl S Dec} {c : MibCall S}
  {w : MibWork S}

/-- A call that has not published a cell looks for one in a half-frame for a cell. -/
theorem searched_of_candidate (h : generalWork lib s c = .ok (s', w))
    (hnone : s.cellPublished = false) {cellIdTag cpTypeTag : Tag}
    (hkind : c.first.kind = .candidate cellIdTag cpTypeTag) : searched s c ≠ none := by
  rw [generalWork_eq] at h
  simp only [hkind, hnone, Bool.false_eq_true, ↓reduceIte] at h
  cases hid : tagCellId cellIdTag with
  | error err => simp [hid, Except.map] at h
  | ok cellId => simp [searched, hkind, hnone, hid, Except.toOption]

/-- A decoding attempt that finds the block publishes a cell. -/
theorem decode_held (hfound : ∃ call ∈ (decode lib s c).2.calls, call.unpacks = true) :
    (decode lib s c).1.held ≠ none := by
  by_cases hret : (lib.ueMibDecode (lib.pbchDecodeReset s.mib) s.sfBuffer.data s.bchPayload
      s.cell.nofPorts s.sfnOffset).ret = srslteUeMibFound
  · cases hexit : s.exitOnSuccess <;> simp [decode, hret, hexit, held]
  · simp [decode, hret, LibCall.unpacks] at hfound

/-- Where srsLTE finds what it is asked for, a call ends with a cell held, or it takes one
half-frame, which is not for a cell. -/
theorem generalWork_finds (h : generalWork lib s c = .ok (s', w)) (hfinds : w.Finds) :
    s'.held ≠ none ∨ (c.taken w = [c.first] ∧
      ∀ cellIdTag cpTypeTag, c.first.kind ≠ .candidate cellIdTag cpTypeTag) := by
  have hfirst (hone : w.nconsume = halfFrameLength) : c.taken w = [c.first] := by
    rw [MibCall.taken, hone, Nat.div_self (by decide), MibCall.frames, List.take_succ_cons,
      List.take_zero]
  obtain ⟨hinit, hblock⟩ := hfinds
  rcases generalWork_cases h with
    ⟨hlost, -, rfl⟩ | ⟨-, hsearched, rfl, rfl⟩ | ⟨cellId, cp, -, -, hfail, -, rfl⟩ |
    ⟨cellId, cp, -, -, -, rfl, rfl⟩
  · exact .inr ⟨hfirst rfl, by simp [hlost]⟩
  · -- a half-frame for a cell is only passed over while a cell is held
    by_cases hpublished : s.cellPublished = true
    · left
      simp [held, receive, hpublished]
    · refine .inr ⟨hfirst rfl, fun cellIdTag cpTypeTag hkind => ?_⟩
      exact searched_of_candidate h (Bool.eq_false_iff.mpr hpublished) hkind hsearched
  · -- the log has an initialisation that fails
    rcases configure_cases lib (s.receive c) cellId cp with ⟨-, -, hcached⟩ | ⟨-, hcalls, -⟩
    · simp [hcached] at hfail
    · simp [hcalls, hfail, reinitCalls, LibCall.initFails] at hinit
  · left
    obtain ⟨addr, samples, nofPorts, hdecode⟩ :=
      ueMibDecode_mem_calls lib (configure lib (s.receive c) cellId cp).1 c
    obtain ⟨call, hcall, hunpacks⟩ := hblock ⟨_, List.mem_append_right _ hdecode, rfl⟩
    rcases List.mem_append.mp hcall with hconfigure | hfound
    · -- a re-initialisation unpacks nothing
      rcases configure_cases lib (s.receive c) cellId cp with ⟨-, -, hcached⟩ | ⟨-, hcalls, -⟩
      · simp [hcached] at hconfigure
      · rw [hcalls, reinitCalls] at hconfigure
        split at hconfigure <;> simp at hconfigure <;>
          rcases hconfigure with rfl | rfl | rfl <;> cases hunpacks
    · exact decode_held ⟨call, hfound, hunpacks⟩

end MibImpl

namespace Row

variable [GnuRadio] {F S Det Tab Sync Dec : Type} [FloatOps F] {lib : ChainLib F S Det Tab Sync Dec}
  {r r' r₀ : Row F S Det Tab Sync Dec} {tr : List (Transition F S Det Tab Sync Dec)}
  {t : Transition F S Det Tab Sync Dec} {e : Emission S}

/-- At some time of a run the last `after` calls of `pss`, or more, had ended over the threshold
that was in force in each of them. -/
def Acquired (after : ℤ) (tr : List (Transition F S Det Tab Sync Dec)) : Prop :=
  ∃ tr₁ tr₂, tr = tr₁ ++ tr₂ ∧ after ≤ HitLock.trailing (PssImpl.hits (tr₁.filterMap pssPart))

/-- A row that is done stays done. -/
theorem done_run (hdone : r₀.done = true) (hrun : Machine.Run (step lib) r₀ tr r) :
    r.done = true := by
  refine hrun.invariant (I := fun r => r.done = true) hdone fun r e r' o hdone hstep => ?_
  rcases step_cases hstep with
    ⟨_, _, _, _, -, -, -, hr⟩ | ⟨_, _, _, -, -, -, hr⟩ | ⟨_, _, _, _, _, _, -, -, hdone', -⟩
  · rw [hr]
    exact hdone
  · rw [hr]
    exact hdone
  · rw [hdone] at hdone'
    cases hdone'

/-- A row that is tracking has emitted a half-frame in tracking state. -/
theorem exists_emitted (h : Fresh r₀) (hidle : r₀.pss.tracking.isTracking = false)
    (hrun : Machine.Run (step lib) r₀ tr r) (htracking : r.pss.tracking.isTracking = true) :
    ∃ e, (e, true) ∈ tr.flatMap emitted := by
  induction hrun with
  | nil =>
    rw [hidle] at htracking
    cases htracking
  | @snoc tr r r' event o hrun hstep ih =>
    rw [List.flatMap_append, List.flatMap_singleton]
    have hbefore (hsame : r'.pss.tracking = r.pss.tracking) :
        ∃ e, (e, true) ∈ tr.flatMap emitted ++ emitted ⟨r, event, o, r'⟩ := by
      obtain ⟨e, he⟩ := ih (hsame ▸ htracking)
      exact ⟨e, List.mem_append_left _ he⟩
    rcases step_cases hstep with
      ⟨_, _, _, work, -, hpss, rfl, -⟩ | ⟨_, _, _, -, -, -, hr⟩ |
      ⟨_, _, _, _, _, _, -, -, -, -, -, -, hr⟩
    · rcases PssImpl.step_cases hpss with ⟨c, w, -, rfl, hw⟩ | ⟨threshold, -, -, hpost⟩
      · cases w with
        | emit e => exact ⟨e, List.mem_append_right _ (by simp [emitted, Work.emission, htracking])⟩
        | drop =>
          -- a call that drops its input does not end in tracking state
          have hcoherent : r.pss.Coherent :=
            hrun.invariant (I := fun r => r.pss.Coherent) h.coherent fun _ _ _ _ => step_coherent
          rw [(not_tracking_of_drop hcoherent hw).2] at htracking
          cases htracking
      · exact hbefore (by rw [hpost]; rfl)
    · exact hbefore (by rw [hr])
    · exact hbefore (by rw [hr])

/-- What `pss` puts on its output stream has no `cp_type` tag. -/
theorem noCpType_of_run (hrun : Machine.Run (step lib) r₀ tr r) {frame : Frame S}
    (hframe : frame ∈ tr.flatMap sentToSss) : getTagsInWindow frame.tags cpTypeTagKey = [] := by
  obtain ⟨t, ht, hframe⟩ := List.mem_flatMap.mp hframe
  obtain ⟨hstep, -⟩ := hrun.cut_at_mem ht
  rcases step_cases hstep with
    ⟨_, tags, foreign, work, -, -, ho, -⟩ | ⟨_, _, _, -, -, ho, -⟩ |
    ⟨_, _, _, _, _, _, -, -, -, -, -, ho, -⟩
  · simp only [sentToSss, ho, Option.mem_toList, Option.map_eq_some_iff] at hframe
    obtain ⟨e, -, rfl⟩ := hframe
    exact e.getTagsInWindow_frame foreign (by simp [chainKeys]) (by decide)
  · simp [sentToSss, ho] at hframe
  · simp [sentToSss, ho] at hframe

/-- Of a half-frame that is not lost and has no tags of a cell, `sss` makes one for a cell. -/
def Found (taken given : Frame S) : Prop :=
  taken.kind ≠ .lost → getTagsInWindow taken.tags cellIdTagKey = [] →
    getTagsInWindow taken.tags cpTypeTagKey = [] →
      ∃ cellIdTag cpTypeTag, given.kind = .candidate cellIdTag cpTypeTag

/-- Where srsLTE finds the group, all half-frames that `sss` takes are such ones. -/
theorem found_of_run (hrun : Machine.Run (step lib) r₀ tr r) (hfinds : ∀ t ∈ tr, t.output.Finds) :
    List.Forall₂ Found (tr.flatMap takenBySss) (tr.flatMap sentToMib) := by
  induction hrun with
  | nil => exact .nil
  | @snoc tr r r' e o _ hstep ih =>
    rw [List.forall_mem_append, List.forall_mem_singleton] at hfinds
    rw [List.flatMap_append, List.flatMap_append, List.flatMap_singleton, List.flatMap_singleton]
    refine List.rel_append (ih hfinds.1) ?_
    rcases step_cases hstep with
      ⟨_, _, _, _, -, -, rfl, -⟩ | ⟨stale, taken, _, -, -, rfl, -⟩ |
      ⟨_, _, _, _, _, _, -, -, -, -, -, rfl, -⟩
    · exact .nil
    · refine .cons (fun hkept hid hcp => ?_) .nil
      refine SssImpl.outputFrame_candidate ?_ hid hcp (hfinds.2 hkept)
      rwa [ne_eq, Frame.kind_eq_lost_iff, not_not] at hkept
    · exact .nil

/-- The `n`-th half-frame before `mib` is one for a cell, if `pss` emitted the `n`-th one in
tracking state. -/
theorem candidate_of_run (h : Fresh r₀) (hrun : Machine.Run (step lib) r₀ tr r)
    (hfinds : ∀ t ∈ tr, t.output.Finds) {n : ℕ} (he : (tr.flatMap emitted)[n]? = some (e, true))
    {frame : Frame S} (hframe : (tr.flatMap sentToMib)[n]? = some frame) :
    ∃ cellIdTag cpTypeTag, frame.kind = .candidate cellIdTag cpTypeTag := by
  obtain ⟨hcarries, hqueue, -, -⟩ := streams_of_run h hrun
  -- from `mib` back to `sss`, and from there to `pss`
  obtain ⟨taken, htaken, hfound⟩ := Machine.forall₂_getElem? (found_of_run hrun hfinds) hframe
  have hsent : (tr.flatMap sentToSss)[n]? = some taken := by
    rw [hqueue, List.getElem?_append_left (List.getElem?_eq_some_iff.mp htaken).1, htaken]
  obtain ⟨a, ha, hcarry⟩ := Machine.forall₂_getElem? hcarries hsent
  obtain rfl : a = (e, true) := Option.some.inj (ha.symm.trans he)
  refine hfound ?_ hcarry.noCellId (noCpType_of_run hrun (List.mem_of_getElem? hsent))
  rw [ne_eq, hcarry.lost]
  simp

/-- When nothing is on the way in a row, `mib` has consumed one for each half-frame that `pss` has
emitted. -/
theorem length_takenByMib (h : Fresh r₀) (hrun : Machine.Run (step lib) r₀ tr r)
    (htoSss : r.toSss = []) (htoMib : r.toMib = []) :
    (tr.flatMap takenByMib).length = (tr.flatMap emitted).length := by
  obtain ⟨-, -, -, hmib⟩ := streams_of_run h hrun
  rw [← length_sentToMib h hrun htoSss, hmib, htoMib, List.append_nil]

/-- A half-frame that `pss` emitted in tracking state is consumed as one for a cell. -/
theorem exists_consumed (h : Fresh r₀) (hrun : Machine.Run (step lib) r₀ tr r)
    (hfinds : ∀ t ∈ tr, t.output.Finds) (htoSss : r.toSss = []) (htoMib : r.toMib = []) {n : ℕ}
    (he : (tr.flatMap emitted)[n]? = some (e, true)) :
    ∃ frame cellIdTag cpTypeTag, (tr.flatMap takenByMib)[n]? = some frame ∧
      frame.kind = .candidate cellIdTag cpTypeTag := by
  have hn : n < (tr.flatMap sentToMib).length := by
    rw [length_sentToMib h hrun htoSss]
    exact (List.getElem?_eq_some_iff.mp he).1
  obtain ⟨frame, hsent⟩ : ∃ frame, (tr.flatMap sentToMib)[n]? = some frame :=
    ⟨_, List.getElem?_eq_getElem hn⟩
  obtain ⟨cellIdTag, cpTypeTag, hkind⟩ := candidate_of_run h hrun hfinds he hsent
  rw [(streams_of_run h hrun).2.2.2, htoMib, List.append_nil] at hsent
  exact ⟨frame, cellIdTag, cpTypeTag, hsent, hkind⟩

/-- Where srsLTE finds what it is asked for, a call of `mib` that consumes a half-frame for a cell
ends with a cell held. -/
theorem held_of_taken (hstep : step lib t.pre t.input = .ok (t.post, t.output))
    (hfinds : t.output.Finds) {frame : Frame S} (htaken : frame ∈ takenByMib t)
    {cellIdTag cpTypeTag : Tag} (hkind : frame.kind = .candidate cellIdTag cpTypeTag) :
    t.post.mib.held ≠ none := by
  rcases step_cases hstep with
    ⟨_, _, _, _, -, -, ho, -⟩ | ⟨_, _, _, -, -, ho, -⟩ |
    ⟨more, now, fresh, first, rest, w, -, -, -, -, hw, ho, -⟩
  · simp [takenByMib, ho] at htaken
  · simp [takenByMib, ho] at htaken
  · rw [ho] at hfinds
    refine (MibImpl.generalWork_finds hw hfinds).resolve_right ?_
    rintro ⟨hone, hother⟩
    simp only [takenByMib, ho, hone, List.mem_singleton] at htaken
    exact hother _ _ (htaken ▸ hkind)

/-- In a run where srsLTE finds what it is asked for, a cell is held as long as the half-frame that
`mib` has consumed last is one for a cell. -/
theorem held_of_last (hrun : Machine.Run (step lib) r₀ tr r)
    (hfinds : ∀ t ∈ tr, t.output.Finds) {frame : Frame S}
    (hlast : (tr.flatMap takenByMib).getLast? = some frame) {cellIdTag cpTypeTag : Tag}
    (hkind : frame.kind = .candidate cellIdTag cpTypeTag) : r.mib.held ≠ none := by
  induction hrun with
  | nil => cases hlast
  | @snoc tr r r' e o _ hstep ih =>
    rw [List.forall_mem_append, List.forall_mem_singleton] at hfinds
    rw [List.flatMap_append, List.flatMap_singleton, List.getLast?_append] at hlast
    rcases step_cases hstep with
      ⟨_, _, _, _, -, -, rfl, hr⟩ | ⟨_, _, _, -, -, rfl, hr⟩ |
      ⟨more, now, fresh, first, rest, w, -, -, -, -, hw, rfl, -⟩
    · rw [hr]
      exact ih hfinds.1 hlast
    · rw [hr]
      exact ih hfinds.1 hlast
    · refine (MibImpl.generalWork_finds hw hfinds.2).resolve_right ?_
      rintro ⟨hone, hother⟩
      simp only [takenByMib, hone] at hlast
      obtain rfl := Option.some.inj hlast
      exact hother _ _ hkind

/-- A row that exits on success and in which nothing is on the way, except before a `mib` that is
done, holds a cell, if its `pss` has emitted a half-frame in tracking state. -/
theorem held_of_emitted (h : Fresh r₀) (hexits : ExitsOnSuccess r₀)
    (hrun : Machine.Run (step lib) r₀ tr r) (hfinds : ∀ t ∈ tr, t.output.Finds)
    (htoSss : r.toSss = []) (htoMib : r.done = false → r.toMib = [])
    (he : (e, true) ∈ tr.flatMap emitted) : r.mib.held ≠ none := by
  refine (exitsOnSuccess_run hexits hrun).done_iff.mp ?_
  by_contra hnever
  rw [Bool.not_eq_true] at hnever
  obtain ⟨n, hn⟩ := List.mem_iff_getElem?.mp he
  obtain ⟨frame, cellIdTag, cpTypeTag, hframe, hkind⟩ :=
    exists_consumed h hrun hfinds htoSss (htoMib hnever) hn
  -- the row is done when that half-frame is consumed, and stays so
  obtain ⟨t, ht, htaken⟩ := List.mem_flatMap.mp (List.mem_of_getElem? hframe)
  obtain ⟨tr₁, tr₂, rfl⟩ := List.mem_iff_append.mp ht
  obtain ⟨hpre, hstep, hpost⟩ := hrun.at_transition
  have hdone := ((exitsOnSuccess_run hexits hpre).step hstep).done_iff.mpr
    (held_of_taken hstep (hfinds t ht) htaken hkind)
  rw [done_run hdone hpost] at hnever
  cases hnever

/-- A row in which nothing is on the way holds a cell while its `pss` is tracking. -/
theorem held_of_tracking (h : Fresh r₀) (hidle : r₀.pss.tracking.isTracking = false)
    (hrun : Machine.Run (step lib) r₀ tr r) (hfinds : ∀ t ∈ tr, t.output.Finds)
    (htoSss : r.toSss = []) (htoMib : r.toMib = []) (htracking : r.pss.tracking.isTracking = true) :
    r.mib.held ≠ none := by
  obtain ⟨e, he⟩ := exists_emitted h hidle hrun htracking
  -- the half-frame that was emitted last is one in tracking state
  obtain ⟨⟨e, flag⟩, ha⟩ : ∃ a, (tr.flatMap emitted).getLast? = some a :=
    ⟨_, List.getLast?_eq_some_getLast (List.ne_nil_of_mem he)⟩
  obtain rfl : flag = true := (followsLast_run h hrun _ ha).symm.trans htracking
  rw [List.getLast?_eq_getElem?] at ha
  obtain ⟨frame, cellIdTag, cpTypeTag, hframe, hkind⟩ :=
    exists_consumed h hrun hfinds htoSss htoMib ha
  refine held_of_last hrun hfinds ?_ hkind
  rw [List.getLast?_eq_getElem?, length_takenByMib h hrun htoSss htoMib, hframe]

end Row

section Rows

variable {D F S Det Tab Sync Dec : Type} [FloatOps D] [FloatOps F]
  {lib : TriggerLib D F S Det Tab Sync Dec} {psrThreshold : D} {exitOnSuccess : Bool}
  {memory : Fin 3 → MibMemory Dec} {s₀ : DownlinkTrigger D F S Det Tab Sync Dec} {i : Fin 3}
  {r : Row F S Det Tab Sync Dec} {tr : List (Row.Transition F S Det Tab Sync Dec)}

/-- A `pss` that was constructed is not tracking. -/
theorem DownlinkTrigger.idle_made (hmake : make lib psrThreshold exitOnSuccess memory = .ok s₀)
    (i : Fin 3) : (s₀.rows i).pss.tracking.isTracking = false := by
  obtain ⟨_, _, _, -, -, -, hmade⟩ := PssImpl.make_eq (row_made hmake i).1
  rw [hmade]

/-- The `pss` of a row is tracking exactly if its last sixteen calls, or more, have ended over the
threshold. -/
theorem DownlinkTrigger.tracking_iff [GnuRadio]
    (hmake : make lib psrThreshold exitOnSuccess memory = .ok s₀)
    (hrun : Machine.Run (Row.step lib.toChainLib) (s₀.rows i) tr r) :
    r.pss.tracking.isTracking = true ↔
      (16 : ℤ) ≤ HitLock.trailing (PssImpl.hits (tr.filterMap Row.pssPart)) := by
  rw [(PssImpl.score_of_run (row_made hmake i).1 ((Row.isPart_pss _).run hrun)).1]
  exact and_iff_right (by decide)

end Rows

namespace FlowGraph

variable {D F S Det Tab Sync Dec : Type} [FloatOps D] [FloatOps F]
  {lib : TriggerLib D F S Det Tab Sync Dec} {psrThreshold : D}
  {memory : Fin 3 → MibMemory Dec} {trigger : DownlinkTrigger D F S Det Tab Sync Dec}
  {g : FlowGraph D F S Det Tab Sync Dec} {tr : List (Transition D F S Det Tab Sync Dec)}
  {i : Fin 3}

/-- A row holds a cell only after sixteen calls of its `pss` in a row over the threshold. -/
theorem acquired_of_held [GnuRadio]
    (hmake : DownlinkTrigger.make lib psrThreshold true memory = .ok trigger)
    (hrun : Machine.Run (step lib) (make trigger) tr g) {p : PmtT}
    (hheld : (g.trigger.rows i).mib.held = some p) : Row.Acquired 16 (rowTrace i tr) := by
  obtain ⟨t, ht, call, hpublishes⟩ := publishes_of_held hmake hrun hheld
  obtain ⟨tr₁, tr₂, rfl⟩ := List.mem_iff_append.mp ht
  obtain ⟨-, hstep, -⟩ := hrun.at_transition
  obtain ⟨event, w, hu, hmem⟩ := rowPart_of_publishes hstep hpublishes
  have hrow := row_run hrun i
  rw [rowTrace, List.filterMap_append, List.filterMap_cons_some hu] at hrow ⊢
  obtain ⟨hpss, hfresh⟩ := DownlinkTrigger.row_made hmake i
  obtain ⟨hdecodes, htracks⟩ := Row.decodes_of_run hpss hfresh hrow rfl
  obtain ⟨addr, samples, nofPorts, hcall⟩ := htracks p hmem
  obtain ⟨-, e, ⟨tr₃, u, tr₄, htr, -, -, hsixteen⟩, -⟩ := hdecodes addr samples nofPorts hcall
  rw [htr, List.append_assoc, List.cons_append, List.append_cons]
  exact ⟨tr₃ ++ [u], _, rfl, hsixteen⟩

/-- In the last of sixteen calls in a row that end over the threshold `pss` emits a half-frame in
tracking state. -/
theorem exists_emitted_of_acquired [GnuRadio] {exitOnSuccess : Bool}
    (hmake : DownlinkTrigger.make lib psrThreshold exitOnSuccess memory = .ok trigger)
    (hrun : Machine.Run (step lib) (make trigger) tr g)
    (hacquired : Row.Acquired 16 (rowTrace i tr)) :
    ∃ e, (e, true) ∈ (rowTrace i tr).flatMap Row.emitted := by
  obtain ⟨tr₁, tr₂, htr, hsixteen⟩ := hacquired
  have hrow := row_run hrun i
  rw [htr] at hrow ⊢
  obtain ⟨r, hrow₁, -⟩ := hrow.split
  have htracking := (DownlinkTrigger.tracking_iff hmake hrow₁).mpr hsixteen
  obtain ⟨e, he⟩ := Row.exists_emitted (DownlinkTrigger.row_made hmake i).2
    (DownlinkTrigger.idle_made hmake i) hrow₁ htracking
  exact ⟨e, by rw [List.flatMap_append]; exact List.mem_append_left _ he⟩

/-- Take a run of a flow graph that exits on success, in which srsLTE has found what a row has
asked it for, and at whose end the flow graph is quiet. Then the store holds the cell of the row
exactly if at some time sixteen calls of its `pss` in a row have ended over the threshold, in
whatever order and for however many half-frames the scheduler has called the blocks. -/
theorem found_iff [GnuRadio]
    (hmake : DownlinkTrigger.make lib psrThreshold true memory = .ok trigger)
    (hrun : Machine.Run (step lib) (make trigger) tr g) (hquiet : g.Quiet)
    (hfinds : ∀ u ∈ rowTrace i tr, u.output.Finds) :
    (∃ p ∈ g.store.cells, (g.trigger.rows i).mib.held = some p) ↔
      Row.Acquired 16 (rowTrace i tr) := by
  constructor
  · rintro ⟨p, -, hheld⟩
    exact acquired_of_held hmake hrun hheld
  · intro hacquired
    obtain ⟨e, he⟩ := exists_emitted_of_acquired hmake hrun hacquired
    obtain ⟨-, hfresh⟩ := DownlinkTrigger.row_made hmake i
    have hheld := Row.held_of_emitted hfresh (exitsOnSuccess_run hmake .nil i) (row_run hrun i)
      hfinds (hquiet.toSss i) (hquiet.toMib i) he
    obtain ⟨p, hp⟩ := Option.ne_none_iff_exists'.mp hheld
    refine ⟨p, ?_, hp⟩
    -- the store holds what the rows hold, since nothing waits there
    have hperm := cells_append_queue_perm hmake hrun
    rw [hquiet.queue .track, List.append_nil] at hperm
    exact hperm.mem_iff.mpr (List.mem_filterMap.mpr ⟨i, List.mem_finRange i, hp⟩)

/-- A cell that is found after sixteen calls of `pss` over the threshold. -/
theorem found_iff_playback :
    ∃ tr g, Machine.Run (step (.playback Unit (List.replicate 16 (960, 5)) 7))
        (make (.playback Unit (List.replicate 16 (960, 5)) 4 true [true, true])) tr g ∧
      Row.Acquired 16 (rowTrace 2 tr) ∧
      ((∃ p ∈ g.store.cells, (g.trigger.rows 2).mib.held = some p) ↔
        Row.Acquired 16 (rowTrace 2 tr)) := by
  obtain ⟨tr, g, hexec, hcell, hfinds, hsss, hmib, hqueue⟩ : ∃ tr g,
      Machine.exec (step (.playback Unit (List.replicate 16 (960, 5)) 7))
        (make (.playback Unit (List.replicate 16 (960, 5)) 4 true [true, true]))
        ((DownlinkTrigger.acquisition 2).map .trigger ++
          [.trigger (.mib 2 0 0 0), .deliver .track]) = some (tr, g) ∧
      (∃ p ∈ g.store.cells, (g.trigger.rows 2).mib.held = some p) ∧
      (∀ u ∈ rowTrace 2 tr, u.output.Finds) ∧ (∀ i, (g.trigger.rows i).toSss = []) ∧
      (∀ i, (g.trigger.rows i).done = false → (g.trigger.rows i).toMib = []) ∧
      ∀ port, g.queue port = [] := by
    refine ⟨_, _, rfl, ⟨_, List.mem_singleton_self _, rfl⟩, by decide, fun i => ?_, fun i => ?_,
      fun port => ?_⟩
    · match i with
      | 0 | 1 | 2 => rfl
    · match i with
      | 0 | 1 => exact fun _ => rfl
      | 2 => exact nofun
    · cases port <;> rfl
  have hrun := Machine.Run.of_exec hexec
  have hiff := found_iff (DownlinkTrigger.make_playback Unit _ 7 4 true _) hrun
    ⟨hsss, hmib, hqueue⟩ hfinds
  exact ⟨tr, g, hrun, hiff.mp hcell, hiff⟩

/-- Take a run of a flow graph that goes on when a cell is found, in which srsLTE has found what a
row has asked it for, and at whose end nothing is on the way. Then the store holds a cell of the
row exactly if the last sixteen calls of its `pss`, or more, have ended over the threshold that was
in force in each of them. Calls that skip the correlation count with the ratio of the last one, so
raising the threshold over that ratio loses the cell without a new correlation. This needs that
every drop was handled after the track of its object, and that the `mib` of the row has seen all
losses. -/
theorem kept_iff [GnuRadio]
    (hmake : DownlinkTrigger.make lib psrThreshold false memory = .ok trigger)
    (hrun : Machine.Run (step lib) (make trigger) tr g) (hrest : g.AtRest)
    (hfollow : CellSearch.DropsFollow (handled tr))
    (hsees : ∀ u ∈ rowTrace i tr, Row.SeesLosses u)
    (hfinds : ∀ u ∈ rowTrace i tr, u.output.Finds) :
    (∃ p ∈ g.store.cells, (g.trigger.rows i).mib.held = some p) ↔
      (16 : ℤ) ≤ HitLock.trailing (PssImpl.hits ((rowTrace i tr).filterMap Row.pssPart)) := by
  have hrow := row_run hrun i
  rw [← DownlinkTrigger.tracking_iff hmake hrow]
  obtain ⟨-, hfresh⟩ := DownlinkTrigger.row_made hmake i
  obtain ⟨hexit, hnone, -⟩ := mib_made hmake i
  constructor
  · rintro ⟨p, -, hheld⟩
    exact Row.tracking_of_held hfresh hexit hnone hrow hsees (hrest.toSss i) (hrest.toMib i)
      (by simp [hheld])
  · intro htracking
    have hheld := Row.held_of_tracking hfresh (DownlinkTrigger.idle_made hmake i) hrow hfinds
      (hrest.toSss i) (hrest.toMib i) htracking
    obtain ⟨p, hp⟩ := Option.ne_none_iff_exists'.mp hheld
    refine ⟨p, ?_, hp⟩
    have hperm := CellSearch.cells_perm_heldCells (fun i => (mib_made hmake i).2)
      (search_run hrun) hrest.queue hfollow
    exact hperm.mem_iff.mpr (List.mem_filterMap.mpr ⟨i, List.mem_finRange i, hp⟩)

/-- A cell that is kept while its row is tracking. -/
theorem kept_iff_playback :
    ∃ tr g, Machine.Run (step (.playback Unit (List.replicate 16 (960, 5)) 7))
        (make (.playback Unit (List.replicate 16 (960, 5)) 4 false [true, true])) tr g ∧
      (∃ p ∈ g.store.cells, (g.trigger.rows 2).mib.held = some p) ∧
      (16 : ℤ) ≤ HitLock.trailing (PssImpl.hits ((rowTrace 2 tr).filterMap Row.pssPart)) := by
  obtain ⟨tr, g, hexec, hcell, hfinds, hsees, horder, hsss, hmib, hqueue⟩ : ∃ tr g,
      Machine.exec (step (.playback Unit (List.replicate 16 (960, 5)) 7))
        (make (.playback Unit (List.replicate 16 (960, 5)) 4 false [true, true]))
        ((DownlinkTrigger.acquisition 2).map .trigger ++
          [.trigger (.mib 2 0 0 0), .deliver .track]) = some (tr, g) ∧
      (∃ p ∈ g.store.cells, (g.trigger.rows 2).mib.held = some p) ∧
      (∀ u ∈ rowTrace 2 tr, u.output.Finds) ∧
      (∀ u ∈ rowTrace 2 tr, ∀ frame ∈ (Row.takenByMib u).tail, frame.kind ≠ .lost) ∧
      handled tr <+: published tr ∧
      (∀ i, (g.trigger.rows i).toSss = []) ∧ (∀ i, (g.trigger.rows i).toMib = []) ∧
      ∀ port, g.queue port = [] := by
    refine ⟨_, _, rfl, ⟨_, List.mem_singleton_self _, rfl⟩, by decide, by decide, ⟨[], rfl⟩,
      fun i => ?_, fun i => ?_, fun port => ?_⟩
    · match i with
      | 0 | 1 | 2 => rfl
    · match i with
      | 0 | 1 | 2 => rfl
    · cases port <;> rfl
  have hrun := Machine.Run.of_exec hexec
  have hmake :=
    DownlinkTrigger.make_playback Unit (List.replicate 16 (960, 5)) 7 4 false [true, true]
  have hfollow := (CellSearch.sourced_run (fun i => (mib_made hmake i).2)
    (CellSearch.advance_run (search_run hrun))).dropsFollow horder
  exact ⟨tr, g, hrun, hcell,
    (kept_iff hmake hrun ⟨hsss, hmib, hqueue⟩ hfollow hsees hfinds).mp hcell⟩

end FlowGraph

end LteTrigger
