import LteTrigger.CellStore.InOrder
import LteTrigger.Trigger.Soundness

/-!
# Cell identities, and what can throw

A cell identity is made of the group `N_id_1`, which `sss` looks up in every half-frame, and of
`N_id_2`, which is fixed for a row. So the row `i` only ever sees identities of cells, and those
are `i` modulo three. A `cell_id` tag is then always an integer, and no call of `mib` throws.

What srsLTE does to the two members of `srslte_sync_t` that the identity is made of is assumed, as
it documents it.

## Main definitions

* `SyncMembers`: the two members, and what the srsLTE functions do to them;
* `IsIdentity`: the identities of the cells that a row can find;
* `Row.Identified`: the half-frames of a row carry no other identities.

## Main results

* `Row.identified_run`: the half-frames of a row in a run;
* `Row.Identified.track`: the identities that a row publishes;
* `DownlinkTrigger.thrown_of_run`: nothing throws but the channel estimation of `pss`.
-/

namespace LteTrigger

/-- The members of `srslte_sync_t` that a cell identity is made of, and what srsLTE does to
them. -/
structure SyncMembers {S Sync : Type} (lib : SssLib S Sync) where
  /-- `N_id_1`. -/
  nId1 : Sync → ℤ
  /-- `N_id_2`. -/
  nId2 : Sync → ℤ
  syncSetNId2 : ∀ sync n sync', lib.syncSetNId2 sync n = some sync' → nId2 sync' = n
  sssSetNId2 : ∀ sync n sync', lib.sssSetNId2 sync n = some sync' → nId2 sync' = nId2 sync
  syncReset : ∀ sync, nId2 (lib.syncReset sync) = nId2 sync
  syncDetectCp : ∀ sync samples pos, nId2 (lib.syncDetectCp sync samples pos).2 = nId2 sync
  syncSetCp : ∀ sync cp, nId2 (lib.syncSetCp sync cp) = nId2 sync
  sssM0m1Partial : ∀ sync samples pos, nId2 (lib.sssM0m1Partial sync samples pos) = nId2 sync
  /-- There are 168 groups. -/
  sssNId1 : ∀ sync, lib.sssNId1 sync ≠ srslteError →
    0 ≤ lib.sssNId1 sync ∧ lib.sssNId1 sync < 168
  setNId1 : ∀ sync n, nId1 (lib.setNId1 sync n) = n ∧ nId2 (lib.setNId1 sync n) = nId2 sync
  syncGetCellId : ∀ sync, 0 ≤ nId1 sync → 0 ≤ nId2 sync →
    lib.syncGetCellId sync = 3 * nId1 sync + nId2 sync

/-- An srsLTE that always finds the same group keeps to this. -/
def SyncMembers.ofNId1 (S : Type) {nId1 : ℤ} (hrange : 0 ≤ nId1 ∧ nId1 < 168) :
    SyncMembers (SssLib.ofNId1 S nId1) where
  nId1 sync := sync.2
  nId2 sync := sync.1
  syncSetNId2 sync n sync' h := by
    simp only [SssLib.ofNId1] at h
    split at h <;> cases h
    rfl
  sssSetNId2 sync n sync' h := by
    simp only [SssLib.ofNId1] at h
    split at h <;> cases h
    rfl
  syncReset _ := rfl
  syncDetectCp _ _ _ := rfl
  syncSetCp _ _ := rfl
  sssM0m1Partial _ _ _ := rfl
  sssNId1 _ _ := hrange
  setNId1 _ _ := ⟨rfl, rfl⟩
  syncGetCellId _ _ _ := rfl

/-- The identity of a cell with the given `N_id_2`. -/
def IsIdentity (nId2 cellId : ℤ) : Prop :=
  0 ≤ cellId ∧ cellId < 504 ∧ cellId % 3 = nId2

/-- A half-frame whose `cell_id` tags are identities of cells with the given `N_id_2`. -/
def Frame.Identified [GnuRadio] {S : Type} (nId2 : ℤ) (frame : Frame S) : Prop :=
  ∀ tag ∈ getTagsInWindow frame.tags cellIdTagKey,
    ∃ cellId, IsIdentity nId2 cellId ∧ tag.value = .fromLong cellId

/-- A half-frame from `pss` has no tag that another block adds. -/
theorem Emission.getTagsInWindow_frame [GnuRadio] {S : Type} (e : Emission S) {tags : List Tag}
    (foreign : ∀ tag ∈ tags, tag.Foreign) {key : String} (hkey : key ∈ chainKeys)
    (hne : trackingLostTagKey ≠ key) : getTagsInWindow (e.frame tags).tags key = [] := by
  rw [Emission.frame, getTagsInWindow_append, getTagsInWindow_foreign foreign hkey,
    List.nil_append]
  cases e.tagged <;> simp [getTagsInWindow_eq_filter, hne]

namespace SssImpl

variable {S Sync : Type} {lib : SssLib S Sync} {s : SssImpl Sync} {nId2 : ℤ}

/-- A constructed block works for its `N_id_2`. -/
theorem make_nId2 (members : SyncMembers lib) (hmake : make lib nId2 = .ok s) :
    members.nId2 s.sync = nId2 := by
  unfold make at hmake
  split at hmake
  · cases hmake
  · split at hmake
    · cases hmake
    · rename_i hset
      split at hmake
      · cases hmake
      · rename_i hsss
        obtain rfl := Except.ok.inj hmake
        rw [members.sssSetNId2 _ _ _ hsss, members.syncSetNId2 _ _ _ hset]

/-- What `sss` works on after it has looked at the samples of a half-frame. -/
def lookAt (lib : SssLib S Sync) (sync : Sync) (samples : HalfFrame S) : Sync :=
  let (cp, sync) := lib.syncDetectCp sync samples slotLength
  let sync := lib.syncSetCp sync cp
  lib.sssM0m1Partial sync samples (sssIdx (lib.cpLen sync))

/-- A call for a half-frame that is not lost. -/
theorem work_of_kept [GnuRadio] {frame : Frame S}
    (hkept : getTagsInWindow frame.tags trackingLostTagKey = []) (stale : HalfFrame S) :
    work lib s frame stale =
      let sync := lookAt lib s.sync frame.samples
      if lib.sssNId1 sync = srslteError then
        ({ s with sync := sync }, { out := stale, added := [], ret := halfFrameLength })
      else
        let sync := lib.setNId1 sync (lib.sssNId1 sync)
        ({ s with sync := sync },
          { out := frame.samples
            added := [⟨cellIdTagKey, .fromLong (lib.syncGetCellId sync)⟩,
              ⟨cpTypeTagKey, .bool (lib.cp sync = .norm)⟩]
            ret := halfFrameLength }) := by
  rw [work, if_neg (not_not.mpr hkept)]
  rfl

/-- Looking at samples keeps `N_id_2`. -/
theorem lookAt_nId2 (members : SyncMembers lib) (sync : Sync) (samples : HalfFrame S) :
    members.nId2 (lookAt lib sync samples) = members.nId2 sync := by
  simp only [lookAt, members.sssM0m1Partial, members.syncSetCp, members.syncDetectCp]

/-- A call keeps `N_id_2`, and the identity that it adds, if any, is one with it. -/
theorem work_identified [GnuRadio] (members : SyncMembers lib) {frame : Frame S}
    (stale : HalfFrame S) (hnId2 : members.nId2 s.sync = nId2) (hrange : 0 ≤ nId2 ∧ nId2 < 3)
    (hnone : getTagsInWindow frame.tags cellIdTagKey = []) :
    members.nId2 (work lib s frame stale).1.sync = nId2 ∧
      (outputFrame frame (work lib s frame stale).2).Identified nId2 := by
  rw [Frame.Identified, outputFrame, getTagsInWindow_append, hnone, List.nil_append]
  by_cases hkept : getTagsInWindow frame.tags trackingLostTagKey = []
  · have hlook := (lookAt_nId2 members s.sync frame.samples).trans hnId2
    rw [work_of_kept hkept]
    dsimp only
    split
    · exact ⟨hlook, by simp⟩
    · rename_i hfound
      have hgroup := members.sssNId1 _ hfound
      obtain ⟨hset, hsame⟩ := members.setNId1 (lookAt lib s.sync frame.samples)
        (lib.sssNId1 (lookAt lib s.sync frame.samples))
      rw [hlook] at hsame
      refine ⟨hsame, ?_⟩
      -- the first of the two tags is the identity
      simp only [getTagsInWindow_cons, getTagsInWindow_nil, cellIdTagKey, cpTypeTagKey,
        ↓reduceIte, String.reduceEq, List.append_nil, List.mem_singleton, forall_eq]
      refine ⟨_, ?_, rfl⟩
      rw [members.syncGetCellId _ (by rw [hset]; exact hgroup.1) (by rw [hsame]; exact hrange.1),
        hset, hsame, IsIdentity]
      omega
  · rw [work, if_pos hkept]
    exact ⟨(members.syncReset _).trans hnId2, by simp⟩

end SssImpl

namespace MibImpl

variable [GnuRadio] {S Dec : Type} {lib : MibLib S Dec} {s s' : MibImpl S Dec} {c : MibCall S}
  {w : MibWork S} {nId2 : ℤ}

/-- An identity in a tag is read as it is. -/
theorem tagCellId_identity {tag : Tag} {cellId : ℤ} (hid : IsIdentity nId2 cellId)
    (htag : tag.value = .fromLong cellId) :
    ∃ n : ℕ, tagCellId tag = .ok n ∧ (n : ℤ) = cellId := by
  obtain ⟨hlow, hhigh, -⟩ := hid
  refine ⟨cellId.toNat, ?_, Int.toNat_of_nonneg hlow⟩
  rw [tagCellId, htag, toLong_fromLong, Except.map, uint32Width,
    Int.emod_eq_of_lt hlow (by omega)]

/-- A call for half-frames that carry identities only does not throw. -/
theorem exists_generalWork (lib : MibLib S Dec) (s : MibImpl S Dec)
    (hid : c.first.Identified nId2) : ∃ s' w, generalWork lib s c = .ok (s', w) := by
  rw [generalWork_eq]
  cases hkind : c.first.kind with
  | lost => exact ⟨_, _, rfl⟩
  | plain => exact ⟨_, _, rfl⟩
  | candidate cellIdTag cpTypeTag =>
    obtain ⟨cellId, hcellId, htag⟩ :=
      hid cellIdTag (by simp [(Frame.kind_eq_candidate hkind).2])
    obtain ⟨n, hn, -⟩ := tagCellId_identity hcellId htag
    dsimp only
    split
    · exact ⟨_, _, rfl⟩
    · rw [hn]
      exact ⟨_, _, rfl⟩

/-- A cell that a call publishes is packed. -/
theorem packed_of_track (h : generalWork lib s c = .ok (s', w)) {p : PmtT}
    (hp : ⟨.track, p⟩ ∈ w.msgs) : ∃ cell sfn, p.val = packCell cell sfn c.now := by
  rcases generalWork_cases h with
    ⟨-, -, rfl⟩ | ⟨-, -, -, rfl⟩ | ⟨cellId, cp, -, -, -, -, rfl⟩ | ⟨cellId, cp, -, -, -, -, rfl⟩
  · rw [dropCurrentCell_msgs, List.mem_map] at hp
    obtain ⟨_, -, hport⟩ := hp
    cases hport
  · cases hp
  · cases hp
  · obtain ⟨cell, sfn, hval, -⟩ := decode_payload lib _ c hp
    exact ⟨cell, sfn, hval⟩

/-- A cell that a call publishes has an identity of its half-frame. -/
theorem identity_of_track (hid : c.first.Identified nId2)
    (h : generalWork lib s c = .ok (s', w)) {p : PmtT} (hp : ⟨.track, p⟩ ∈ w.msgs) :
    ∃ cellId, IsIdentity nId2 cellId ∧ p.cellId = .ok cellId := by
  obtain ⟨tag, htag, n, hn, hpid⟩ := cellId_of_track h hp
  obtain ⟨cellId, hcellId, hvalue⟩ := hid tag htag
  obtain ⟨m, hm, rfl⟩ := tagCellId_identity hcellId hvalue
  obtain rfl : n = m := Except.ok.inj (hn.symm.trans hm)
  exact ⟨n, hcellId, hpid⟩

end MibImpl

/-- The only exception of `pss`. -/
def chestError : Exception := .runtimeError "Error computing channel estimation"

/-- A call of `pss` throws only when the channel estimation fails. -/
theorem PssImpl.generalWork_error {F S Det Tab : Type} [FloatOps F] {lib : PssLib F S Det Tab}
    {s : PssImpl F Det Tab} {c : Call S} {err : Exception}
    (h : generalWork lib s c = .error err) : err = chestError := by
  have hemit {s : PssImpl F Det Tab} (h : emitFrame lib s c = .error err) : err = chestError := by
    unfold emitFrame at h
    dsimp only at h
    split at h
    · split at h
      · exact (Except.error.inj h).symm
      · cases h
    · cases h
  simp only [generalWork] at h
  split at h
  · cases hframe : emitFrame lib (updateScore lib (findFrame lib s c)) c with
    | error err' =>
      rw [hframe] at h
      obtain rfl : err' = err := Except.error.inj h
      exact hemit hframe
    | ok r => simp [hframe, Except.map] at h
  · cases h

namespace Row

variable [GnuRadio] {F S Det Tab Sync Dec : Type} [FloatOps F]
  {lib : ChainLib F S Det Tab Sync Dec} {members : SyncMembers lib.sss}
  {r r' r₀ : Row F S Det Tab Sync Dec} {e : RowEvent F S} {o : RowWork S}
  {tr : List (Transition F S Det Tab Sync Dec)} {nId2 : ℤ}

/-- The half-frames of the row for `N_id_2`: no `cell_id` tags before `sss`, and identities
before `mib`. -/
structure Identified (members : SyncMembers lib.sss) (nId2 : ℤ)
    (r : Row F S Det Tab Sync Dec) : Prop where
  range : 0 ≤ nId2 ∧ nId2 < 3
  sync : members.nId2 r.sss.sync = nId2
  toSss : ∀ frame ∈ r.toSss, getTagsInWindow frame.tags cellIdTagKey = []
  toMib : ∀ frame ∈ r.toMib, frame.Identified nId2

/-- Every event keeps the identities of a row. -/
theorem Identified.step (h : Identified members nId2 r) (hstep : step lib r e = .ok (r', o)) :
    Identified members nId2 r' := by
  rcases step_cases hstep with
    ⟨event, tags, foreign, work, -, -, -, hr⟩ | ⟨stale, frame, toSss, -, hqueue, -, rfl⟩ |
    ⟨more, now, fresh, first, rest, w, -, hqueue, -, -, -, -, hr⟩
  · rw [hr]
    refine ⟨h.range, h.sync, fun frame hframe => ?_, h.toMib⟩
    rcases List.mem_append.mp hframe with hframe | hframe
    · exact h.toSss frame hframe
    · obtain ⟨emission, -, rfl⟩ := Option.map_eq_some_iff.mp (Option.mem_toList.mp hframe)
      exact emission.getTagsInWindow_frame foreign (by simp [chainKeys]) (by decide)
  · have htoSss := h.toSss
    rw [hqueue, List.forall_mem_cons] at htoSss
    obtain ⟨hsync, hgiven⟩ :=
      SssImpl.work_identified members stale h.sync h.range htoSss.1
    refine ⟨h.range, hsync, htoSss.2, fun given hin => ?_⟩
    rcases List.mem_append.mp hin with hin | hin
    · exact h.toMib given hin
    · rw [List.mem_singleton.mp hin]
      exact hgiven
  · rw [hr]
    exact ⟨h.range, h.sync, h.toSss, fun frame hframe =>
      h.toMib frame (List.mem_of_mem_drop hframe)⟩

/-- The identities of a row in a run. -/
theorem identified_run (h : Identified members nId2 r₀)
    (hrun : Machine.Run (Row.step lib) r₀ tr r) : Identified members nId2 r :=
  hrun.invariant h fun _ _ _ _ hr => hr.step

/-- A cell that such a row publishes has an identity of the row. -/
theorem Identified.track (h : Identified members nId2 r) {call : MibCall S} {w : MibWork S}
    (hstep : Row.step lib r e = .ok (r', .mib call w)) {p : PmtT} (hp : ⟨.track, p⟩ ∈ w.msgs) :
    ∃ cellId, IsIdentity nId2 cellId ∧ p.cellId = .ok cellId := by
  rcases step_cases hstep with
    ⟨_, _, _, _, -, -, ho, -⟩ | ⟨_, _, _, -, -, ho, -⟩ |
    ⟨more, now, fresh, first, rest, w', -, hqueue, -, -, hmib, ho, -⟩
  · cases ho
  · cases ho
  · obtain ⟨rfl, rfl⟩ := RowWork.mib.inj ho
    refine MibImpl.identity_of_track (h.toMib first ?_) hmib hp
    rw [hqueue]
    exact List.mem_cons_self

/-- The only event of such a row that throws is a call of `pss`. -/
theorem Identified.thrown (h : Identified members nId2 r) {err : Exception}
    (hstep : Row.step lib r e = .error (.thrown err)) :
    ∃ call tags foreign, e = .pss (.work call) tags foreign ∧ err = chestError := by
  cases e with
  | pss event tags foreign =>
    simp only [Row.step] at hstep
    split at hstep
    · rename_i err' hpss
      obtain rfl : err' = err := TriggerError.thrown.inj (Except.error.inj hstep)
      cases event with
      | work call =>
        simp only [PssImpl.step] at hpss
        cases hwork : PssImpl.generalWork lib.pss r.pss call with
        | error err'' =>
          rw [hwork] at hpss
          obtain rfl : err'' = err' := Except.error.inj hpss
          exact ⟨call, tags, foreign, rfl, PssImpl.generalWork_error hwork⟩
        | ok r => simp [hwork, Except.map] at hpss
      | setPsrThreshold threshold => cases hpss
    · cases hstep
  | sss stale =>
    simp only [Row.step] at hstep
    split at hstep <;> cases hstep
  | mib more now fresh =>
    simp only [Row.step] at hstep
    split at hstep
    · cases hstep
    · rename_i first rest hqueue
      split at hstep
      · cases hstep
      · obtain ⟨mib, w, hmib⟩ := MibImpl.exists_generalWork lib.mib r.mib
          (c := ⟨first, rest.take more, now, fresh⟩)
          (h.toMib first (by simp [hqueue]))
        rw [hmib] at hstep
        cases hstep

end Row

namespace DownlinkTrigger

variable [GnuRadio] {D F S Det Tab Sync Dec : Type} [FloatOps D] [FloatOps F]
  {lib : TriggerLib D F S Det Tab Sync Dec} {psrThreshold : D} {exitOnSuccess : Bool}
  {memory : Fin 3 → MibMemory Dec} {s s₀ : DownlinkTrigger D F S Det Tab Sync Dec}
  {tr : List (Transition D F S Det Tab Sync Dec)}

/-- Each row works for its own `N_id_2`. -/
theorem identified_run (members : SyncMembers lib.sss)
    (hmake : make lib psrThreshold exitOnSuccess memory = .ok s₀)
    (hrun : Machine.Run (step lib) s₀ tr s) (i : Fin 3) :
    (s.rows i).Identified members (i : ℕ) := by
  obtain ⟨-, -, hrows⟩ := make_rows hmake
  obtain ⟨pss, sss, mib, calls, hrow, -, hsss, -⟩ := hrows i
  refine Row.identified_run ?_ (row_run hrun i)
  rw [hrow]
  exact ⟨by omega, SssImpl.make_nId2 members hsss, by simp [Row.ofBlocks], by simp [Row.ofBlocks]⟩

/-- In the state that a run has reached nothing can throw but a call of `pss`, whose channel
estimation fails. -/
theorem thrown_of_run (members : SyncMembers lib.sss)
    (hmake : make lib psrThreshold exitOnSuccess memory = .ok s₀)
    (hrun : Machine.Run (step lib) s₀ tr s) {e : TriggerEvent D S} {err : Exception}
    (hthrown : step lib s e = .error (.thrown err)) :
    ∃ i call tags foreign, e = .pss i call tags foreign ∧ err = chestError := by
  have hrow {i : Fin 3} {event : RowEvent F S} {u : DownlinkTrigger D F S Det Tab Sync Dec}
      (h : stepRow lib u i event = .error (.thrown err)) (hrows : u.rows = s.rows) :
      ∃ call tags foreign, event = .pss (.work call) tags foreign ∧ err = chestError := by
    rw [stepRow, hrows] at h
    cases hstep : Row.step lib.toChainLib (s.rows i) event with
    | error err' =>
      rw [hstep] at h
      obtain rfl : err' = .thrown err := Except.error.inj h
      exact (identified_run members hmake hrun i).thrown hstep
    | ok r => simp [hstep, Except.map] at h
  cases e with
  | pss i call tags foreign =>
    obtain ⟨_, _, _, -, herr⟩ := hrow hthrown rfl
    exact ⟨i, call, tags, foreign, rfl, herr⟩
  | sss i stale =>
    obtain ⟨_, _, _, hevent, -⟩ := hrow hthrown rfl
    cases hevent
  | mib i more now fresh =>
    obtain ⟨_, _, _, hevent, -⟩ := hrow hthrown rfl
    cases hevent
  | setPsrThreshold t =>
    simp only [step] at hthrown
    split at hthrown <;> cases hthrown
  | setNext =>
    simp only [step] at hthrown
    split at hthrown
    · cases hthrown
    · obtain ⟨_, _, _, hevent, -⟩ := hrow hthrown rfl
      cases hevent

end DownlinkTrigger

end LteTrigger
