import LteTrigger.GnuRadio

/-!
# The `sss` block

The state of `sss_impl`, its constructor and `work`, from `lib/sss_impl.{h,cc}`.

The srsLTE calls are the fields of `SssLib`. They act on a `srslte_sync_t` of type `Sync`.
`work` writes one half-frame of output for one half-frame of input, except that after an
`N_id_1` error it leaves the output buffer as it was. The tags of the input half-frame are
copied to the output half-frame by the scheduler (`TPP_ALL_TO_ALL`).

## Main definitions

* `SssImpl`: the members of the block;
* `SssImpl.work`: one call of the scheduler;
* `SssImpl.outputFrame`: the half-frame that a call puts on the output stream.
-/

namespace LteTrigger

/-- `max_offset`. -/
def maxOffset : ℕ := 100

/-- `SRSLTE_ERROR`. -/
def srslteError : ℤ := -1

/-- The srsLTE functions the block calls, and the members of `srslte_sync_t` it reads. A
result `none` is a nonzero status. -/
structure SssLib (S Sync : Type) where
  /-- `srslte_sync_init`. -/
  syncInit : ℕ → ℕ → ℕ → Option Sync
  /-- `srslte_sync_set_N_id_2`. -/
  syncSetNId2 : Sync → ℤ → Option Sync
  /-- `srslte_sss_set_N_id_2` of the member `sss`. -/
  sssSetNId2 : Sync → ℤ → Option Sync
  /-- `srslte_sync_reset`. -/
  syncReset : Sync → Sync
  /-- `srslte_sync_detect_cp`, which looks at the samples before a position. -/
  syncDetectCp : Sync → HalfFrame S → ℕ → Cp × Sync
  /-- `srslte_sync_set_cp`. -/
  syncSetCp : Sync → Cp → Sync
  /-- The member `cp_len`. -/
  cpLen : Sync → ℕ
  /-- `srslte_sss_m0m1_partial` of the samples from a position on, into the members `m0`,
  `m0_value`, `m1` and `m1_value`. -/
  sssM0m1Partial : Sync → HalfFrame S → ℕ → Sync
  /-- `srslte_sss_N_id_1` of the members `m0` and `m1`. -/
  sssNId1 : Sync → ℤ
  /-- An assignment to the member `N_id_1`. -/
  setNId1 : Sync → ℤ → Sync
  /-- `srslte_sync_get_cell_id`. -/
  syncGetCellId : Sync → ℤ
  /-- The member `cp`. -/
  cp : Sync → Cp

/-- The members of `sss_impl`. -/
structure SssImpl (Sync : Type) where
  /-- `d_sync`. -/
  sync : Sync
  /-- `d_N_id_2`. -/
  nId2 : ℤ
  /-- `d_subframe_idx`. -/
  subframeIdx : ℤ

/-- What one `work` call leaves behind on its output stream. -/
structure SssWork (S : Type) where
  /-- The half-frame in the output buffer. -/
  out : HalfFrame S
  /-- The tags added to its first sample. -/
  added : List Tag
  /-- The return value, which is also what the call consumes. -/
  ret : ℕ

namespace SssImpl

variable [GnuRadio] {S Sync : Type}

/-- The constructor `sss_impl::sss_impl`. -/
def make (lib : SssLib S Sync) (nId2 : ℤ) : Except Exception (SssImpl Sync) :=
  match lib.syncInit halfFrameLength maxOffset symbolSz with
  | none => .error (.runtimeError "Error initializing SSS SYNC")
  | some sync =>
    match lib.syncSetNId2 sync nId2 with
    | none => .error (.runtimeError "Error initializing SSS SYNC N_id_2")
    | some sync =>
      match lib.sssSetNId2 sync nId2 with
      | none => .error (.runtimeError "Error initializing SSS N_id_2")
      | some sync => .ok { sync, nId2, subframeIdx := -1 }

/-- The position of the secondary synchronisation symbol, in `unsigned int` arithmetic. -/
def sssIdx (cpLen : ℕ) : ℕ := (slotLength - 2 * symbolSz + (2 ^ 32 - cpLen % 2 ^ 32)) % 2 ^ 32

/-- `work` on a half-frame, where the output buffer holds `stale` before the call. -/
def work (lib : SssLib S Sync) (s : SssImpl Sync) (frame : Frame S) (stale : HalfFrame S) :
    SssImpl Sync × SssWork S :=
  if getTagsInWindow frame.tags trackingLostTagKey ≠ [] then
    -- pass the half-frame on, whose tag the scheduler passes on too
    ({ s with sync := lib.syncReset s.sync, subframeIdx := -1 },
      { out := frame.samples, added := [], ret := halfFrameLength })
  else
    let (cp, sync) := lib.syncDetectCp s.sync frame.samples slotLength
    let sync := lib.syncSetCp sync cp
    let sync := lib.sssM0m1Partial sync frame.samples (sssIdx (lib.cpLen sync))
    let retval := lib.sssNId1 sync
    if retval = srslteError then
      -- mib block ignores input with no tag
      ({ s with sync := sync }, { out := stale, added := [], ret := halfFrameLength })
    else
      let sync := lib.setNId1 sync retval
      -- both tags go to the first sample of the half-frame
      let cellId := lib.syncGetCellId sync
      let cpTypeTagValue := Pmt.bool (lib.cp sync = .norm)
      ({ s with sync := sync },
        { out := frame.samples
          added := [⟨cellIdTagKey, .fromLong cellId⟩, ⟨cpTypeTagKey, cpTypeTagValue⟩]
          ret := halfFrameLength })

/-- The half-frame on the output stream: what the output buffer holds, with the tags of the
input half-frame and the added ones. -/
def outputFrame (frame : Frame S) (w : SssWork S) : Frame S where
  samples := w.out
  tags := frame.tags ++ w.added

/-- The three ways out of `work`: a half-frame is passed on because tracking was lost, left
unwritten because of an `N_id_1` error, or passed on with tags. -/
theorem work_cases (lib : SssLib S Sync) (s : SssImpl Sync) (frame : Frame S)
    (stale : HalfFrame S) :
    (getTagsInWindow frame.tags trackingLostTagKey ≠ [] ∧
      (work lib s frame stale).2.out = frame.samples ∧ (work lib s frame stale).2.added = []) ∨
    (getTagsInWindow frame.tags trackingLostTagKey = [] ∧
      (work lib s frame stale).2.out = stale ∧ (work lib s frame stale).2.added = []) ∨
    (getTagsInWindow frame.tags trackingLostTagKey = [] ∧
      (work lib s frame stale).2.out = frame.samples ∧
      ∃ cellId cpNorm, (work lib s frame stale).2.added =
        [⟨cellIdTagKey, .fromLong cellId⟩, ⟨cpTypeTagKey, .bool cpNorm⟩]) := by
  unfold work
  split
  · rename_i hlost
    exact .inl ⟨hlost, rfl, rfl⟩
  · rename_i hkept
    rw [ne_eq, not_not] at hkept
    dsimp only
    split
    · exact .inr (.inl ⟨hkept, rfl, rfl⟩)
    · exact .inr (.inr ⟨hkept, rfl, _, _, rfl⟩)

end SssImpl

/-- An srsLTE that finds the same cell with normal cyclic prefix in every half-frame. -/
def SssLib.playback (S : Type) (cellId : ℤ) : SssLib S Unit where
  syncInit _ _ _ := some ()
  syncSetNId2 _ nId2 := if 0 ≤ nId2 ∧ nId2 < 3 then some () else none
  sssSetNId2 _ nId2 := if 0 ≤ nId2 ∧ nId2 < 3 then some () else none
  syncReset sync := sync
  syncDetectCp sync _ _ := (.norm, sync)
  syncSetCp sync _ := sync
  cpLen _ := 9
  sssM0m1Partial sync _ _ := sync
  sssNId1 _ := cellId / 3
  setNId1 sync _ := sync
  syncGetCellId _ := cellId
  cp _ := .norm

end LteTrigger
