import LteTrigger.Machine.Run
import LteTrigger.Mib.Basic

/-!
# What one call of the `mib` block does

The tags of the first half-frame decide which branch a call takes. `Frame.kind` reads them,
and `generalWork_cases` lists the branches: drop, skip, a failed re-initialisation, and a
decoding attempt with or without a re-initialisation before it. The later modules use these
cases and the lemmas about `reinit` and `decode`, and do not unfold the block again.
-/

namespace LteTrigger

/-- What the tags of a half-frame mean to the block. -/
inductive FrameKind
  /-- There is a `tracking_lost` tag. -/
  | lost
  /-- There is no `tracking_lost` tag and one tag each for the cell identity and the CP. -/
  | candidate (cellIdTag cpTypeTag : Tag)
  /-- Anything else. -/
  | plain
  deriving DecidableEq

section Kind

variable [GnuRadio]

/-- The kind of a half-frame, in the order in which the block looks for tags. -/
def Frame.kind {S : Type} (frame : Frame S) : FrameKind :=
  if getTagsInWindow frame.tags trackingLostTagKey ≠ [] then .lost
  else
    match getTagsInWindow frame.tags cellIdTagKey, getTagsInWindow frame.tags cpTypeTagKey with
    | [cellIdTag], [cpTypeTag] => .candidate cellIdTag cpTypeTag
    | _, _ => .plain

/-- The `tracking_lost` tag decides whether a half-frame is lost. -/
theorem Frame.kind_eq_lost_iff {S : Type} {frame : Frame S} :
    frame.kind = .lost ↔ getTagsInWindow frame.tags trackingLostTagKey ≠ [] := by
  unfold Frame.kind
  split
  · rename_i h
    exact iff_of_true rfl h
  · -- without that tag the half-frame is for a cell or plain
    rename_i h
    refine iff_of_false ?_ h
    split <;> simp

/-- A half-frame for a cell has a `cell_id` tag and no `tracking_lost` tag. -/
theorem Frame.kind_eq_candidate {S : Type} {frame : Frame S} {cellIdTag cpTypeTag : Tag}
    (h : frame.kind = .candidate cellIdTag cpTypeTag) :
    getTagsInWindow frame.tags trackingLostTagKey = [] ∧
      getTagsInWindow frame.tags cellIdTagKey = [cellIdTag] := by
  unfold Frame.kind at h
  split at h
  · cases h
  · rename_i hkept
    split at h
    · rename_i hid _
      cases h
      exact ⟨by simpa using hkept, hid⟩
    · cases h

end Kind

namespace MibImpl

variable {S Dec : Type} {lib : MibLib S Dec} {s s' : MibImpl S Dec} {c : MibCall S}
  {w : MibWork S}

/-- The samples go to the buffer only. -/
@[simp]
theorem receive_cellPublished : (s.receive c).cellPublished = s.cellPublished := by
  rw [receive]

@[simp]
theorem receive_currentTrackingCell :
    (s.receive c).currentTrackingCell = s.currentTrackingCell := by
  rw [receive]

@[simp]
theorem receive_cell : (s.receive c).cell = s.cell := by
  rw [receive]

@[simp]
theorem receive_mib : (s.receive c).mib = s.mib := by
  rw [receive]

@[simp]
theorem receive_exitOnSuccess : (s.receive c).exitOnSuccess = s.exitOnSuccess := by
  rw [receive]

@[simp]
theorem receive_sfBuffer_data : (s.receive c).sfBuffer.data = c.v :=
  SampleBuffer.assign_data _ _

/-- Whether the re-initialisation that a call makes, if it makes one, succeeds. -/
def InitSucceeds (lib : MibLib S Dec) (s : MibImpl S Dec) : Prop :=
  (lib.ueMibInit (lib.ueMibReset s.mib) s.cell.nofPrb).1 = 0

instance : Decidable (InitSucceeds lib s) := inferInstanceAs (Decidable (_ = _))

@[simp]
theorem initSucceeds_receive : InitSucceeds lib (s.receive c) ↔ InitSucceeds lib s := by
  rw [InitSucceeds, InitSucceeds, receive_mib, receive_cell]

/-- What a re-initialisation leaves alone. -/
theorem reinit_frame (lib : MibLib S Dec) (s : MibImpl S Dec) (cellId : ℕ) (cp : Cp) :
    (reinit lib s cellId cp).1 =
      { s with
        mib := (reinit lib s cellId cp).1.mib
        cell := { s.cell with id := cellId, cp := cp } } := by
  unfold reinit
  dsimp only
  split <;> rfl

/-- The log of a re-initialisation for `cell`. -/
def reinitCalls (addr nofPrb : ℕ) (cell : SrslteCell) (ok : Bool) : List (LibCall S) :=
  [.ueMibReset, .ueMibInit addr nofPrb ok] ++ if ok then [.ueMibSetCell cell] else []

theorem reinit_calls (lib : MibLib S Dec) (s : MibImpl S Dec) (cellId : ℕ) (cp : Cp) :
    (reinit lib s cellId cp).2.1 = reinitCalls s.sfBuffer.addr s.cell.nofPrb
      { s.cell with id := cellId, cp := cp } (reinit lib s cellId cp).2.2 ∧
    (reinit lib s cellId cp).2.2 =
      decide (InitSucceeds lib s) := by
  unfold reinit reinitCalls InitSucceeds
  dsimp only
  split <;> simp_all

/-- The state, the log and the outcome of the part before the decoding attempt: nothing is
done for the cached cell. -/
def configure (lib : MibLib S Dec) (s : MibImpl S Dec) (cellId : ℕ) (cp : Cp) :
    MibImpl S Dec × List (LibCall S) × Bool :=
  if cellId ≠ s.cell.id ∨ cp ≠ s.cell.cp then reinit lib s cellId cp else (s, [], true)

/-- The log and the outcome of a configuration: none for the cached cell, and those of a
re-initialisation for any other. -/
theorem configure_cases (lib : MibLib S Dec) (s : MibImpl S Dec) (cellId : ℕ) (cp : Cp) :
    (cellId = s.cell.id ∧ cp = s.cell.cp ∧ (configure lib s cellId cp).2 = ([], true)) ∨
    ((cellId ≠ s.cell.id ∨ cp ≠ s.cell.cp) ∧
      (configure lib s cellId cp).2.1 = reinitCalls s.sfBuffer.addr s.cell.nofPrb
        { s.cell with id := cellId, cp := cp } (configure lib s cellId cp).2.2 ∧
      ((configure lib s cellId cp).2.2 = true ↔ InitSucceeds lib s)) := by
  by_cases hchanged : cellId ≠ s.cell.id ∨ cp ≠ s.cell.cp
  · right
    rw [configure, if_pos hchanged]
    obtain ⟨hcalls, hstatus⟩ := reinit_calls lib s cellId cp
    exact ⟨hchanged, hcalls, by rw [hstatus, decide_eq_true_iff]⟩
  · left
    rw [configure, if_neg hchanged]
    simp only [ne_eq, not_or, not_not] at hchanged
    exact ⟨hchanged.1, hchanged.2, rfl⟩

/-- A configuration changes the decoder and the cell's identity and CP only. -/
theorem configure_frame (lib : MibLib S Dec) (s : MibImpl S Dec) (cellId : ℕ) (cp : Cp) :
    (configure lib s cellId cp).1 =
      { s with
        mib := (configure lib s cellId cp).1.mib
        cell := { s.cell with id := cellId, cp := cp } } := by
  unfold configure
  split
  · exact reinit_frame lib s cellId cp
  · -- the cached cell has this identity and CP already
    rename_i hcached
    simp only [ne_eq, not_or, not_not] at hcached
    obtain ⟨rfl, rfl⟩ := hcached
    rfl

@[simp]
theorem configure_cellPublished (lib : MibLib S Dec) (s : MibImpl S Dec) (cellId : ℕ) (cp : Cp) :
    (configure lib s cellId cp).1.cellPublished = s.cellPublished := by
  rw [configure_frame]

@[simp]
theorem configure_currentTrackingCell (lib : MibLib S Dec) (s : MibImpl S Dec) (cellId : ℕ)
    (cp : Cp) : (configure lib s cellId cp).1.currentTrackingCell = s.currentTrackingCell := by
  rw [configure_frame]

@[simp]
theorem configure_sfBuffer (lib : MibLib S Dec) (s : MibImpl S Dec) (cellId : ℕ) (cp : Cp) :
    (configure lib s cellId cp).1.sfBuffer = s.sfBuffer := by
  rw [configure_frame]

@[simp]
theorem configure_exitOnSuccess (lib : MibLib S Dec) (s : MibImpl S Dec) (cellId : ℕ) (cp : Cp) :
    (configure lib s cellId cp).1.exitOnSuccess = s.exitOnSuccess := by
  rw [configure_frame]

@[simp]
theorem configure_cell (lib : MibLib S Dec) (s : MibImpl S Dec) (cellId : ℕ) (cp : Cp) :
    (configure lib s cellId cp).1.cell = { s.cell with id := cellId, cp := cp } := by
  rw [configure_frame]

variable [GnuRadio]

/-- The cell identity and CP that a call checks against the cached ones, if it gets that
far. -/
def searched (s : MibImpl S Dec) (c : MibCall S) : Option (ℕ × Cp) :=
  match c.first.kind with
  | .candidate cellIdTag cpTypeTag =>
    if s.cellPublished then none
    else (tagCellId cellIdTag).toOption.map fun cellId => (cellId, tagCp cpTypeTag)
  | _ => none

/-- Only a half-frame for a cell gets a call as far as the cache. -/
theorem kind_of_searched {cell : ℕ × Cp} (h : searched s c = some cell) :
    ∃ cellIdTag cpTypeTag, c.first.kind = .candidate cellIdTag cpTypeTag := by
  rw [searched] at h
  split at h
  · exact ⟨_, _, ‹_›⟩
  · cases h

/-- The call asks for a cell other than the one `d_cell` names. -/
def Reinits (s : MibImpl S Dec) (c : MibCall S) : Prop :=
  ∃ cellId cp, searched s c = some (cellId, cp) ∧ (cellId ≠ s.cell.id ∨ cp ≠ s.cell.cp)

theorem not_reinits_of_not_searched (h : searched s c = none) : ¬ Reinits s c := by
  rintro ⟨cellId, cp, hsearched, -⟩
  rw [h] at hsearched
  cases hsearched

theorem reinits_iff_of_searched {cellId : ℕ} {cp : Cp} (h : searched s c = some (cellId, cp)) :
    Reinits s c ↔ cellId ≠ s.cell.id ∨ cp ≠ s.cell.cp := by
  refine ⟨?_, fun hchanged => ⟨cellId, cp, h, hchanged⟩⟩
  rintro ⟨cellId', cp', hsearched, hchanged⟩
  rw [h] at hsearched
  cases hsearched
  exact hchanged

/-- The branches of a call by the kind of its first half-frame. -/
theorem generalWork_eq : generalWork lib s c =
    match c.first.kind with
    | .lost => .ok (dropCurrentCell lib (s.receive c))
    | .plain => .ok (s.receive c).skip
    | .candidate cellIdTag cpTypeTag =>
      if s.cellPublished then .ok (s.receive c).skip
      else (tagCellId cellIdTag).map fun cellId =>
        searchCell lib (s.receive c) c cellId (tagCp cpTypeTag) := by
  by_cases hlost : getTagsInWindow c.first.tags trackingLostTagKey = []
  · -- without that tag the order of the two remaining checks does not matter
    rcases hid : getTagsInWindow c.first.tags cellIdTagKey with _ | ⟨cellIdTag, _ | ⟨_, _⟩⟩ <;>
      rcases hcp : getTagsInWindow c.first.tags cpTypeTagKey with _ | ⟨cpTypeTag, _ | ⟨_, _⟩⟩ <;>
      simp [generalWork, Frame.kind, hlost, hid, hcp]
  · simp [generalWork, Frame.kind, hlost]

/-- A search configures the decoder and, if that succeeded, attempts to decode. -/
theorem searchCell_eq (lib : MibLib S Dec) (s : MibImpl S Dec) (c : MibCall S) (cellId : ℕ)
    (cp : Cp) : searchCell lib s c cellId cp =
      if (configure lib s cellId cp).2.2 then
        ((decode lib (configure lib s cellId cp).1 c).1,
          { (decode lib (configure lib s cellId cp).1 c).2 with
            calls := (configure lib s cellId cp).2.1 ++
              (decode lib (configure lib s cellId cp).1 c).2.calls })
      else ((configure lib s cellId cp).1,
        { msgs := [], calls := (configure lib s cellId cp).2.1, nconsume := halfFrameLength,
          ret := 0 }) := by
  unfold searchCell configure
  split
  · -- by the outcome of the re-initialisation
    rcases reinit lib s cellId cp with ⟨s', calls, _ | _⟩ <;> rfl
  · simp

/-- All that a call that returns can do: drop the current cell, skip the half-frame, fail to
initialise the decoder, or attempt to decode. -/
theorem generalWork_cases (h : generalWork lib s c = .ok (s', w)) :
    (c.first.kind = .lost ∧ s' = (dropCurrentCell lib (s.receive c)).1 ∧
      w = (dropCurrentCell lib (s.receive c)).2) ∨
    (c.first.kind ≠ .lost ∧ searched s c = none ∧ s' = s.receive c ∧
      w = (s.receive c).skip.2) ∨
    (∃ cellId cp, s.cellPublished = false ∧ searched s c = some (cellId, cp) ∧
      (configure lib (s.receive c) cellId cp).2.2 = false ∧
      s' = (configure lib (s.receive c) cellId cp).1 ∧
      w = { msgs := [], calls := (configure lib (s.receive c) cellId cp).2.1,
            nconsume := halfFrameLength, ret := 0 }) ∨
    (∃ cellId cp, s.cellPublished = false ∧ searched s c = some (cellId, cp) ∧
      (configure lib (s.receive c) cellId cp).2.2 = true ∧
      s' = (decode lib (configure lib (s.receive c) cellId cp).1 c).1 ∧
      w = { (decode lib (configure lib (s.receive c) cellId cp).1 c).2 with
        calls := (configure lib (s.receive c) cellId cp).2.1 ++
          (decode lib (configure lib (s.receive c) cellId cp).1 c).2.calls }) := by
  rw [generalWork_eq] at h
  cases hkind : c.first.kind with
  | lost =>
    left
    simp only [hkind, Except.ok.injEq] at h
    exact ⟨rfl, by rw [h], by rw [h]⟩
  | plain =>
    right; left
    simp only [hkind, Except.ok.injEq] at h
    obtain ⟨rfl, rfl⟩ := Prod.mk.inj h
    exact ⟨by simp, by simp [searched, hkind], rfl, rfl⟩
  | candidate cellIdTag cpTypeTag =>
    right
    simp only [hkind] at h
    cases hpublished : s.cellPublished with
    | true =>
      left
      simp only [hpublished, ↓reduceIte, Except.ok.injEq] at h
      obtain ⟨rfl, rfl⟩ := Prod.mk.inj h
      exact ⟨by simp, by simp [searched, hkind, hpublished], rfl, rfl⟩
    | false =>
      right
      simp only [hpublished, Bool.false_eq_true, ↓reduceIte] at h
      cases hid : tagCellId cellIdTag with
      | error err =>
        -- `to_long` threw
        simp [hid, Except.map] at h
      | ok cellId =>
        have hsearched : searched s c = some (cellId, tagCp cpTypeTag) := by
          simp [searched, hkind, hpublished, hid, Except.toOption]
        simp only [hid, Except.map, Except.ok.injEq] at h
        rw [searchCell_eq] at h
        split at h
        · rename_i hok
          obtain ⟨rfl, rfl⟩ := Prod.mk.inj h
          exact .inr ⟨cellId, _, rfl, hsearched, hok, rfl, rfl⟩
        · rename_i hfail
          obtain ⟨rfl, rfl⟩ := Prod.mk.inj h
          exact .inl ⟨cellId, _, rfl, hsearched, by simpa using hfail, rfl, rfl⟩

/-- A packed cell is a dictionary with entries. -/
theorem packCell_ne_nil (cell : SrslteCell) (sfn now : ℤ) : packCell cell sfn now ≠ .nil := by
  unfold packCell
  exact dictAdd_ne_nil _ _ _

/-- The message of a successful decoding attempt. -/
theorem decode_msgs (lib : MibLib S Dec) (s : MibImpl S Dec) (c : MibCall S) :
    ((decode lib s c).2.msgs = [] ∧ (decode lib s c).1.cellPublished = s.cellPublished ∧
      (decode lib s c).1.currentTrackingCell = s.currentTrackingCell) ∨
    ∃ p : PmtT, (decode lib s c).2.msgs = [⟨.track, p⟩] ∧ p.ref = c.fresh ∧ p.val ≠ .nil ∧
      (decode lib s c).1.cellPublished = true ∧
      (decode lib s c).1.currentTrackingCell = p := by
  unfold decode
  dsimp only
  split
  · right
    split <;> exact ⟨_, rfl, rfl, packCell_ne_nil _ _ _, rfl, rfl⟩
  · exact .inl ⟨rfl, rfl, rfl⟩

/-- The log of a decoding attempt, in which `srslte_ue_mib_decode` leaves `nofPorts` and
`srslte_pbch_mib_unpack`, if it is called, writes the number of resource blocks. -/
def decodeCalls (addr : ℕ) (samples : List (HalfFrame S)) (nofPorts : ℕ)
    (unpacked : Option ℕ) : List (LibCall S) :=
  [.pbchDecodeReset, .ueMibDecode addr samples nofPorts] ++
    (unpacked.map LibCall.pbchMibUnpack).toList

/-- A decoding attempt overwrites the ports and, if it succeeds, the resource blocks of the
cell. -/
theorem decode_calls (lib : MibLib S Dec) (s : MibImpl S Dec) (c : MibCall S) :
    ∃ unpacked, (decode lib s c).2.calls = decodeCalls s.sfBuffer.addr s.sfBuffer.data
        (decode lib s c).1.cell.nofPorts unpacked ∧
      (decode lib s c).1.cell.id = s.cell.id ∧ (decode lib s c).1.cell.cp = s.cell.cp ∧
      (decode lib s c).1.cell.nofPrb = unpacked.getD s.cell.nofPrb := by
  unfold decode
  dsimp only
  split
  · split <;> exact ⟨some _, rfl, rfl, rfl, rfl⟩
  · exact ⟨none, rfl, rfl, rfl, rfl⟩

/-- A decoding attempt calls `srslte_ue_mib_decode`. -/
theorem ueMibDecode_mem_calls (lib : MibLib S Dec) (s : MibImpl S Dec) (c : MibCall S) :
    ∃ addr samples nofPorts, .ueMibDecode addr samples nofPorts ∈ (decode lib s c).2.calls := by
  obtain ⟨unpacked, hcalls, -⟩ := decode_calls lib s c
  rw [hcalls]
  exact ⟨_, _, _, List.mem_cons_of_mem _ List.mem_cons_self⟩

/-- A decoding attempt leaves the buffer alone. -/
theorem decode_sfBuffer (lib : MibLib S Dec) (s : MibImpl S Dec) (c : MibCall S) :
    (decode lib s c).1.sfBuffer = s.sfBuffer := by
  unfold decode
  dsimp only
  split
  · split <;> rfl
  · rfl

/-- Whatever a call does, it has assigned its samples to the buffer. -/
theorem generalWork_sfBuffer (h : generalWork lib s c = .ok (s', w)) :
    s'.sfBuffer = s.sfBuffer.assign c.v := by
  rcases generalWork_cases h with
    ⟨-, rfl, -⟩ | ⟨-, -, rfl, -⟩ | ⟨cellId, cp, -, -, -, rfl, -⟩ | ⟨cellId, cp, -, -, -, rfl, -⟩
  · rfl
  · rfl
  · rw [configure_sfBuffer, receive]
  · rw [decode_sfBuffer, configure_sfBuffer, receive]

/-- The log of a call, with what it leaves in the cell. A call that does not search makes no
call but a reset. One that searches re-initialises the decoder unless the cell is cached, and
then attempts to decode unless that failed. -/
theorem generalWork_calls (h : generalWork lib s c = .ok (s', w)) :
    (searched s c = none ∧ s'.cell = s.cell ∧ ∀ e ∈ w.calls, e = .ueMibReset) ∨
    (∃ cellId cp, searched s c = some (cellId, cp) ∧ s'.cell.id = cellId ∧ s'.cell.cp = cp ∧
      (((cellId ≠ s.cell.id ∨ cp ≠ s.cell.cp) ∧
          ¬ InitSucceeds lib s ∧
          w.calls = reinitCalls s'.sfBuffer.addr s.cell.nofPrb
            { s.cell with id := cellId, cp := cp } false ∧
          s'.cell.nofPrb = s.cell.nofPrb ∧ s'.cell.nofPorts = s.cell.nofPorts) ∨
        ∃ reinits unpacked, w.calls = reinits ++
            decodeCalls s'.sfBuffer.addr c.v s'.cell.nofPorts unpacked ∧
          s'.cell.nofPrb = unpacked.getD s.cell.nofPrb ∧
          ((cellId = s.cell.id ∧ cp = s.cell.cp ∧ reinits = []) ∨
            ((cellId ≠ s.cell.id ∨ cp ≠ s.cell.cp) ∧
              InitSucceeds lib s ∧
              reinits = reinitCalls s'.sfBuffer.addr s.cell.nofPrb
                { s.cell with id := cellId, cp := cp } true)))) := by
  have hbuffer : s'.sfBuffer = (s.receive c).sfBuffer := generalWork_sfBuffer h
  rw [hbuffer]
  rcases generalWork_cases h with
    ⟨hlost, rfl, rfl⟩ | ⟨-, hsearched, rfl, rfl⟩ | ⟨cellId, cp, -, hsearched, hok, rfl, rfl⟩ |
    ⟨cellId, cp, -, hsearched, hok, rfl, rfl⟩
  · -- a lost cell: one reset
    left
    refine ⟨by simp [searched, hlost], ?_, by simp [dropCurrentCell]⟩
    rw [dropCurrentCell, receive_cell]
  · exact .inl ⟨hsearched, receive_cell, by simp [skip]⟩
  · -- only a re-initialisation can fail, so there was one
    right
    refine ⟨cellId, cp, hsearched, by simp, by simp, .inl ?_⟩
    rcases configure_cases lib (s.receive c) cellId cp with
      ⟨-, -, hcached⟩ | ⟨hchanged, hcalls, hstatus⟩
    · simp [hcached] at hok
    · rw [receive_cell] at hchanged hcalls
      rw [hok] at hcalls
      exact ⟨hchanged, by simpa [hok] using hstatus, hcalls, by simp, by simp⟩
  · -- a decoding attempt, after a re-initialisation that succeeded or for the cached cell
    right
    obtain ⟨unpacked, hdecode, hid, hcp, hprb⟩ :=
      decode_calls lib (configure lib (s.receive c) cellId cp).1 c
    rw [configure_cell, receive_cell] at hid hcp hprb
    rw [configure_sfBuffer, receive_sfBuffer_data] at hdecode
    refine ⟨cellId, cp, hsearched, hid, hcp, .inr
      ⟨_, unpacked, congrArg _ hdecode, hprb, ?_⟩⟩
    rcases configure_cases lib (s.receive c) cellId cp with
      ⟨hid, hcp, hcached⟩ | ⟨hchanged, hcalls, hstatus⟩
    · rw [receive_cell] at hid hcp
      exact .inl ⟨hid, hcp, by rw [hcached]⟩
    · rw [receive_cell] at hchanged hcalls
      rw [hok] at hcalls
      exact .inr ⟨hchanged, by simpa [hok] using hstatus, hcalls⟩

/-- What a decoding attempt consumes when the block does not exit on success. -/
theorem decode_nconsume (lib : MibLib S Dec) (s : MibImpl S Dec) (c : MibCall S)
    (hexit : s.exitOnSuccess = false) : (decode lib s c).2.nconsume = c.noutputItems := by
  unfold decode
  dsimp only
  split
  · simp [hexit]
  · rfl

/-- No call changes `d_exit_on_success`. -/
theorem generalWork_exitOnSuccess (h : generalWork lib s c = .ok (s', w)) :
    s'.exitOnSuccess = s.exitOnSuccess := by
  have hdecode (u : MibImpl S Dec) : (decode lib u c).1.exitOnSuccess = u.exitOnSuccess := by
    unfold decode
    dsimp only
    split
    · split <;> rfl
    · rfl
  rcases generalWork_cases h with
    ⟨-, rfl, -⟩ | ⟨-, -, rfl, -⟩ | ⟨cellId, cp, -, -, -, rfl, -⟩ | ⟨cellId, cp, -, -, -, rfl, -⟩
  · rw [dropCurrentCell, receive_exitOnSuccess]
  · rw [receive_exitOnSuccess]
  · rw [configure_exitOnSuccess, receive_exitOnSuccess]
  · rw [hdecode, configure_exitOnSuccess, receive_exitOnSuccess]

omit [GnuRadio] in
/-- What a constructor that returns has made: a block that holds no cell, after one library
call. -/
theorem make_eq {exitOnSuccess : Bool} {mib : Dec} {phichLength : PhichLength}
    {phichResources : PhichResources} {sfnOffset : ℤ} {calls : List (LibCall S)}
    (hmake : make lib exitOnSuccess mib phichLength phichResources sfnOffset = .ok (s, calls)) :
    s = { currentTrackingCell := .nil, cellPublished := false,
          cell := { nofPorts := 0, nofPrb := srslteUeMibNofPrb, cp := .norm, id := 0,
                    phichLength, phichResources },
          mib := (lib.ueMibInit mib srslteUeMibNofPrb).2,
          sfBuffer := { addr := 0, capacity := 3 * srslteSfLenPrb, data := [] },
          exitOnSuccess, sfnOffset, bchPayload := fun _ => 0 } ∧
      calls = [.ueMibInit 0 srslteUeMibNofPrb true] := by
  simp only [make] at hmake
  split at hmake
  · cases hmake
  · cases hmake
    exact ⟨rfl, rfl⟩

section Traces

variable (tr tr' : List (Machine.Transition (MibImpl S Dec) (MibCall S) (MibWork S)))

/-- The library calls of a trace, in order. -/
def libCalls : List (LibCall S) := tr.flatMap fun t => t.output.calls

omit [GnuRadio] in
@[simp]
theorem libCalls_append : libCalls (tr ++ tr') = libCalls tr ++ libCalls tr' := by
  simp [libCalls]

end Traces

end MibImpl

end LteTrigger
