import LteTrigger.GnuRadio

/-!
# The `mib` block

The state of `mib_impl`, its constructor, `general_work` and `pack_cell`, from
`lib/mib_impl.{h,cc}`.

The srsLTE calls are the fields of `MibLib`. They act on a decoder `srslte_ue_mib_t` of type
`Dec`. The decoder keeps the address of the sample buffer it was initialised with. Its
functions are not told that address: `srslte_ue_mib_decode` is given the samples that were
assigned to the buffer last. The addresses are recorded in the log of library calls instead,
which every call of the block returns along with the messages it publishes.

A tag vector such as `d_tracking_lost_tags` is overwritten by every lookup before it is read,
so the vectors are not part of the state. The block never writes its output stream.

## Main definitions

* `MibImpl`: the members of the block;
* `MibImpl.generalWork`: one call of the scheduler, made of `receive`,
  `dropCurrentCell`, `reinit` and `decode`, one for each longer part of the source.
-/

namespace LteTrigger

/-- `SRSLTE_UE_MIB_NOF_PRB`. -/
def srslteUeMibNofPrb : ℕ := 6

/-- `SRSLTE_SF_LEN_PRB(SRSLTE_UE_MIB_NOF_PRB)` for standard symbol sizes. -/
def srslteSfLenPrb : ℕ := 1920

/-- `SRSLTE_UE_MIB_FOUND`. -/
def srslteUeMibFound : ℤ := 1

/-- `WORK_DONE`. -/
def workDone : ℤ := -1

/-- The width of `uint32_t` and `unsigned int` in bits. -/
def uint32Width : ℕ := 32

/-- The payload of a broadcast channel block, `uint8_t[SRSLTE_BCH_PAYLOAD_LEN]`. -/
abbrev BchPayload := Fin 24 → UInt8

/-- `srslte_phich_length_t`. -/
inductive PhichLength
  /-- `SRSLTE_PHICH_NORM`. -/
  | norm
  /-- `SRSLTE_PHICH_EXT`. -/
  | ext
  deriving DecidableEq, Repr

/-- `srslte_phich_resources_t`. -/
inductive PhichResources
  /-- `SRSLTE_PHICH_R_1_6`. -/
  | r16
  /-- `SRSLTE_PHICH_R_1_2`. -/
  | r12
  /-- `SRSLTE_PHICH_R_1`. -/
  | r1
  /-- `SRSLTE_PHICH_R_2`. -/
  | r2
  deriving DecidableEq, Repr

/-- `srslte_cell_t`. -/
structure SrslteCell where
  /-- `nof_prb`. -/
  nofPrb : ℕ
  /-- `nof_ports`. -/
  nofPorts : ℕ
  /-- `id`. -/
  id : ℕ
  /-- `cp`. -/
  cp : Cp
  /-- `phich_length`. -/
  phichLength : PhichLength
  /-- `phich_resources`. -/
  phichResources : PhichResources
  deriving DecidableEq, Repr

/-- What `srslte_ue_mib_decode` returns and leaves behind. -/
structure MibDecode (Dec : Type) where
  /-- The return value. -/
  ret : ℤ
  /-- The payload buffer afterwards. -/
  bchPayload : BchPayload
  /-- The number of ports afterwards. -/
  nofPorts : ℕ
  /-- The frame number offset afterwards. -/
  sfnOffset : ℤ
  /-- The decoder afterwards. -/
  mib : Dec

/-- The fields of a master information block, as `srslte_pbch_mib_unpack` writes them. -/
structure MibFields where
  /-- `nof_prb`. -/
  nofPrb : ℕ
  /-- `phich_length`. -/
  phichLength : PhichLength
  /-- `phich_resources`. -/
  phichResources : PhichResources
  /-- The system frame number. -/
  sfn : ℤ

/-- The srsLTE functions the block calls. -/
structure MibLib (S Dec : Type) where
  /-- `srslte_ue_mib_init` for a number of resource blocks: the status and the decoder. -/
  ueMibInit : Dec → ℕ → ℤ × Dec
  /-- `srslte_ue_mib_set_cell`. -/
  ueMibSetCell : Dec → SrslteCell → Dec
  /-- `srslte_ue_mib_reset`. -/
  ueMibReset : Dec → Dec
  /-- `srslte_pbch_decode_reset` of the decoder's broadcast channel. -/
  pbchDecodeReset : Dec → Dec
  /-- `srslte_ue_mib_decode` of the samples in the buffer. The last three arguments are the
  contents of the output arguments before the call. -/
  ueMibDecode : Dec → List (HalfFrame S) → BchPayload → ℕ → ℤ → MibDecode Dec
  /-- `srslte_pbch_mib_unpack`. -/
  pbchMibUnpack : BchPayload → MibFields

/-- An srsLTE call as it shows in the log. -/
inductive LibCall (S : Type)
  /-- `srslte_ue_mib_init` on the buffer at `addr` for `nofPrb` blocks, and whether it
  succeeded. -/
  | ueMibInit (addr nofPrb : ℕ) (ok : Bool)
  /-- `srslte_ue_mib_set_cell`. -/
  | ueMibSetCell (cell : SrslteCell)
  /-- `srslte_ue_mib_reset`. -/
  | ueMibReset
  /-- `srslte_pbch_decode_reset`. -/
  | pbchDecodeReset
  /-- `srslte_ue_mib_decode` while the buffer at `addr` holds `samples`, and the number of
  ports it leaves in its argument. -/
  | ueMibDecode (addr : ℕ) (samples : List (HalfFrame S)) (nofPorts : ℕ)
  /-- `srslte_pbch_mib_unpack`, and the number of resource blocks it writes. -/
  | pbchMibUnpack (nofPrb : ℕ)

/-- The vector `d_sf_buffer[0]`. -/
structure SampleBuffer (S : Type) where
  /-- The storage it occupies. Two allocations never have the same number. -/
  addr : ℕ
  /-- Its capacity. -/
  capacity : ℕ
  /-- The half-frames it holds. Before the first call there are none: the zeros it is
  constructed with are never read. -/
  data : List (HalfFrame S)

/-- Copy assignment of a vector: the storage is kept when the new contents fit. -/
def SampleBuffer.assign {S : Type} (b : SampleBuffer S) (v : List (HalfFrame S)) :
    SampleBuffer S :=
  if v.length * halfFrameLength ≤ b.capacity then { b with data := v }
  else
    -- the decoder is not told about the new storage
    { addr := b.addr + 1, capacity := v.length * halfFrameLength, data := v }

@[simp]
theorem SampleBuffer.assign_data {S : Type} (b : SampleBuffer S) (v : List (HalfFrame S)) :
    (b.assign v).data = v := by
  unfold assign
  split <;> rfl

/-- The output message ports. -/
inductive Port
  /-- `track_port_id`. -/
  | track
  /-- `drop_port_id`. -/
  | drop
  deriving DecidableEq, Repr

/-- A published message. -/
structure Message where
  /-- The port it was published on. -/
  port : Port
  /-- The payload. -/
  payload : PmtT
  deriving DecidableEq, Repr

/-- The members of `mib_impl`. -/
structure MibImpl (S Dec : Type) where
  /-- `d_current_tracking_cell`. -/
  currentTrackingCell : PmtT
  /-- `d_cell_published`. -/
  cellPublished : Bool
  /-- `d_cell`. -/
  cell : SrslteCell
  /-- `d_mib`. -/
  mib : Dec
  /-- `d_sf_buffer[0]`. -/
  sfBuffer : SampleBuffer S
  /-- `d_exit_on_success`. -/
  exitOnSuccess : Bool
  /-- `d_sfn_offset`. -/
  sfnOffset : ℤ
  /-- `d_bch_payload`. -/
  bchPayload : BchPayload

/-- What one `general_work` call is given: the first `noutput_items` samples of the input
window as half-frames, and the environment that `pack_cell` reads. -/
structure MibCall (S : Type) where
  /-- The first half-frame. -/
  first : Frame S
  /-- The half-frames after it. -/
  rest : List (Frame S)
  /-- `std::time(0)`. -/
  now : ℤ
  /-- The identity of a message object created in this call. -/
  fresh : ℕ

namespace MibCall

variable {S : Type} (c : MibCall S)

/-- The half-frames of the call. -/
def frames : List (Frame S) := c.first :: c.rest

/-- `noutput_items`, a positive multiple of `half_frame_length`. -/
def noutputItems : ℕ := c.frames.length * halfFrameLength

/-- The vector `v` of the samples of the call. -/
def v : List (HalfFrame S) := c.frames.map Frame.samples

end MibCall

/-- What a call published, called, consumed and returned. -/
structure MibWork (S : Type) where
  /-- The messages, in the order they were published. -/
  msgs : List Message
  /-- The library calls, in order. -/
  calls : List (LibCall S)
  /-- The items consumed. -/
  nconsume : ℕ
  /-- The return value. -/
  ret : ℤ

namespace MibImpl

variable [GnuRadio] {S Dec : Type}

/-- The constructor `mib_impl::mib_impl`, with the log of its library calls. The decoder and
the members without an initialiser have the contents of uninitialised memory: `mib`,
`phichLength`, `phichResources` and `sfnOffset`. -/
def make (lib : MibLib S Dec) (exitOnSuccess : Bool) (mib : Dec)
    (phichLength : PhichLength) (phichResources : PhichResources) (sfnOffset : ℤ) :
    Except Exception (MibImpl S Dec × List (LibCall S)) :=
  let cell : SrslteCell :=
    { nofPorts := 0  -- if set to 0, detects nof_ports
      nofPrb := srslteUeMibNofPrb
      cp := .norm
      id := 0
      phichLength
      phichResources }
  -- room for three subframes, on one antenna
  let bufferSz := 3 * srslteSfLenPrb
  let sfBuffer : SampleBuffer S := { addr := 0, capacity := bufferSz, data := [] }
  let (status, mib) := lib.ueMibInit mib cell.nofPrb
  if status ≠ 0 then .error (.runtimeError "Error initializing MIB")
  else .ok
    ({ currentTrackingCell := .nil
       cellPublished := false
       cell
       mib
       sfBuffer
       exitOnSuccess
       sfnOffset
       bchPayload := fun _ => 0 },
     [.ueMibInit sfBuffer.addr cell.nofPrb true])

/-- `pack_cell`, at the time `now`. -/
def packCell (cell : SrslteCell) (sfn now : ℤ) : Pmt :=
  let d := makeDict
  let d := dictAdd d (.intern "cell_id") (.fromLong cell.id)
  let d := dictAdd d (.intern "nof_tx_ports") (.fromLong cell.nofPorts)
  let cpLenStr := match cell.cp with
    | .norm => "Normal"
    | .ext => "Extended"
  let d := dictAdd d (.intern "cp_len") (.intern cpLenStr)
  let d := dictAdd d (.intern "nof_prb") (.fromLong cell.nofPrb)
  let phichLenStr := match cell.phichLength with
    | .norm => "Normal"
    | .ext => "Extended"
  let d := dictAdd d (.intern "phich_len") (.intern phichLenStr)
  let nofPhichResourcesStr := match cell.phichResources with
    | .r16 => "1/6"
    | .r12 => "1/2"
    | .r1 => "1"
    | .r2 => "2"
  let d := dictAdd d (.intern "nof_phich_resources") (.intern nofPhichResourcesStr)
  let d := dictAdd d (.intern "sfn_offset") (.fromLong sfn)
  dictAdd d (.intern "tracking_start_time") (.fromLong now)

/-- The start of a call: its samples are assigned to `d_sf_buffer[0]`. -/
def receive (s : MibImpl S Dec) (c : MibCall S) : MibImpl S Dec :=
  { s with sfBuffer := s.sfBuffer.assign c.v }

/-- The branch for a half-frame with a `tracking_lost` tag. -/
def dropCurrentCell (lib : MibLib S Dec) (s : MibImpl S Dec) : MibImpl S Dec × MibWork S :=
  ({ s with
      cellPublished := false
      currentTrackingCell := .nil
      mib := lib.ueMibReset s.mib },
    { msgs := if s.cellPublished then [⟨.drop, s.currentTrackingCell⟩] else []
      calls := [.ueMibReset]
      nconsume := halfFrameLength
      ret := 0 })

/-- A half-frame that is consumed and nothing else. -/
def skip (s : MibImpl S Dec) : MibImpl S Dec × MibWork S :=
  (s, { msgs := [], calls := [], nconsume := halfFrameLength, ret := 0 })

/-- The branch that initialises the decoder for another cell. It also returns whether that
succeeded. -/
def reinit (lib : MibLib S Dec) (s : MibImpl S Dec) (cellId : ℕ) (cp : Cp) :
    MibImpl S Dec × List (LibCall S) × Bool :=
  -- the cell is changed before it is known whether the decoder can be initialised for it
  let s := { s with
    mib := lib.ueMibReset s.mib
    cell := { s.cell with id := cellId, cp := cp } }
  let (status, mib) := lib.ueMibInit s.mib s.cell.nofPrb
  let s := { s with mib := mib }
  let init := LibCall.ueMibInit s.sfBuffer.addr s.cell.nofPrb (decide (status = 0))
  if status ≠ 0 then
    -- SSS block passed us non-sense
    (s, [.ueMibReset, init], false)
  else
    ({ s with mib := lib.ueMibSetCell s.mib s.cell },
      [.ueMibReset, init, .ueMibSetCell s.cell], true)

/-- The last part of `general_work`: one decoding attempt, and the message if it succeeds.
It consumes all of the call's input. -/
def decode (lib : MibLib S Dec) (s : MibImpl S Dec) (c : MibCall S) :
    MibImpl S Dec × MibWork S :=
  let s := { s with mib := lib.pbchDecodeReset s.mib }
  -- `d_bch_payload`, `d_cell.nof_ports` and `d_sfn_offset` are output arguments
  let result := lib.ueMibDecode s.mib s.sfBuffer.data s.bchPayload s.cell.nofPorts s.sfnOffset
  let s := { s with
    mib := result.mib
    bchPayload := result.bchPayload
    cell := { s.cell with nofPorts := result.nofPorts }
    sfnOffset := result.sfnOffset }
  let calls : List (LibCall S) :=
    [.pbchDecodeReset, .ueMibDecode s.sfBuffer.addr s.sfBuffer.data result.nofPorts]
  if result.ret = srslteUeMibFound then
    let fields := lib.pbchMibUnpack s.bchPayload
    let s := { s with
      cell := { s.cell with
        nofPrb := fields.nofPrb
        phichLength := fields.phichLength
        phichResources := fields.phichResources }
      sfnOffset := fields.sfn }
    let current : PmtT := ⟨c.fresh, packCell s.cell s.sfnOffset c.now⟩
    let s := { s with currentTrackingCell := current, cellPublished := true }
    let calls := calls ++ [.pbchMibUnpack fields.nofPrb]
    if s.exitOnSuccess then
      -- the call returns before it consumes anything
      (s, { msgs := [⟨.track, current⟩], calls, nconsume := 0, ret := workDone })
    else
      (s, { msgs := [⟨.track, current⟩], calls, nconsume := c.noutputItems,
            ret := c.noutputItems })
  else
    (s, { msgs := [], calls, nconsume := c.noutputItems, ret := c.noutputItems })

/-- The part of `general_work` below the lookup of the `cell_id` and `cp_type` tags. -/
def searchCell (lib : MibLib S Dec) (s : MibImpl S Dec) (c : MibCall S) (cellId : ℕ) (cp : Cp) :
    MibImpl S Dec × MibWork S :=
  if cellId ≠ s.cell.id ∨ cp ≠ s.cell.cp then
    match reinit lib s cellId cp with
    | (s, calls, false) => (s, { msgs := [], calls, nconsume := halfFrameLength, ret := 0 })
    | (s, calls, true) =>
      let (s, w) := decode lib s c
      (s, { w with calls := calls ++ w.calls })
  else decode lib s c

/-- The cell identity in a `cell_id` tag, converted to `unsigned int`. -/
def tagCellId (tag : Tag) : Except Exception ℕ :=
  (toLong tag.value).map fun n => (n % 2 ^ uint32Width).toNat

/-- The CP type in a `cp_type` tag. -/
def tagCp (tag : Tag) : Cp := if tag.value = .bool true then .norm else .ext

/-- `general_work`. -/
def generalWork (lib : MibLib S Dec) (s : MibImpl S Dec) (c : MibCall S) :
    Except Exception (MibImpl S Dec × MibWork S) :=
  let s := s.receive c
  if getTagsInWindow c.first.tags trackingLostTagKey ≠ [] then .ok (dropCurrentCell lib s)
  else if s.cellPublished then .ok s.skip
  else
    match getTagsInWindow c.first.tags cellIdTagKey,
      getTagsInWindow c.first.tags cpTypeTagKey with
    | [cellIdTag], [cpTypeTag] =>
      (tagCellId cellIdTag).map fun cellId => searchCell lib s c cellId (tagCp cpTypeTag)
    | _, _ =>
      -- sanity check: anything but one tag of each kind is junk from SSS
      .ok s.skip

end MibImpl

/-! ### A decoder that plays back its outcomes -/

/-- An srsLTE whose decoder follows a list of outcomes, one for each initialisation and one for
each decoding attempt, and fails once the list is used up. A block found is for 50 resource
blocks and two ports. -/
def MibLib.playback (S : Type) : MibLib S (List Bool) where
  ueMibInit mib _ := (if mib.headD false then 0 else -1, mib.tail)
  ueMibSetCell mib _ := mib
  ueMibReset mib := mib
  pbchDecodeReset mib := mib
  ueMibDecode mib _ bchPayload nofPorts sfnOffset :=
    if mib.headD false then ⟨srslteUeMibFound, bchPayload, 2, sfnOffset, mib.tail⟩
    else ⟨0, bchPayload, nofPorts, sfnOffset, mib.tail⟩
  pbchMibUnpack _ := ⟨50, .norm, .r1, 0⟩

/-- A block over such a decoder, as constructed: the decoder has the given outcomes left. -/
def MibImpl.playback (S : Type) (outcomes : List Bool) (exitOnSuccess : Bool) :
    MibImpl S (List Bool) where
  currentTrackingCell := .nil
  cellPublished := false
  cell := ⟨srslteUeMibNofPrb, 0, 0, .norm, .norm, .r16⟩
  mib := outcomes
  sfBuffer := ⟨0, 3 * srslteSfLenPrb, []⟩
  exitOnSuccess
  sfnOffset := 0
  bchPayload := fun _ => 0

theorem MibImpl.make_playback (S : Type) (outcomes : List Bool) (exitOnSuccess : Bool) :
    make (.playback S) exitOnSuccess (true :: outcomes) .norm .r16 0 =
      .ok (.playback S outcomes exitOnSuccess, [.ueMibInit 0 srslteUeMibNofPrb true]) := rfl

/-- A half-frame with the tags that `sss` puts on for a cell. -/
def Frame.ofCell {S : Type} (samples : HalfFrame S) (cellId : ℤ) (cpNorm : Bool) : Frame S where
  samples
  tags := [⟨cellIdTagKey, .fromLong cellId⟩, ⟨cpTypeTagKey, .bool cpNorm⟩]

/-- A half-frame with the tag that `pss` puts on when it is not tracking. -/
def Frame.trackingLost {S : Type} (samples : HalfFrame S) : Frame S where
  samples
  tags := [⟨trackingLostTagKey, .nil⟩]

end LteTrigger
