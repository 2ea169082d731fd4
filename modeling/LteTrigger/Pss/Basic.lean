import LteTrigger.RingBuffer.Basic
import LteTrigger.Stream

/-!
# The `pss` block

The state of `pss_impl`, its constructor and `general_work`, from `lib/pss_impl.{h,cc}`.

The srsLTE calls are the fields of `PssLib`. They act on a detector `srslte_pss_t` (type
`Det`) and on a CFO corrector `srslte_cfo_t`, of which the block itself only touches the
field `last_freq`. Floats are any type `F` with the operations of `FloatOps`; no law is
assumed of them. `int` counters are integers: signed overflow is undefined behaviour, and
no theorem reads a value past it. `size_t` counters wrap at the width `PssLib.sizeWidth`.

The channel estimate that `srslte_pss_chest` writes is read by nothing and is left out.
The assertion on `nconsume` is compiled out of the default build and has no effect here.

## Main definitions

* `PssImpl`: the members of the block;
* `PssImpl.generalWork`: one call of the scheduler, made of `findFrame` (the correlation or
  the countdown that skips it), `updateScore` and, when a half-frame goes out, `emitFrame`.
-/

namespace LteTrigger

/-- The float operations the block uses. -/
class FloatOps (F : Type) extends Zero F, Add F, Neg F, Div F, NatCast F, LT F where
  /-- Comparisons are decided. -/
  decLt : DecidableLT F

instance FloatOps.decidableLT {F : Type} [FloatOps F] : DecidableLT F := FloatOps.decLt

/-- `history()`, as the constructor sets it. -/
def history : ℕ := halfFrameLength

/-- `moving_avg_sz`. -/
def movingAvgSz : ℕ := 200

instance : NeZero movingAvgSz := ⟨by decide⟩

/-- `sizeof(float)`. -/
def sizeofFloat : ℕ := 4

/-- `tracking_t`. -/
structure Tracking where
  /-- The number of over-threshold calls counted so far. -/
  score : ℤ := 0
  /-- The calls left before the next correlation while tracking. -/
  timer : ℤ := 0
  /-- The private flag that `operator bool` reads. -/
  isTracking : Bool := false
  deriving DecidableEq, Repr

/-- `tracking_t::start`. -/
def Tracking.start (t : Tracking) : Tracking := { t with isTracking := true }

/-- `tracking_t::stop`. -/
def Tracking.stop (t : Tracking) : Tracking := { t with isTracking := false }

/-- `srslte_cfo_t`: the frequency the rotation table was last built for, as far as the block
can tell, and the table. -/
structure SrslteCfo (F Tab : Type) where
  /-- `last_freq`. -/
  lastFreq : F
  /-- The rotation table. -/
  table : Tab

/-- What `srslte_pss_find_pss` returns and leaves behind. -/
structure FindResult (F Det : Type) where
  /-- The position of the correlation peak. -/
  peakPos : ℤ
  /-- The peak-to-side-lobe ratio, `corr_peak_value`. -/
  psr : F
  /-- The detector afterwards. -/
  pss : Det

/-- The srsLTE functions the block calls. A result `none` is a nonzero status. -/
structure PssLib (F S Det Tab : Type) where
  /-- The width of `size_t` in bits. -/
  sizeWidth : ℕ
  /-- `srslte_pss_init`. -/
  pssInit : ℕ → Option Det
  /-- `srslte_pss_set_N_id_2`. -/
  pssSetNId2 : Det → ℤ → Option Det
  /-- `srslte_cfo_init`. -/
  cfoInit : ℕ → Option (SrslteCfo F Tab)
  /-- `srslte_pss_find_pss`, which reads a half-frame. -/
  findPss : Det → HalfFrame S → FindResult F Det
  /-- `srslte_pss_reset`. -/
  pssReset : Det → Det
  /-- `srslte_pss_cfo_compute`, which reads one symbol. -/
  pssCfoCompute : Det → Symbol S → F × Det
  /-- `srslte_cfo_correct` of a half-frame by a frequency. -/
  cfoCorrect : SrslteCfo F Tab → HalfFrame S → F → HalfFrame S × SrslteCfo F Tab
  /-- The status of `srslte_pss_chest` on one symbol. -/
  pssChest : Det → Symbol S → ℤ

/-- The members of `pss_impl`. A buffer `d_*_data` and its index `d_*_i` form one
`RingBuffer`. -/
structure PssImpl (F Det Tab : Type) where
  /-- `d_tracking`. -/
  tracking : Tracking
  /-- `d_tracking_lost`. -/
  trackingLost : Bool
  /-- `d_pss`. -/
  pss : Det
  /-- `d_psr_data` and `d_psr_i`. -/
  psrData : RingBuffer F movingAvgSz
  /-- `d_psr`. -/
  psr : F
  /-- `d_psr_max`. -/
  psrMax : F
  /-- `d_peak_pos`. -/
  peakPos : ℤ
  /-- `d_cfo`. -/
  cfo : SrslteCfo F Tab
  /-- `d_cfo_data` and `d_cfo_i`. -/
  cfoData : RingBuffer F movingAvgSz
  /-- `d_N_id_2`. -/
  nId2 : ℤ
  /-- `d_psr_threshold`. -/
  psrThreshold : F
  /-- `d_track_after_n_frames`. -/
  trackAfterNFrames : ℤ
  /-- `d_track_every_n_frames`. -/
  trackEveryNFrames : ℤ

/-- The arguments of one `general_work` call. The scheduler keeps to the output multiple the
constructor sets and to the default `forecast`. -/
structure Call (S : Type) where
  /-- `noutput_items`. -/
  noutputItems : ℕ
  /-- `ninput_items[0]`. -/
  ninputItems : ℕ
  /-- `input_items[0]`, by index; the items from `0` up to `ninputItems` are the window. -/
  inputItems : ℤ → S
  /-- `set_output_multiple(half_frame_length)`. -/
  output_multiple : ∃ k, 0 < k ∧ noutputItems = k * halfFrameLength
  /-- `gr::block::forecast`. -/
  forecast : noutputItems + history - 1 ≤ ninputItems

/-- The pointer `in`, which is `history() - 1` items into the window. -/
def Call.input {S : Type} (c : Call S) (k : ℤ) : S := c.inputItems ((history : ℤ) - 1 + k)

/-- The half-frame of samples from `in[start]` on. -/
def Call.halfFrame {S : Type} (c : Call S) (start : ℤ) : HalfFrame S :=
  halfFrameAt c.input start

/-- The symbol that ends at `out[slot_length]`. -/
def pssSymbol {S : Type} (out : HalfFrame S) : Symbol S :=
  fun k => out ⟨slotLength - symbolSz + k, by
    have := k.isLt
    simp only [slotLength, symbolSz, halfFrameLength] at *
    omega⟩

/-- A half-frame sent downstream. -/
structure Emission (S : Type) where
  /-- `frame_start`: where the copied samples start, counted from `in`. -/
  frameStart : ℤ
  /-- The samples as `std::copy` wrote them. -/
  copied : HalfFrame S
  /-- The samples after the CFO correction in place. -/
  out : HalfFrame S
  /-- Whether the first sample was tagged `tracking_lost`. -/
  tagged : Bool

/-- What a call did to its streams. -/
inductive Work (S : Type)
  /-- A half-frame went out. -/
  | emit (e : Emission S)
  /-- A half-frame of input was dropped. -/
  | drop

namespace Work

variable {S : Type}

/-- The argument of `consume_each`. -/
def nconsume : Work S → ℤ
  | .emit e => e.frameStart + halfFrameLength
  | .drop => halfFrameLength

/-- The value `general_work` returns. -/
def noutput : Work S → ℤ
  | .emit _ => halfFrameLength
  | .drop => 0

/-- The half-frame that went out, if any. -/
def emission : Work S → Option (Emission S)
  | .emit e => some e
  | .drop => none

end Work

section Float

variable {F : Type} [FloatOps F]

/-- `compute_moving_avg`. The accumulator, a `double` in the source, is of the same type as the
data. -/
def computeMovingAvg (data : Fin movingAvgSz → F) (npts : ℕ) : F :=
  if npts = 0 then 0  -- avoid divide-by-zero
  else
    -- the counter runs on once the buffer is full
    let npts := if movingAvgSz < npts then movingAvgSz else npts
    let accumulator :=
      ((List.finRange movingAvgSz).take npts).foldl (fun acc i => acc + data i) 0
    accumulator / npts

/-- `memset(data, 0, moving_avg_sz)` on a buffer of floats, with the index set back to zero:
the size is a number of bytes. -/
def memsetData (b : RingBuffer F movingAvgSz) : RingBuffer F movingAvgSz :=
  b.reset (movingAvgSz / sizeofFloat) 0

end Float

namespace PssImpl

variable {F S Det Tab : Type} [FloatOps F]

/-- The constructor `pss_impl::pss_impl`. -/
def make (lib : PssLib F S Det Tab) (nId2 : ℤ) (psrThreshold : F)
    (trackAfter trackEvery : ℤ) : Except Exception (PssImpl F Det Tab) :=
  match lib.pssInit halfFrameLength with
  | none => .error (.runtimeError "Error initializing PSS")
  | some pss =>
    match lib.pssSetNId2 pss nId2 with
    | none => .error (.runtimeError "Error initializing PSS N_id_2")
    | some pss =>
      match lib.cfoInit halfFrameLength with
      | none => .error (.runtimeError "Error initializing CFO")
      | some cfo =>
        -- `track_every` and `track_after` are taken as they are, also when negative
        .ok
          { tracking := {}
            trackingLost := false
            pss
            psrData := .init 0
            psr := 0
            psrMax := 0
            peakPos := 0
            cfo
            cfoData := .init 0
            nId2
            psrThreshold
            trackAfterNFrames := trackAfter
            trackEveryNFrames := trackEvery }

/-- `max_psr`. -/
def maxPsr (s : PssImpl F Det Tab) : F := s.psrMax

/-- `mean_psr`. -/
def meanPsr (s : PssImpl F Det Tab) : F := computeMovingAvg s.psrData.data s.psrData.count

/-- `mean_cfo`. -/
def meanCfo (s : PssImpl F Det Tab) : F := computeMovingAvg s.cfoData.data s.cfoData.count

/-- `tracking_score`. -/
def trackingScore (s : PssImpl F Det Tab) : ℤ := s.tracking.score

/-- `set_psr_threshold`. -/
def setPsrThreshold (s : PssImpl F Det Tab) (threshold : F) : PssImpl F Det Tab :=
  { s with psrThreshold := threshold }

/-- `incr_score`. -/
def incrScore (lib : PssLib F S Det Tab) (s : PssImpl F Det Tab) : PssImpl F Det Tab :=
  let maxScore := s.trackAfterNFrames
  if s.tracking.isTracking ∧ s.tracking.score = maxScore then s
  else
    let s := { s with tracking := { s.tracking with score := s.tracking.score + 1 } }
    if ¬ s.tracking.isTracking ∧ s.tracking.score = maxScore then
      -- reset convolution avg
      { s with tracking := s.tracking.start, pss := lib.pssReset s.pss }
    else s

/-- `reset_score`. -/
def resetScore (lib : PssLib F S Det Tab) (s : PssImpl F Det Tab) : PssImpl F Det Tab :=
  if s.tracking.score = 0 then s
  else
    -- with the timer at zero the next call correlates again; `d_psr`, `d_psr_max` and
    -- `d_peak_pos` keep their values
    { s with
      tracking := { s.tracking with score := 0, timer := 0 }.stop
      pss := lib.pssReset s.pss
      psrData := memsetData s.psrData
      cfo := { s.cfo with lastFreq := 0 }
      cfoData := memsetData s.cfoData
      trackingLost := true }

/-- The condition under which a call runs `srslte_pss_find_pss`. -/
def findsPss (s : PssImpl F Det Tab) : Prop :=
  ¬ s.tracking.isTracking ∨ s.tracking.timer = 0

instance (s : PssImpl F Det Tab) : Decidable s.findsPss :=
  inferInstanceAs (Decidable (_ ∨ _))

/-- The first part of `general_work`: correlate, or count down to the next correlation. -/
def findFrame (lib : PssLib F S Det Tab) (s : PssImpl F Det Tab) (c : Call S) :
    PssImpl F Det Tab :=
  if s.findsPss then
    let found := lib.findPss s.pss (c.halfFrame 0)
    { s with
      tracking := { s.tracking with timer := s.trackEveryNFrames }
      peakPos := found.peakPos
      psr := found.psr
      pss := found.pss
      psrData := s.psrData.push lib.sizeWidth found.psr }
  else { s with tracking := { s.tracking with timer := s.tracking.timer - 1 } }

/-- `psr_over_threshold`. -/
def psrOverThreshold (s : PssImpl F Det Tab) : Bool := decide (s.psrThreshold < s.psr)

/-- The second part of `general_work`: the score and the maximum. -/
def updateScore (lib : PssLib F S Det Tab) (s : PssImpl F Det Tab) : PssImpl F Det Tab :=
  let s := if s.psrOverThreshold then incrScore lib s else resetScore lib s
  if s.psrMax < s.psr then { s with psrMax := s.psr } else s

/-- The third part of `general_work`: the half-frame around the peak goes out, corrected
while tracking and tagged otherwise. -/
def emitFrame (lib : PssLib F S Det Tab) (s : PssImpl F Det Tab) (c : Call S) :
    Except Exception (PssImpl F Det Tab × Emission S) :=
  let frameStart := s.peakPos - slotLength
  let s := { s with peakPos := slotLength }
  let copied := c.halfFrame frameStart
  if s.tracking.isTracking then
    -- estimate CFO
    let (cfo, pss) := lib.pssCfoCompute s.pss (pssSymbol copied)
    let s := { s with pss := pss, cfoData := s.cfoData.push lib.sizeWidth cfo }
    -- correct CFO in place
    let (out, cfo) := lib.cfoCorrect s.cfo copied (-s.meanCfo / (symbolSz : F))
    let s := { s with cfo := cfo }
    if lib.pssChest s.pss (pssSymbol out) ≠ 0 then
      .error (.runtimeError "Error computing channel estimation")
    else .ok (s, { frameStart, copied, out, tagged := false })
  else
    -- tracking lost - force downstream blocks to reset state
    .ok ({ s with trackingLost := false }, { frameStart, copied, out := copied, tagged := true })

/-- `general_work`. -/
def generalWork (lib : PssLib F S Det Tab) (s : PssImpl F Det Tab) (c : Call S) :
    Except Exception (PssImpl F Det Tab × Work S) :=
  let s := findFrame lib s c
  let psrOverThreshold := s.psrOverThreshold
  let s := updateScore lib s
  if psrOverThreshold ∨ s.trackingLost then
    (emitFrame lib s c).map fun (s, e) => (s, .emit e)
  else
    -- nothing to see, move along
    .ok (s, .drop)

/-- What happens to a running block: a call of the scheduler, or a new threshold between two
calls. -/
inductive Event (F S : Type)
  /-- The scheduler calls `general_work`. -/
  | work (c : Call S)
  /-- `set_psr_threshold` is called. -/
  | setPsrThreshold (threshold : F)

/-- One event. The output is the work done, if the event was a call. -/
def step (lib : PssLib F S Det Tab) (s : PssImpl F Det Tab) :
    Event F S → Except Exception (PssImpl F Det Tab × Option (Work S))
  | .work c => (generalWork lib s c).map fun (s, w) => (s, some w)
  | .setPsrThreshold threshold => .ok (s.setPsrThreshold threshold, none)

end PssImpl

/-! ### A detector that plays back its correlations -/

instance : FloatOps ℤ where
  decLt := inferInstance

/-- An srsLTE whose detector returns the peaks and ratios of a list, one for each call,
whatever the samples. It finds no frequency offset and rotates nothing. -/
def PssLib.playback (S : Type) (correlations : List (ℕ × ℤ)) :
    PssLib ℤ S (List (ℕ × ℤ)) Unit where
  sizeWidth := 64
  pssInit _ := some correlations
  pssSetNId2 det nId2 := if 0 ≤ nId2 ∧ nId2 < 3 then some det else none
  cfoInit _ := some ⟨0, ()⟩
  findPss det _ :=
    match det with
    | [] => ⟨0, 0, []⟩
    | (peakPos, psr) :: rest => ⟨peakPos, psr, rest⟩
  pssReset det := det
  pssCfoCompute det _ := (0, det)
  cfoCorrect cfo samples _ := (samples, cfo)
  pssChest _ _ := 0

theorem PssLib.playback_peakPos_nonneg (S : Type) (correlations det : List (ℕ × ℤ))
    (samples : HalfFrame S) : 0 ≤ ((playback S correlations).findPss det samples).peakPos := by
  cases det <;> simp [playback]

/-- A block with `N_id_2` zero over such a detector, as constructed. -/
def PssImpl.playback (correlations : List (ℕ × ℤ)) (psrThreshold trackAfter trackEvery : ℤ) :
    PssImpl ℤ (List (ℕ × ℤ)) Unit where
  tracking := {}
  trackingLost := false
  pss := correlations
  psrData := .init 0
  psr := 0
  psrMax := 0
  peakPos := 0
  cfo := ⟨0, ()⟩
  cfoData := .init 0
  nId2 := 0
  psrThreshold
  trackAfterNFrames := trackAfter
  trackEveryNFrames := trackEvery

theorem PssImpl.make_playback (S : Type) (correlations : List (ℕ × ℤ))
    (psrThreshold trackAfter trackEvery : ℤ) :
    make (.playback S correlations) 0 psrThreshold trackAfter trackEvery =
      .ok (.playback correlations psrThreshold trackAfter trackEvery) := rfl

/-- A script: the peaks and ratios that a detector finds, and the offsets it estimates. -/
abbrev PssScript (F : Type) := List (ℤ × F) × List F

/-- An srsLTE whose detector follows a script, whatever the samples. The table of its corrector
is the frequency it was built for, by which `rotate` rotates. -/
def PssLib.ofScript {F S : Type} [FloatOps F] [DecidableEq F]
    (rotate : F → HalfFrame S → HalfFrame S) (script : PssScript F) :
    PssLib F S (PssScript F) F where
  sizeWidth := 64
  pssInit _ := some script
  pssSetNId2 det nId2 := if 0 ≤ nId2 ∧ nId2 < 3 then some det else none
  cfoInit _ := some ⟨0, 0⟩
  findPss det _ :=
    match det.1 with
    | [] => ⟨0, 0, det⟩
    | (peakPos, psr) :: rest => ⟨peakPos, psr, (rest, det.2)⟩
  pssReset det := det
  pssCfoCompute det _ :=
    match det.2 with
    | [] => (0, det)
    | offset :: rest => (offset, (det.1, rest))
  cfoCorrect cfo samples f :=
    let cfo := if f = cfo.lastFreq then cfo else ⟨f, f⟩
    (rotate cfo.table samples, cfo)
  pssChest _ _ := 0

/-- A block with `N_id_2` zero over such an srsLTE, as constructed. -/
def PssImpl.ofScript {F : Type} [FloatOps F] (script : PssScript F) (psrThreshold : F)
    (trackAfter trackEvery : ℤ) : PssImpl F (PssScript F) F where
  tracking := {}
  trackingLost := false
  pss := script
  psrData := .init 0
  psr := 0
  psrMax := 0
  peakPos := 0
  cfo := ⟨0, 0⟩
  cfoData := .init 0
  nId2 := 0
  psrThreshold
  trackAfterNFrames := trackAfter
  trackEveryNFrames := trackEvery

theorem PssImpl.make_ofScript {F S : Type} [FloatOps F] [DecidableEq F]
    (rotate : F → HalfFrame S → HalfFrame S) (script : PssScript F) (psrThreshold : F)
    (trackAfter trackEvery : ℤ) :
    make (.ofScript rotate script) 0 psrThreshold trackAfter trackEvery =
      .ok (.ofScript script psrThreshold trackAfter trackEvery) := rfl

/-- A call for one half-frame with the least input the scheduler may offer, read from the
stream `x` at the position `nitemsRead`. -/
def Call.minimal {S : Type} (x : ℤ → S) (nitemsRead : ℤ) : Call S where
  noutputItems := halfFrameLength
  ninputItems := 2 * halfFrameLength - 1
  inputItems i := x (nitemsRead - ((history : ℤ) - 1) + i)
  output_multiple := ⟨1, by decide, by decide⟩
  forecast := by decide

theorem Call.minimal_input {S : Type} (x : ℤ → S) (nitemsRead k : ℤ) :
    (Call.minimal x nitemsRead).input k = x (nitemsRead + k) := by
  simp only [Call.input, Call.minimal]
  congr 1
  omega

end LteTrigger
