import LteTrigger.Pmt

/-!
# Half-frames and stream tags

The three blocks of a chain work on half-frames of 9600 complex samples. A tag sits on one
sample of a stream. The blocks only put tags on, and only look for tags at, the first sample
of a half-frame, so a half-frame carries its samples and the tags of its first sample.

The sample type is a parameter: no block computes with samples other than through srsLTE.
-/

namespace LteTrigger

/-- `slot_length`. -/
def slotLength : ℕ := 960

/-- `half_frame_length`. -/
def halfFrameLength : ℕ := 10 * slotLength

/-- `symbol_sz`. -/
def symbolSz : ℕ := 128

/-- The samples of a half-frame. -/
abbrev HalfFrame (S : Type) := Fin halfFrameLength → S

/-- The half-frame of the stream `x` that starts at the position `start`. -/
def halfFrameAt {S : Type} (x : ℤ → S) (start : ℤ) : HalfFrame S :=
  fun k => x (start + (k : ℕ))

/-- The samples of one symbol. -/
abbrev Symbol (S : Type) := Fin symbolSz → S

/-- A stream tag, `tag_t`, with its offset left out. -/
structure Tag where
  /-- The key, an interned symbol. -/
  key : String
  /-- The value. -/
  value : Pmt
  deriving DecidableEq, Repr

/-- `tracking_lost_tag_key`. -/
def trackingLostTagKey : String := "tracking_lost"

/-- `cell_id_tag_key`. -/
def cellIdTagKey : String := "cell_id"

/-- `cp_type_tag_key`. -/
def cpTypeTagKey : String := "cp_type"

/-- The keys the blocks of a chain use among themselves. -/
def chainKeys : List String := [trackingLostTagKey, cellIdTagKey, cpTypeTagKey]

/-- A half-frame on a stream: its samples and the tags of its first sample. -/
structure Frame (S : Type) where
  /-- The samples. -/
  samples : HalfFrame S
  /-- The tags of the first sample, in the order they were added. -/
  tags : List Tag

/-- Cyclic extension mode, `srslte_cp_t`. -/
inductive Cp
  /-- `SRSLTE_CP_NORM`. -/
  | norm
  /-- `SRSLTE_CP_EXT`. -/
  | ext
  deriving DecidableEq, Repr

end LteTrigger
