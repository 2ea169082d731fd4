import LteTrigger.Machine.Run
import LteTrigger.Mib.Basic
import LteTrigger.Pss.Basic
import LteTrigger.Sss.Basic

/-!
# A chain of the three blocks

`downlink_trigger_c` connects a `pss`, an `sss` and a `mib` block in a row, one row for each
`N_id_2`. The blocks run in any order. A half-frame that one block puts on its output stream
waits in a FIFO buffer for the next block, which takes one half-frame in a call. The input
stream of the chain may carry tags of its own, under other keys than the blocks use; the
scheduler may attach some of them to a half-frame that `pss` sends.

## Main definitions

* `Chain`: the three blocks and the two buffers between them;
* `Chain.step`: one call of one of the blocks, or a new threshold.
-/

namespace LteTrigger

/-- The srsLTE functions the blocks of a chain call. -/
structure ChainLib (F S Det Tab Sync Dec : Type) where
  /-- Those of `pss`. -/
  pss : PssLib F S Det Tab
  /-- Those of `sss`. -/
  sss : SssLib S Sync
  /-- Those of `mib`. -/
  mib : MibLib S Dec

/-- The blocks of a chain and the half-frames between them. -/
structure Chain (F S Det Tab Sync Dec : Type) where
  /-- The `pss` block. -/
  pss : PssImpl F Det Tab
  /-- The `sss` block. -/
  sss : SssImpl Sync
  /-- The `mib` block. -/
  mib : MibImpl S Dec
  /-- The half-frames from `pss` that `sss` has not taken. -/
  toSss : List (Frame S)
  /-- The half-frames from `sss` that `mib` has not taken. -/
  toMib : List (Frame S)

/-- A tag of the chain's own input stream. -/
def Tag.Foreign (tag : Tag) : Prop := tag.key ∉ chainKeys

/-- What can happen to a chain. -/
inductive ChainEvent (F S : Type)
  /-- An event of `pss`. If a half-frame goes out, it carries the given foreign tags too. -/
  | pss (event : PssImpl.Event F S) (tags : List Tag) (foreign : ∀ tag ∈ tags, tag.Foreign)
  /-- A call of `sss`, whose output buffer holds `stale`. -/
  | sss (stale : HalfFrame S)
  /-- A call of `mib`, at the time `now`. A message object made in it is `fresh`. -/
  | mib (now : ℤ) (fresh : ℕ)

/-- What an event did. -/
inductive ChainWork (S : Type)
  /-- The work of `pss` and the half-frame it put on its output stream. -/
  | pss (work : Option (Work S)) (frame : Option (Frame S))
  /-- The half-frame that `sss` took and the one it put on its output stream. -/
  | sss (taken given : Frame S)
  /-- The half-frame that `mib` looked at, and its work. -/
  | mib (taken : Frame S) (work : MibWork S)

/-- Why an event did not happen. -/
inductive ChainError
  /-- A block threw. -/
  | thrown (e : Exception)
  /-- The block has no input. The scheduler does not call it then. -/
  | starved
  deriving DecidableEq, Repr

/-- The half-frame that a `pss` call puts on its output stream, with foreign tags. -/
def Emission.frame {S : Type} (e : Emission S) (tags : List Tag) : Frame S where
  samples := e.out
  tags := tags ++ if e.tagged then [⟨trackingLostTagKey, .nil⟩] else []

namespace Chain

variable {F S Det Tab Sync Dec : Type} [FloatOps F]

/-- A chain for one `N_id_2` whose `mib` does not exit on success, as constructed. The
uninitialised members of `mib` are as in its constructor. -/
def make (lib : ChainLib F S Det Tab Sync Dec) (nId2 : ℤ) (psrThreshold : F)
    (trackAfter trackEvery : ℤ) (mib : Dec) (phichLength : PhichLength)
    (phichResources : PhichResources) (sfnOffset : ℤ) :
    Except Exception (Chain F S Det Tab Sync Dec) :=
  match PssImpl.make lib.pss nId2 psrThreshold trackAfter trackEvery,
    SssImpl.make lib.sss nId2,
    MibImpl.make lib.mib false mib phichLength phichResources sfnOffset with
  -- the blocks are constructed in this order, and the first exception is thrown
  | .ok pss, .ok sss, .ok (mib, _) => .ok { pss, sss, mib, toSss := [], toMib := [] }
  | .error e, _, _ => .error e
  | _, .error e, _ => .error e
  | _, _, .error e => .error e

/-- One event. -/
def step [GnuRadio] (lib : ChainLib F S Det Tab Sync Dec) (c : Chain F S Det Tab Sync Dec) :
    ChainEvent F S → Except ChainError (Chain F S Det Tab Sync Dec × ChainWork S)
  | .pss event tags _ =>
    match PssImpl.step lib.pss c.pss event with
    | .error e => .error (.thrown e)
    | .ok (pss, work) =>
      let frame := (work.bind Work.emission).map (Emission.frame · tags)
      .ok ({ c with pss := pss, toSss := c.toSss ++ frame.toList }, .pss work frame)
  | .sss stale =>
    match c.toSss with
    | [] => .error .starved
    | frame :: toSss =>
      let (sss, w) := SssImpl.work lib.sss c.sss frame stale
      let given := SssImpl.outputFrame frame w
      .ok ({ c with sss := sss, toSss := toSss, toMib := c.toMib ++ [given] },
        .sss frame given)
  | .mib now fresh =>
    match c.toMib with
    | [] => .error .starved
    | frame :: _ =>
      match MibImpl.generalWork lib.mib c.mib ⟨frame, [], now, fresh⟩ with
      | .error e => .error (.thrown e)
      | .ok (mib, w) =>
        -- all that the call has consumed leaves the buffer
        .ok ({ c with mib := mib, toMib := c.toMib.drop (w.nconsume / halfFrameLength) },
          .mib frame w)

end Chain

/-- An srsLTE whose correlations are the given ones, and which finds the cell `cellId` in every
half-frame. -/
def ChainLib.playback (S : Type) (correlations : List (ℕ × ℤ)) (cellId : ℤ) :
    ChainLib ℤ S (List (ℕ × ℤ)) Unit Unit (List Bool) where
  pss := .playback S correlations
  sss := .playback S cellId
  mib := .playback S

/-- A chain over such an srsLTE, as constructed: the decoder has the given outcomes left. -/
def Chain.playback (S : Type) (correlations : List (ℕ × ℤ))
    (psrThreshold trackAfter trackEvery : ℤ) (outcomes : List Bool) :
    Chain ℤ S (List (ℕ × ℤ)) Unit Unit (List Bool) where
  pss := .playback correlations psrThreshold trackAfter trackEvery
  sss := ⟨(), 0, -1⟩
  mib := .playback S outcomes false
  toSss := []
  toMib := []

theorem Chain.make_playback (S : Type) (correlations : List (ℕ × ℤ)) (cellId : ℤ)
    (psrThreshold trackAfter trackEvery : ℤ) (outcomes : List Bool) :
    make (.playback S correlations cellId) 0 psrThreshold trackAfter trackEvery
        (true :: outcomes) .norm .r16 0 =
      .ok (.playback S correlations psrThreshold trackAfter trackEvery outcomes) := rfl

end LteTrigger
