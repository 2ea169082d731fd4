import LteTrigger.Mib.Basic
import LteTrigger.Registry.Basic

/-!
# The `cellstore` block

The state of `cellstore_impl` and its functions, from `lib/cellstore_impl.{h,cc}`. The message
handlers `track_cell` and `drop_cell` lock the mutex of the block for as long as they touch the
list, so each of them is one step.

## Main definitions

* `CellStore.trackCell`, `CellStore.dropCell`: the message handlers;
* `CellStore.tracking`, `CellStore.latestCell`: what the store tells about its cells.

## Main results

* `CellStore.trackCell_eq`: the messages that are refused;
* `CellStore.handle_cells`: handled messages are operations on a registry of objects.
-/

namespace LteTrigger

/-- `cell_id_key`. -/
def cellIdKey : Pmt := .intern "cell_id"

/-- `bad_cell_id_val`. -/
def badCellIdVal : Pmt := .fromLong 1000

/-- The identity that the store reads in a message. -/
def PmtT.cellId [GnuRadio] (msg : PmtT) : Except Exception ℤ :=
  toLong (dictRef msg.val cellIdKey badCellIdVal)

/-- The members of `cellstore_impl`. -/
structure CellStore where
  /-- `d_cells`, which `cells` returns a copy of. -/
  cells : List PmtT
  deriving DecidableEq, Repr

namespace CellStore

/-- The constructor `cellstore_impl::cellstore_impl`. -/
def make : CellStore := { cells := [] }

/-- `tracking`. -/
def tracking (s : CellStore) : Bool := !s.cells.isEmpty

/-- `latest_cell`. -/
def latestCell (s : CellStore) : PmtT := s.cells.getLast?.getD .nil

/-- `track_cell`. -/
def trackCell [GnuRadio] (s : CellStore) (msg : PmtT) : Except Exception CellStore :=
  match toLong (dictRef msg.val cellIdKey badCellIdVal) with
  | .error e => .error e
  | .ok cellId =>
    -- the default of the lookup stands for a message without the key
    if .ok cellId = toLong badCellIdVal then
      .error (.runtimeError "Error tracking cell: bad message format")
    else .ok { s with cells := s.cells ++ [msg] }

/-- `drop_cell`. The list is searched for the object, not for equal values. -/
def dropCell (s : CellStore) (msg : PmtT) : CellStore :=
  { s with cells := s.cells.filter (·.ref ≠ msg.ref) }

/-- The handler of a message. -/
def handle [GnuRadio] (s : CellStore) (msg : Message) : Except Exception CellStore :=
  match msg.port with
  | .track => s.trackCell msg.payload
  | .drop => .ok (s.dropCell msg.payload)

end CellStore

/-- What a message asks of a registry of objects. -/
def Message.op (msg : Message) : Registry.Op PmtT ℕ :=
  match msg.port with
  | .track => .add msg.payload
  | .drop => .remove msg.payload.ref

namespace CellStore

variable [GnuRadio]

/-- A message is appended unless its identity is no integer or is that of `badCellIdVal`. -/
theorem trackCell_eq (s : CellStore) (msg : PmtT) :
    s.trackCell msg =
      match msg.cellId with
      | .error e => .error e
      | .ok n =>
        if n = 1000 then .error (.runtimeError "Error tracking cell: bad message format")
        else .ok { s with cells := s.cells ++ [msg] } := by
  have hbad (n : ℤ) : (.ok n : Except Exception ℤ) = toLong badCellIdVal ↔ n = 1000 := by
    rw [badCellIdVal, toLong_fromLong, Except.ok.injEq]
  simp only [trackCell, PmtT.cellId, hbad]

/-- A message that is tracked is appended. -/
theorem trackCell_cells {s s' : CellStore} {msg : PmtT} (h : s.trackCell msg = .ok s') :
    s'.cells = s.cells ++ [msg] := by
  rw [trackCell_eq] at h
  split at h
  · cases h
  · split at h
    · cases h
    · rw [← Except.ok.inj h]

/-- A message that is tracked has an identity, which is not that of `badCellIdVal`. -/
theorem cellId_of_trackCell {s s' : CellStore} {msg : PmtT} (h : s.trackCell msg = .ok s') :
    ∃ n, msg.cellId = .ok n ∧ n ≠ 1000 := by
  rw [trackCell_eq] at h
  split at h
  · cases h
  · rename_i n hn
    split at h
    · cases h
    · rename_i hne
      exact ⟨n, hn, hne⟩

/-- What a `mib` block packs has the identity of the cell under `cell_id`. -/
theorem packCell_cellId (cell : SrslteCell) (sfn now : ℤ) (notFound : Pmt) :
    dictRef (MibImpl.packCell cell sfn now) cellIdKey notFound = .fromLong cell.id := by
  -- the other seven entries were added later, under other keys
  simp (disch := decide) only [MibImpl.packCell, cellIdKey, dictRef_dictAdd_of_ne]
  exact dictRef_dictAdd_self _ _ _ _

/-- A handled message is an operation on the registry of the objects stored. -/
theorem handle_cells {s s' : CellStore} {msg : Message} (h : s.handle msg = .ok s') :
    s'.cells = Registry.apply PmtT.ref s.cells msg.op := by
  obtain ⟨port, payload⟩ := msg
  cases port with
  | track => exact trackCell_cells h
  | drop =>
    obtain rfl : s.dropCell payload = s' := Except.ok.inj h
    rfl

end CellStore

end LteTrigger
