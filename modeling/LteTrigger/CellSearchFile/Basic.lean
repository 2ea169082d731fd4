import LteTrigger.FlowGraph.ExitOnSuccess
import LteTrigger.Framing.Basic

/-!
# What `cell_search_file` reports

When the flow graph of `cell_search_file` has ended, `main` asks the store for its cells, prints
them and writes them to a FIFO, each text behind its length. The conversion of a cell to a Python
dictionary and that of a dictionary to a text are functions of `pmt` and `json`, which are
parameters here. The texts are ASCII, so a character is a byte.

## Main definitions

* `CellSearchFile.results`, `CellSearchFile.fifo`: the texts, and what is written;
* `CellSearchFile.readCell`: what a reader takes out of a dictionary.

## Main results

* `CellSearchFile.readCell_found`: a reported cell can be read back;
* `CellSearchFile.report_rows`: what the FIFO tells about the run of a flow graph.
-/

namespace LteTrigger

/-- A value in a Python dictionary. -/
inductive PyValue
  /-- A number. -/
  | int (n : ℤ)
  /-- A text. -/
  | str (s : String)
  deriving DecidableEq, Repr

/-- A Python dictionary. The order of its items does not matter. -/
abbrev PyDict := List (String × PyValue)

namespace PyDict

/-- `dict[key] = value`. -/
def setItem (dict : PyDict) (key : String) (value : PyValue) : PyDict :=
  (key, value) :: dict.filter (·.1 ≠ key)

/-- The number under a key. -/
def intAt (dict : PyDict) (key : String) : Option ℤ :=
  match dict.lookup key with
  | some (.int n) => some n
  | _ => none

/-- The text under a key. -/
def strAt (dict : PyDict) (key : String) : Option String :=
  match dict.lookup key with
  | some (.str s) => some s
  | _ => none

theorem lookup_setItem_self (dict : PyDict) (key : String) (value : PyValue) :
    (dict.setItem key value).lookup key = some value := by simp [setItem]

theorem lookup_setItem_of_ne (dict : PyDict) {key key' : String} (value : PyValue)
    (hne : key ≠ key') : (dict.setItem key' value).lookup key = dict.lookup key := by
  rw [setItem, List.lookup_cons, beq_eq_false_iff_ne.mpr hne]
  induction dict with
  | nil => rfl
  | cons item dict ih =>
    by_cases hkey : item.1 = key'
    · rw [List.filter_cons_of_neg (by simp [hkey]), ih, List.lookup_cons,
        beq_eq_false_iff_ne.mpr (by rwa [hkey])]
    · rw [List.filter_cons_of_pos (by simp [hkey]), List.lookup_cons, List.lookup_cons]
      cases key == item.1
      · exact ih
      · rfl

end PyDict

/-- The number or the symbol that `pmt.to_python` makes a value of. -/
def PyValue.pmt : PyValue → Pmt
  | .int n => .fromLong n
  | .str s => .intern s

/-- The dictionary to which numbers and symbols were added one after the other. -/
def PyDict.pmt [GnuRadio] (items : PyDict) : Pmt :=
  items.foldl (fun dict item => dictAdd dict (.intern item.1) item.2.pmt) makeDict

/-- The Python functions that `main` calls. -/
structure PyLib where
  /-- `pmt.to_python` of a dictionary. -/
  toPython : Pmt → PyDict
  /-- `json.dumps` with an indentation or without one. -/
  dumps : Option ℕ → PyDict → List Char

/-- `pmt.to_python` turns a dictionary of numbers and symbols under different keys into one that
has the same items. The empty dictionary is not one of them, for it is `PMT_NIL`. -/
def PyLib.KeepsItems [GnuRadio] (lib : PyLib) : Prop :=
  ∀ items : PyDict, items ≠ [] → (items.map Prod.fst).Nodup →
    ∀ key, (lib.toPython items.pmt).lookup key = items.lookup key

/-! ### Python functions for texts that need no escapes -/

/-- A value as `json.dumps` writes it. -/
def PyValue.text : PyValue → String
  | .int n => toString n
  | .str s => "\"" ++ s ++ "\""

/-- The value that a number or a symbol is made into. -/
def Pmt.pyValue : Pmt → Option PyValue
  | .integer n => some (.int n)
  | .symbol s => some (.str s)
  | _ => none

/-- The items of an association list of numbers and symbols, from the last one to the first. -/
def Pmt.items : Pmt → Option PyDict
  | .nil => some []
  | .pair (.pair (.symbol key) v) rest => do
    let value ← v.pyValue
    let items ← rest.items
    return (key, value) :: items
  | _ => none

/-- Python functions for dictionaries that are association lists, and for texts without quotes,
backslashes and control characters. -/
def PyLib.plain : PyLib where
  toPython d := (d.items.getD []).reverse
  dumps indent dict :=
    let items := dict.map fun (key, value) => "\"" ++ key ++ "\": " ++ value.text
    let (start, separator, stop) := match indent with
      | none => ("", ", ", "")
      | some n =>
        let line := "\n" ++ String.ofList (List.replicate n ' ')
        (line, ", " ++ line, "\n")
    ("\x7b" ++ start ++ separator.intercalate items ++ stop ++ "\x7d").toList

/-- A key that is not among the items of an association list is not found in it. -/
theorem Pmt.assv_of_items {key : String} {d : Pmt} {items : PyDict} (h : d.items = some items)
    (hkey : key ∉ items.map Prod.fst) : assv (.symbol key) d = .bool false := by
  induction d using Pmt.items.induct generalizing items with
  | case1 => rfl
  | case2 key' v rest ih =>
    simp only [Pmt.items, Option.bind_eq_bind, Option.bind_eq_some_iff, Option.pure_def,
      Option.some.injEq] at h
    obtain ⟨value, -, items', hrest, rfl⟩ := h
    rw [List.map_cons, List.mem_cons, not_or] at hkey
    rw [assv, if_neg (by simpa using hkey.1), ih hrest hkey.2]
  | case3 d hnil hpair =>
    rw [Pmt.items.eq_3 d hnil hpair] at h
    cases h

/-- An association list that was built from items under different keys has these items. -/
theorem PyDict.items_pmt {items : PyDict} (h : (items.map Prod.fst).Nodup) :
    items.pmt.items = some items.reverse := by
  induction items using List.reverseRecOn with
  | nil => rfl
  | append_singleton items item ih =>
    rw [List.map_append, List.nodup_append_comm, List.map_singleton, List.singleton_append,
      List.nodup_cons] at h
    have hitems := ih h.2
    have hnew : Pmt.assv (.symbol item.1) (PyDict.pmt items) = .bool false :=
      Pmt.assv_of_items hitems (by simpa using h.1)
    have hpmt : PyDict.pmt (items ++ [item]) =
        .pair (.pair (.symbol item.1) item.2.pmt) (PyDict.pmt items) := by
      rw [PyDict.pmt, List.foldl_append, ← PyDict.pmt]
      show Pmt.assvAdd (PyDict.pmt items) (.symbol item.1) item.2.pmt = _
      rw [Pmt.assvAdd, hnew]
    have hvalue : item.2.pmt.pyValue = some item.2 := by cases item.2 <;> rfl
    rw [hpmt, Pmt.items, hvalue, hitems, List.reverse_append]
    rfl

theorem PyLib.plain_keepsItems : PyLib.plain.KeepsItems := by
  intro items _ hnodup key
  simp [plain, PyDict.items_pmt hnodup]

namespace CellSearchFile

/-- The dictionary that is reported for a cell. -/
def found (lib : PyLib) (cell : PmtT) : PyDict :=
  (lib.toPython cell.val).setItem "status" (.str "FOUND")

/-- The dictionary that is reported when there is no cell. -/
def notFound : PyDict := [("status", .str "NOT_FOUND")]

/-- The texts that `main` prints when the flow graph has ended. -/
def results (lib : PyLib) (store : CellStore) : List (List Char) :=
  if store.tracking then store.cells.map fun cell => lib.dumps (some 4) (found lib cell)
  else [lib.dumps none notFound]

/-- What `main` writes to the FIFO. -/
def fifo (lib : PyLib) (store : CellStore) : List Char :=
  (results lib store).flatMap fun cell => Nat.toDigits 10 cell.length ++ '\n' :: cell

/-! ### What a reader takes out of a dictionary -/

/-- A cyclic prefix by its name. -/
def cpOfName : String → Option Cp
  | "Normal" => some .norm
  | "Extended" => some .ext
  | _ => none

/-- A PHICH length by its name. -/
def phichLengthOfName : String → Option PhichLength
  | "Normal" => some .norm
  | "Extended" => some .ext
  | _ => none

/-- A number of PHICH resources by its name. -/
def phichResourcesOfName : String → Option PhichResources
  | "1/6" => some .r16
  | "1/2" => some .r12
  | "1" => some .r1
  | "2" => some .r2
  | _ => none

/-- The cell in a dictionary that is reported, its frame number and the time it was found. -/
def readCell (dict : PyDict) : Option (SrslteCell × ℤ × ℤ) := do
  guard (dict.strAt "status" = some "FOUND")
  let cellId ← dict.intAt "cell_id"
  let nofTxPorts ← dict.intAt "nof_tx_ports"
  let cp ← (← dict.strAt "cp_len") |> cpOfName
  let nofPrb ← dict.intAt "nof_prb"
  let phichLength ← (← dict.strAt "phich_len") |> phichLengthOfName
  let phichResources ← (← dict.strAt "nof_phich_resources") |> phichResourcesOfName
  let sfnOffset ← dict.intAt "sfn_offset"
  let trackingStartTime ← dict.intAt "tracking_start_time"
  return (⟨nofPrb.toNat, nofTxPorts.toNat, cellId.toNat, cp, phichLength, phichResources⟩,
    sfnOffset, trackingStartTime)

/-- The name of a cyclic prefix in a cell that is packed. -/
def cpName : Cp → String
  | .norm => "Normal"
  | .ext => "Extended"

/-- The name of a PHICH length in a cell that is packed. -/
def phichLengthName : PhichLength → String
  | .norm => "Normal"
  | .ext => "Extended"

/-- The name of a number of PHICH resources in a cell that is packed. -/
def phichResourcesName : PhichResources → String
  | .r16 => "1/6"
  | .r12 => "1/2"
  | .r1 => "1"
  | .r2 => "2"

/-- The items of a cell that is packed. -/
def cellItems (cell : SrslteCell) (sfn now : ℤ) : PyDict :=
  [("cell_id", .int cell.id),
    ("nof_tx_ports", .int cell.nofPorts),
    ("cp_len", .str (cpName cell.cp)),
    ("nof_prb", .int cell.nofPrb),
    ("phich_len", .str (phichLengthName cell.phichLength)),
    ("nof_phich_resources", .str (phichResourcesName cell.phichResources)),
    ("sfn_offset", .int sfn),
    ("tracking_start_time", .int now)]

theorem pmt_cellItems [GnuRadio] (cell : SrslteCell) (sfn now : ℤ) :
    (cellItems cell sfn now).pmt = MibImpl.packCell cell sfn now := rfl

@[simp]
theorem cpOfName_cpName (cp : Cp) : cpOfName (cpName cp) = some cp := by cases cp <;> rfl

@[simp]
theorem phichLengthOfName_phichLengthName (length : PhichLength) :
    phichLengthOfName (phichLengthName length) = some length := by cases length <;> rfl

@[simp]
theorem phichResourcesOfName_phichResourcesName (resources : PhichResources) :
    phichResourcesOfName (phichResourcesName resources) = some resources := by
  cases resources <;> rfl

/-- The dictionary that is reported for a cell has its items and a status. -/
theorem lookup_found [GnuRadio] {lib : PyLib} (hlib : lib.KeepsItems) {p : PmtT}
    {cell : SrslteCell} {sfn now : ℤ} (hval : p.val = MibImpl.packCell cell sfn now) {key : String}
    (hne : key ≠ "status") : (found lib p).lookup key = (cellItems cell sfn now).lookup key := by
  rw [found, PyDict.lookup_setItem_of_ne _ _ hne, hval, ← pmt_cellItems]
  exact hlib _ (List.cons_ne_nil _ _) (by simp) key

/-- A cell is read back from the dictionary that is reported for it: nothing of the cell, its
frame number or the time is lost in it, and two cells that differ are told apart. -/
theorem readCell_found [GnuRadio] {lib : PyLib} (hlib : lib.KeepsItems) {p : PmtT}
    {cell : SrslteCell} {sfn now : ℤ} (hval : p.val = MibImpl.packCell cell sfn now) :
    readCell (found lib p) = some (cell, sfn, now) := by
  have hstatus : (found lib p).lookup "status" = some (.str "FOUND") :=
    PyDict.lookup_setItem_self _ _ _
  have hlookup {key : String} (hne : key ≠ "status") := lookup_found hlib hval hne
  simp (disch := decide) only [readCell, PyDict.intAt, PyDict.strAt, hstatus, hlookup, cellItems]
  simp [List.lookup_cons]

/-- A cell of 50 resource blocks and two ports. -/
theorem readCell_found_plain :
    readCell (found .plain ⟨1, MibImpl.packCell ⟨50, 2, 369, .norm, .norm, .r1⟩ 7 1464123775⟩) =
      some (⟨50, 2, 369, .norm, .norm, .r1⟩, 7, 1464123775) :=
  readCell_found PyLib.plain_keepsItems rfl

/-- What is written is read. -/
theorem read_fifo (lib : PyLib) (store : CellStore) :
    Framing.read (fifo lib store) = (results lib store, []) := Framing.read_frames _

/-- A reader that has got `n` characters of the FIFO has read some of the first texts that `main`
has printed, as they are, although they contain line breaks. It has got no more than these and a
part of the next one, and it has read every text that was written completely. -/
theorem read_fifo_take (lib : PyLib) (store : CellStore) (n : ℕ) :
    (Framing.read ((fifo lib store).take n)).1 <+: results lib store ∧
    Framing.frames (Framing.read ((fifo lib store).take n)).1 ++
      (Framing.read ((fifo lib store).take n)).2 = (fifo lib store).take n ∧
    ∀ k, (Framing.frames ((results lib store).take k)).length ≤ n →
      (results lib store).take k <+: (Framing.read ((fifo lib store).take n)).1 := by
  obtain ⟨hread, hrest, hwhole⟩ :=
    @Framing.read_of_part _ (results lib store) (List.take_prefix n (fifo lib store))
  refine ⟨hread, hrest, fun k hk => hwhole _ (List.take_prefix _ _) ?_⟩
  refine List.prefix_take_iff.mpr ⟨?_, hk⟩
  -- the texts that were written are the first ones
  have hfifo : fifo lib store = Framing.frames ((results lib store).take k) ++
      Framing.frames ((results lib store).drop k) := by
    rw [← Framing.frames_append, List.take_append_drop]
    rfl
  rw [hfifo]
  exact List.prefix_append _ _

section Runs

variable {D F S Det Tab Sync Dec : Type} [FloatOps D] [FloatOps F]
  {lib : TriggerLib D F S Det Tab Sync Dec} {psrThreshold : D}
  {memory : Fin 3 → MibMemory Dec} {trigger : DownlinkTrigger D F S Det Tab Sync Dec}
  {g : FlowGraph D F S Det Tab Sync Dec}
  {tr : List (FlowGraph.Transition D F S Det Tab Sync Dec)} {py : PyLib}

/-- A dictionary tells of a cell with the given `N_id_2`. -/
def Tells (nId2 : ℤ) (dict : PyDict) : Prop :=
  ∃ cell sfn now, readCell dict = some (cell, sfn, now) ∧ IsIdentity nId2 cell.id

/-- The dictionary that is reported for the cell of a row tells of it. -/
theorem tells_found [GnuRadio] (hpy : py.KeepsItems) (members : SyncMembers lib.sss)
    (hmake : DownlinkTrigger.make lib psrThreshold true memory = .ok trigger)
    (hrun : Machine.Run (FlowGraph.step lib) (.make trigger) tr g) {i : Fin 3} {p : PmtT}
    (hheld : (g.trigger.rows i).mib.held = some p) : Tells (i : ℕ) (found py p) := by
  obtain ⟨t, ht, call, hpublishes⟩ := FlowGraph.publishes_of_held hmake hrun hheld
  obtain ⟨cell, sfn, hval⟩ := FlowGraph.packed_of_published hrun ht hpublishes
  obtain ⟨cellId, hid, hcellId⟩ :=
    FlowGraph.identity_of_published members hmake hrun ht hpublishes
  refine ⟨cell, sfn, call.now, readCell_found hpy hval, ?_⟩
  -- the store reads the identity that was packed
  rw [PmtT.cellId, hval, CellStore.packCell_cellId, toLong_fromLong] at hcellId
  rwa [Except.ok.inj hcellId]

/-- What the FIFO tells about the run of a flow graph. Its reader gets one text for each cell in
the store, or one that there is none. The texts are those of dictionaries that tell of cells of
different rows, each with an identity of its row, and only of rows that are done. Once nothing
waits at the store, all rows that are done are among them. -/
theorem report_rows [GnuRadio] (hpy : py.KeepsItems) (members : SyncMembers lib.sss)
    (hmake : DownlinkTrigger.make lib psrThreshold true memory = .ok trigger)
    (hrun : Machine.Run (FlowGraph.step lib) (.make trigger) tr g) :
    Framing.read (fifo py g.store) =
      (if g.store.cells = [] then [py.dumps none notFound]
        else (g.store.cells.map (found py)).map (py.dumps (some 4)), []) ∧
    ∃ rows : List (Fin 3),
      List.Forall₂ (fun dict (i : Fin 3) => Tells (i : ℕ) dict) (g.store.cells.map (found py))
        rows ∧
      rows.Nodup ∧
      (∀ i ∈ rows, (g.trigger.rows i).done = true) ∧
      (g.queue .track = [] → ∀ i, (g.trigger.rows i).done = true → i ∈ rows) := by
  obtain ⟨rows, hnodup, hcells, hall⟩ := FlowGraph.exists_rows_of_cells hmake hrun
  have hdone (i : Fin 3) := (FlowGraph.exitsOnSuccess_run hmake hrun i).done_iff
  refine ⟨?_, rows, ?_, hnodup, fun i hi => ?_,
    fun hquiet i hi => hall hquiet i ((hdone i).mp hi)⟩
  · rw [read_fifo, results, CellStore.tracking]
    cases g.store.cells <;> simp
  · rw [List.forall₂_map_left_iff]
    exact hcells.imp fun p i => tells_found hpy members hmake hrun
  · obtain ⟨n, hn⟩ := List.mem_iff_getElem?.mp hi
    obtain ⟨p, -, hp⟩ := Machine.forall₂_getElem? hcells hn
    exact (hdone i).mpr (by simp [hp])

/-- A run in which one row finds a cell. -/
theorem report_rows_playback :
    ∃ tr g, Machine.Run (FlowGraph.step (.playback Unit (List.replicate 16 (960, 5)) 7))
        (.make (.playback Unit (List.replicate 16 (960, 5)) 4 true [true, true])) tr g ∧
      g.queue .track = [] ∧ (g.trigger.rows 2).done = true ∧
      Framing.read (fifo .plain g.store) =
        (if g.store.cells = [] then [PyLib.plain.dumps none notFound]
          else (g.store.cells.map (found .plain)).map (PyLib.plain.dumps (some 4)), []) ∧
      ∃ rows : List (Fin 3),
        List.Forall₂ (fun dict (i : Fin 3) => Tells (i : ℕ) dict)
          (g.store.cells.map (found .plain)) rows ∧ 2 ∈ rows := by
  have hexec : Machine.exec (FlowGraph.step (.playback Unit (List.replicate 16 (960, 5)) 7))
      (.make (.playback Unit (List.replicate 16 (960, 5)) 4 true [true, true]))
      ((DownlinkTrigger.acquisition 2).map .trigger ++
        [.trigger (.mib 2 0 0 0), .deliver .track]) = some (_, _) := rfl
  have hrun := Machine.Run.of_exec hexec
  obtain ⟨hread, rows, htells, -, -, hall⟩ :=
    report_rows PyLib.plain_keepsItems (.ofNId1 Unit (by decide))
      (DownlinkTrigger.make_playback Unit _ 7 4 true _) hrun
  exact ⟨_, _, hrun, rfl, rfl, hread, rows, htells, hall rfl 2 rfl⟩

end Runs

end CellSearchFile

end LteTrigger
