import LteTrigger.Mib.Step

/-!
# The parameters of a MIB search

`d_cell` is both the configuration of the search and the place where the decoded block is
unpacked. A search is meant to run on 6 resource blocks with the number of ports left open.
What `d_cell` holds at a re-initialisation is what the decoder last wrote into it
(`leftInCell_of_run`), so the search parameters are right exactly when that was 6 and 0.

## Main results

* `search_params_iff`: when every search of a run gets the constructor's parameters;
* `second_search_contaminated`: a cell found and lost spoils the next search.
-/

namespace LteTrigger

section LibCall

variable {S : Type}

/-- A call that searches for a block under the conditions the constructor sets up. -/
def LibCall.SearchesAfresh : LibCall S → Prop
  | .ueMibInit _ nofPrb _ => nofPrb = srslteUeMibNofPrb
  | .ueMibSetCell cell => cell.nofPrb = srslteUeMibNofPrb ∧ cell.nofPorts = 0
  | _ => True

/-- What a call writes into the resource blocks and the ports of the cell it is given. -/
def LibCall.writeCell : ℕ × ℕ → LibCall S → ℕ × ℕ
  | (_, nofPorts), .pbchMibUnpack nofPrb => (nofPrb, nofPorts)
  | (nofPrb, _), .ueMibDecode _ _ nofPorts => (nofPrb, nofPorts)
  | params, _ => params

/-- The resource blocks and ports that the calls of a log leave in a cell that has the
constructor's: those that were written last. -/
def leftInCell (calls : List (LibCall S)) : ℕ × ℕ :=
  calls.foldl LibCall.writeCell (srslteUeMibNofPrb, 0)

end LibCall

namespace MibImpl

variable {S Dec : Type} {lib : MibLib S Dec} {s s' s₀ : MibImpl S Dec} {c : MibCall S}
  {w : MibWork S}

/-- The log of a call says what it leaves in the cell. -/
theorem generalWork_writeCell [GnuRadio] (h : generalWork lib s c = .ok (s', w)) :
    w.calls.foldl LibCall.writeCell (s.cell.nofPrb, s.cell.nofPorts) =
      (s'.cell.nofPrb, s'.cell.nofPorts) := by
  have hreinit (addr : ℕ) (cell : SrslteCell) (ok : Bool) (params : ℕ × ℕ) :
      (reinitCalls (S := S) addr s.cell.nofPrb cell ok).foldl LibCall.writeCell params =
        params := by
    cases ok <;> rfl
  have hdecode (addr : ℕ) (samples : List (HalfFrame S)) (nofPorts : ℕ)
      (unpacked : Option ℕ) (params : ℕ × ℕ) :
      (decodeCalls addr samples nofPorts unpacked).foldl LibCall.writeCell params =
        (unpacked.getD params.1, nofPorts) := by
    cases unpacked <;> rfl
  rcases generalWork_calls h with
    ⟨-, hcell, hcalls⟩ |
    ⟨cellId, cp, -, -, -,
      ⟨-, -, hcalls, hprb, hports⟩ | ⟨reinits, unpacked, hcalls, hprb, hreinits⟩⟩
  · rw [hcell]
    -- a reset writes nothing
    clear h
    generalize w.calls = calls at hcalls
    induction calls with
    | nil => rfl
    | cons e calls ih =>
      rw [List.foldl_cons, hcalls e (by simp)]
      exact ih fun e' he' => hcalls e' (by simp [he'])
  · -- a failed re-initialisation writes nothing either
    rw [hcalls, hreinit, hprb, hports]
  · -- only the decoding attempt writes
    rw [hcalls, List.foldl_append, hprb]
    rcases hreinits with ⟨-, -, rfl⟩ | ⟨-, -, rfl⟩
    · rw [List.foldl_nil, hdecode]
    · rw [hreinit, hdecode]

/-- The calls of one `general_work` search afresh exactly when a re-initialisation finds the
constructor's parameters in the cell. The ports matter only if it succeeds. -/
theorem generalWork_searchesAfresh [GnuRadio] (h : generalWork lib s c = .ok (s', w)) :
    (∀ e ∈ w.calls, e.SearchesAfresh) ↔
      (s.Reinits c → s.cell.nofPrb = srslteUeMibNofPrb ∧
        (InitSucceeds lib s → s.cell.nofPorts = 0)) := by
  have hdecode (addr : ℕ) (samples : List (HalfFrame S)) (nofPorts : ℕ) (unpacked : Option ℕ) :
      ∀ e ∈ decodeCalls addr samples nofPorts unpacked, e.SearchesAfresh := by
    cases unpacked <;> simp [decodeCalls, LibCall.SearchesAfresh]
  rcases generalWork_calls h with
    ⟨hnone, -, hcalls⟩ |
    ⟨cellId, cp, hsearched, -, -,
      ⟨hchanged, hstatus, hcalls, -, -⟩ | ⟨reinits, unpacked, hcalls, -, hreinits⟩⟩
  · -- nothing is initialised, and nothing is asked of the cell
    refine iff_of_true (fun e he => ?_) fun hreinit => ?_
    · rw [hcalls e he]
      trivial
    · exact absurd hreinit (not_reinits_of_not_searched hnone)
  · -- the initialisation fails, so no cell is set
    have hreinit : s.Reinits c := (reinits_iff_of_searched hsearched).mpr hchanged
    rw [hcalls]
    simp only [reinitCalls, Bool.false_eq_true, ↓reduceIte, List.append_nil, List.mem_cons,
      List.not_mem_nil, or_false, forall_eq_or_imp, forall_eq, LibCall.SearchesAfresh, true_and,
      hreinit, true_imp_iff]
    exact ⟨fun hprb => ⟨hprb, fun hok => absurd hok hstatus⟩, And.left⟩
  · rw [hcalls]
    rcases hreinits with ⟨hid, hcp, rfl⟩ | ⟨hchanged, hstatus, rfl⟩
    · -- the cell is cached: only the decoding attempt is made
      refine iff_of_true (hdecode _ _ _ _) fun hreinit => ?_
      rw [reinits_iff_of_searched hsearched] at hreinit
      exact (hreinit.elim (· hid) (· hcp)).elim
    · -- the cell is set with what `d_cell` holds
      have hreinit : s.Reinits c := (reinits_iff_of_searched hsearched).mpr hchanged
      have hmem : (∀ e ∈ reinitCalls s'.sfBuffer.addr s.cell.nofPrb
            { s.cell with id := cellId, cp := cp } true ++
            decodeCalls s'.sfBuffer.addr c.v s'.cell.nofPorts unpacked, e.SearchesAfresh) ↔
          s.cell.nofPrb = srslteUeMibNofPrb ∧ s.cell.nofPorts = 0 := by
        rw [List.forall_mem_append, and_iff_left (hdecode _ _ _ _)]
        simp [reinitCalls, LibCall.SearchesAfresh]
      rw [hmem]
      simp only [hreinit, hstatus, true_imp_iff]

/-- A constructed block has the constructor's parameters in its cell. -/
theorem make_cell {exitOnSuccess : Bool} {mib : Dec} {phichLength : PhichLength}
    {phichResources : PhichResources} {sfnOffset : ℤ} {calls : List (LibCall S)}
    (hmake : make lib exitOnSuccess mib phichLength phichResources sfnOffset = .ok (s, calls)) :
    s.cell.nofPrb = srslteUeMibNofPrb ∧ s.cell.nofPorts = 0 ∧ s.cell.id = 0 ∧
      s.cell.cp = .norm ∧ ∃ addr, calls = [.ueMibInit addr srslteUeMibNofPrb true] := by
  obtain ⟨rfl, hcalls⟩ := make_eq hmake
  exact ⟨rfl, rfl, rfl, rfl, _, hcalls⟩

section Runs

variable {tr : List (Machine.Transition (MibImpl S Dec) (MibCall S) (MibWork S))}

/-- The cell holds what the decoder last wrote into it. -/
theorem leftInCell_of_run [GnuRadio] (hprb : s₀.cell.nofPrb = srslteUeMibNofPrb)
    (hports : s₀.cell.nofPorts = 0) (hrun : Machine.Run (generalWork lib) s₀ tr s) :
    leftInCell (libCalls tr) = (s.cell.nofPrb, s.cell.nofPorts) := by
  induction hrun with
  | nil => rw [hprb, hports]; rfl
  | snoc _ hstep ih =>
    rw [libCalls_append, leftInCell, List.foldl_append, ← leftInCell, ih,
      ← generalWork_writeCell hstep]
    simp [libCalls]

/-- Whenever the block re-initialises the decoder in a trace, the last block unpacked before
was for 6 resource blocks, if there was one, and unless the initialisation fails, the last
attempt to decode left the ports at 0, if there was one. -/
def SearchesClean [GnuRadio] (lib : MibLib S Dec)
    (tr : List (Machine.Transition (MibImpl S Dec) (MibCall S) (MibWork S))) : Prop :=
  ∀ tr₁ t tr₂, tr = tr₁ ++ t :: tr₂ → t.pre.Reinits t.input →
    (leftInCell (libCalls tr₁)).1 = srslteUeMibNofPrb ∧
      (InitSucceeds lib t.pre → (leftInCell (libCalls tr₁)).2 = 0)

/-- All searches of a run, from construction on, use the constructor's parameters exactly when
the decoder wrote nothing else into the cell before each re-initialisation. -/
theorem search_params_iff [GnuRadio] {exitOnSuccess : Bool} {mib : Dec}
    {phichLength : PhichLength} {phichResources : PhichResources} {sfnOffset : ℤ}
    {calls : List (LibCall S)}
    (hmake : make lib exitOnSuccess mib phichLength phichResources sfnOffset = .ok (s₀, calls))
    (hrun : Machine.Run (generalWork lib) s₀ tr s) :
    (∀ e ∈ calls ++ libCalls tr, e.SearchesAfresh) ↔ SearchesClean lib tr := by
  obtain ⟨hprb, hports, -, -, addr, rfl⟩ := make_cell hmake
  have hfirst : ∀ e ∈ [LibCall.ueMibInit (S := S) addr srslteUeMibNofPrb true],
      e.SearchesAfresh := by
    simp [LibCall.SearchesAfresh]
  rw [List.forall_mem_append, and_iff_right hfirst, libCalls,
    Machine.forall_mem_flatMap_iff_atEach]
  -- what each transition needs, in terms of the log before it
  refine hrun.atEach_iff fun tr t hpre hstep _ => ?_
  rw [leftInCell_of_run hprb hports hpre]
  exact generalWork_searchesAfresh hstep

/-- An srsLTE that finds blocks for six resource blocks and no ports, as the constructor has it. -/
def sixBlocks : MibLib Unit (List Bool) :=
  { MibLib.playback Unit with
    ueMibDecode mib _ bchPayload _ sfnOffset :=
      ⟨if mib.headD false then srslteUeMibFound else 0, bchPayload, 0, sfnOffset, mib.tail⟩
    pbchMibUnpack _ := ⟨srslteUeMibNofPrb, .norm, .r1, 0⟩ }

/-- A cell of six resource blocks is found and lost. The next cell is searched for under the
constructor's parameters. -/
theorem search_params_playback :
    ∃ tr s, Machine.Run (generalWork sixBlocks)
        (.playback Unit [true, true, true, false] false) tr s ∧ tr.length = 3 ∧
      .ueMibSetCell ⟨6, 0, 2, .norm, .norm, .r1⟩ ∈ libCalls tr ∧
      ∀ e ∈ [.ueMibInit 0 srslteUeMibNofPrb true] ++ libCalls tr, e.SearchesAfresh := by
  let found : MibCall Unit := ⟨.ofCell (fun _ => ()) 1 true, [], 0, 1⟩
  let lost : MibCall Unit := ⟨.trackingLost fun _ => (), [], 0, 2⟩
  let next : MibCall Unit := ⟨.ofCell (fun _ => ()) 2 true, [], 0, 3⟩
  have hrun : Machine.Run (generalWork sixBlocks)
      (.playback Unit [true, true, true, false] false) _ _ :=
    .snoc (i := next) (.snoc (i := lost) (.snoc (i := found) .nil rfl) rfl) rfl
  have hmake : make sixBlocks false (true :: [true, true, true, false]) .norm .r16 0 =
      .ok (.playback Unit [true, true, true, false] false,
        [.ueMibInit 0 srslteUeMibNofPrb true]) := rfl
  -- the tenth library call sets the second cell
  refine ⟨_, _, hrun, rfl, List.mem_iff_getElem?.mpr ⟨9, rfl⟩,
    (search_params_iff hmake hrun).mpr (((Machine.atEach_nil.snoc ?_).snoc ?_).snoc ?_)⟩
  -- before each of the three calls the cell has the constructor's parameters
  all_goals exact fun _ => ⟨rfl, fun _ => rfl⟩

/-- After a cell of 50 resource blocks and two ports was found and lost, the next cell is
searched for with its parameters. -/
theorem second_search_contaminated :
    ¬ ∀ (outcomes : List Bool) tr s, Machine.Run (generalWork (.playback Unit))
      (.playback Unit outcomes false) tr s → ∀ e ∈ libCalls tr, e.SearchesAfresh := by
  intro h
  let found : MibCall Unit := ⟨.ofCell (fun _ => ()) 1 true, [], 0, 1⟩
  let lost : MibCall Unit := ⟨.trackingLost fun _ => (), [], 0, 2⟩
  let next : MibCall Unit := ⟨.ofCell (fun _ => ()) 2 true, [], 0, 3⟩
  have hrun : Machine.Run (generalWork (.playback Unit))
      (.playback Unit [true, true, true, false] false) _ _ :=
    .snoc (i := next) (.snoc (i := lost) (.snoc (i := found) .nil rfl) rfl) rfl
  -- the tenth library call sets the second cell
  have hafresh := h _ _ _ hrun (.ueMibSetCell ⟨50, 2, 2, .norm, .norm, .r1⟩)
    (List.mem_iff_getElem?.mpr ⟨9, rfl⟩)
  exact absurd hafresh.1 (by decide)

end Runs

end MibImpl

end LteTrigger
