import LteTrigger.FlowGraph.Consistency

/-!
# Flow graphs that exit on success

`cell_search_file` constructs its trigger with `exit_on_success`. A `mib` block is then done with
the first cell that it finds, so it never drops one. The store only gains cells, one for each row
that is done, and nothing that the scheduler decides can take one away.

## Main definitions

* `Row.ExitsOnSuccess`: a row whose `mib` is done once it holds a cell.

## Main results

* `Row.exitsOnSuccess_run`: this is so in every run of a row;
* `FlowGraph.exit_on_success`: what the store of the flow graph holds, at any time.
-/

namespace LteTrigger

/-- What is made of the items of a list, next to those of which something is made. -/
theorem forall₂_filterMap_filter {α β : Type} (f : α → Option β) (l : List α) :
    List.Forall₂ (fun b a => f a = some b) (l.filterMap f) (l.filter fun a => (f a).isSome) := by
  induction l with
  | nil => exact .nil
  | cons a l ih =>
    cases ha : f a with
    | none => rwa [List.filterMap_cons_none ha, List.filter_cons_of_neg (by simp [ha])]
    | some b =>
      rw [List.filterMap_cons_some ha, List.filter_cons_of_pos (by simp [ha])]
      exact .cons ha ih

namespace Row

variable [GnuRadio] {F S Det Tab Sync Dec : Type} [FloatOps F]
  {lib : ChainLib F S Det Tab Sync Dec} {r r' r₀ : Row F S Det Tab Sync Dec}
  {tr : List (Transition F S Det Tab Sync Dec)} {e : RowEvent F S} {o : RowWork S}

/-- Between two events of a row that exits on success: its `mib` is done exactly if it holds a
cell. -/
structure ExitsOnSuccess (r : Row F S Det Tab Sync Dec) : Prop where
  exitOnSuccess : r.mib.exitOnSuccess = true
  settled : r.mib.Settled
  done_iff : r.done = true ↔ r.mib.held ≠ none

omit [FloatOps F] in
/-- A call of `mib` in such a row publishes nothing, and the row is not done, or it publishes a
cell, and the row is done. -/
theorem ExitsOnSuccess.mib (h : ExitsOnSuccess r) (hdone : r.done = false) {call : MibCall S}
    {mib : MibImpl S Dec} {w : MibWork S}
    (hw : MibImpl.generalWork lib.mib r.mib call = .ok (mib, w)) :
    mib.Settled ∧
      ((w.msgs = [] ∧ mib.held = none ∧ w.ret ≠ workDone) ∨
      ∃ p, w.msgs = [⟨.track, p⟩] ∧ mib.held = some p ∧ w.ret = workDone) := by
  -- the row is not done, so nothing is held and nothing can be dropped
  have hnone : r.mib.held = none := by
    by_contra hheld
    rw [h.done_iff.mpr hheld] at hdone
    cases hdone
  obtain ⟨hsettled, hmsgs⟩ := MibImpl.generalWork_msgs hw h.settled
  refine ⟨hsettled, ?_⟩
  rcases hmsgs with ⟨hquiet, hheld⟩ | ⟨p, hheld, -⟩ | ⟨p, -, htrack, hheld, -⟩
  · refine .inl ⟨hquiet, hheld.trans hnone, fun hret => ?_⟩
    rcases MibImpl.generalWork_consumes hw with ⟨-, ⟨p, hp⟩, -⟩ | ⟨hnonneg, -⟩
    · rw [hquiet] at hp
      cases hp
    · rw [hret] at hnonneg
      exact absurd hnonneg (by decide)
  · rw [hnone] at hheld
    cases hheld
  · refine .inr ⟨p, htrack, hheld, ?_⟩
    rcases MibImpl.generalWork_consumes hw with ⟨-, -, -, hret⟩ | ⟨-, hsilent, -⟩
    · exact hret
    · refine absurd ?_ (hsilent h.exitOnSuccess p)
      rw [htrack]
      exact List.mem_singleton_self _

/-- Every event keeps this. -/
theorem ExitsOnSuccess.step (h : ExitsOnSuccess r) (hstep : step lib r e = .ok (r', o)) :
    ExitsOnSuccess r' := by
  rcases step_cases hstep with
    ⟨_, _, _, _, -, -, -, hr⟩ | ⟨_, _, _, -, -, -, hr⟩ |
    ⟨more, now, fresh, first, rest, w, -, -, hdone, -, hw, -, hr⟩
  · rw [hr]
    exact ⟨h.exitOnSuccess, h.settled, h.done_iff⟩
  · rw [hr]
    exact ⟨h.exitOnSuccess, h.settled, h.done_iff⟩
  · obtain ⟨hsettled, hmib⟩ := h.mib hdone hw
    refine ⟨(MibImpl.generalWork_exitOnSuccess hw).trans h.exitOnSuccess, hsettled, ?_⟩
    rw [show r'.done = decide (w.ret = workDone) from congrArg (fun r => r.done) hr,
      decide_eq_true_iff]
    rcases hmib with ⟨-, hheld, hret⟩ | ⟨p, -, hheld, hret⟩
    · simp [hheld, hret]
    · simp [hheld, hret]

/-- In every run a row that exits on success is done exactly if it holds a cell. -/
theorem exitsOnSuccess_run (h : ExitsOnSuccess r₀) (hrun : Machine.Run (Row.step lib) r₀ tr r) :
    ExitsOnSuccess r :=
  hrun.invariant h fun _ _ _ _ h hstep => h.step hstep

end Row

namespace FlowGraph

variable {D F S Det Tab Sync Dec : Type} [FloatOps D] [FloatOps F]
  {lib : TriggerLib D F S Det Tab Sync Dec} {psrThreshold : D}
  {memory : Fin 3 → MibMemory Dec} {trigger : DownlinkTrigger D F S Det Tab Sync Dec}
  {g : FlowGraph D F S Det Tab Sync Dec} {tr : List (Transition D F S Det Tab Sync Dec)}
  {m : Message}

/-- Each row of a flow graph is done exactly if it holds a cell. -/
theorem exitsOnSuccess_run [GnuRadio]
    (hmake : DownlinkTrigger.make lib psrThreshold true memory = .ok trigger)
    (hrun : Machine.Run (step lib) (make trigger) tr g) (i : Fin 3) :
    (g.trigger.rows i).ExitsOnSuccess := by
  refine Row.exitsOnSuccess_run ?_ (row_run hrun i)
  obtain ⟨hexit, hnone, hsettled⟩ := mib_made hmake i
  obtain ⟨-, -, hrows⟩ := DownlinkTrigger.make_rows hmake
  obtain ⟨pss, sss, mib, calls, hrow, -⟩ := hrows i
  refine ⟨hexit, hsettled, iff_of_false ?_ (by simp [hnone])⟩
  rw [hrow]
  exact Bool.false_ne_true

/-- Nothing is published but cells that are found. -/
theorem track_of_published [GnuRadio]
    (hmake : DownlinkTrigger.make lib psrThreshold true memory = .ok trigger)
    (hrun : Machine.Run (step lib) (make trigger) tr g) (hm : m ∈ published tr) :
    m.port = .track := by
  obtain ⟨tr₁, t, tr₂, i, call, rfl, hpublishes⟩ := publishes_of_mem hm
  obtain ⟨hpre, hstep, -⟩ := hrun.at_transition
  obtain ⟨event, w, hu, hmem⟩ := rowPart_of_publishes hstep hpublishes
  obtain ⟨-, -, hrow⟩ := (isPart_row lib i).of_eq_some hstep hu
  -- the event is a call of `mib` in a row that is not done
  rcases Row.step_cases hrow with
    ⟨_, _, _, _, -, -, ho, -⟩ | ⟨_, _, _, -, -, ho, -⟩ |
    ⟨_, _, _, _, _, w', -, -, hdone, -, hw, ho, -⟩
  · cases ho
  · cases ho
  · cases ho
    rcases ((exitsOnSuccess_run hmake hpre i).mib hdone hw).2 with
      ⟨hquiet, -⟩ | ⟨p, htrack, -⟩
    · rw [hquiet] at hmem
      cases hmem
    · rw [htrack, List.mem_singleton] at hmem
      rw [hmem]

/-- Nothing is published on `drop`. -/
theorem messagesOn_drop_published [GnuRadio]
    (hmake : DownlinkTrigger.make lib psrThreshold true memory = .ok trigger)
    (hrun : Machine.Run (step lib) (make trigger) tr g) : messagesOn .drop (published tr) = [] := by
  refine List.eq_nil_iff_forall_not_mem.mpr fun p hp => ?_
  cases track_of_published hmake hrun (mem_messagesOn.mp hp)

/-- The cells in the store and those that wait behind them are all that were published. -/
theorem cells_append_queue [GnuRadio]
    (hmake : DownlinkTrigger.make lib psrThreshold true memory = .ok trigger)
    (hrun : Machine.Run (step lib) (make trigger) tr g) :
    g.store.cells ++ g.queue .track = messagesOn .track (published tr) := by
  have hsearch := search_run hrun
  have hhandled : messagesOn .drop (handled tr) = [] := by
    have hqueue := CellSearch.queue_run hsearch .drop
    rw [← published, ← handled, messagesOn_drop_published hmake hrun] at hqueue
    exact (List.append_eq_nil_iff.mp hqueue.symm).1
  -- a store that handles no drop holds all that it has handled
  have hcells : g.store.cells = Registry.run PmtT.ref ((handled tr).map Message.op) :=
    CellSearch.cells_run hsearch
  rw [hcells, Registry.run_eq_additions (by rw [removals_op, hhandled, List.map_nil]),
    additions_op]
  exact (CellSearch.queue_run hsearch .track).symm

/-- They are the cells that the rows hold. -/
theorem cells_append_queue_perm [GnuRadio]
    (hmake : DownlinkTrigger.make lib psrThreshold true memory = .ok trigger)
    (hrun : Machine.Run (step lib) (make trigger) tr g) :
    (g.store.cells ++ g.queue .track).Perm
      ((List.finRange 3).filterMap fun i => (g.trigger.rows i).mib.held) := by
  have hsourced := CellSearch.sourced_run (fun i => (mib_made hmake i).2)
    (CellSearch.advance_run (search_run hrun))
  have honce : ((messagesOn .track (published tr)).map PmtT.ref).Nodup := by
    rw [published, ← additions_op]
    exact hsourced.accounting.accounted.added_once
  rw [cells_append_queue hmake hrun]
  -- both lists have no duplicates, so they are compared item by item
  refine (List.perm_ext_iff_of_nodup honce.of_map hsourced.heldCells_nodup).mpr fun p => ?_
  have hheld := hsourced.held_iff (p := p)
  rw [← published, messagesOn_drop_published hmake hrun, List.map_nil] at hheld
  simpa [CellSearch.heldCells] using hheld

/-- The cells in the store are those of different rows. Once nothing waits at the store, these are
all rows that hold a cell. -/
theorem exists_rows_of_cells [GnuRadio]
    (hmake : DownlinkTrigger.make lib psrThreshold true memory = .ok trigger)
    (hrun : Machine.Run (step lib) (make trigger) tr g) :
    ∃ rows : List (Fin 3), rows.Nodup ∧
      List.Forall₂ (fun p i => (g.trigger.rows i).mib.held = some p) g.store.cells rows ∧
      (g.queue .track = [] → ∀ i, (g.trigger.rows i).mib.held ≠ none → i ∈ rows) := by
  -- the rows are put in the order of the cells
  obtain ⟨all, hall, hperm⟩ := List.perm_comp_forall₂ (cells_append_queue_perm hmake hrun)
    (forall₂_filterMap_filter _ _)
  have hnodup : all.Nodup := hperm.nodup_iff.mpr ((List.nodup_finRange 3).filter _)
  refine ⟨all.take g.store.cells.length, hnodup.sublist (List.take_sublist _ _), ?_,
    fun hquiet i hi => ?_⟩
  · have htake := List.forall₂_take g.store.cells.length hall
    rwa [List.take_left] at htake
  · rw [hquiet, List.append_nil] at hall
    rw [hall.length_eq, List.take_length, hperm.mem_iff]
    simpa [Option.isSome_iff_ne_none] using hi

/-- In every run of a flow graph that exits on success, whatever the order of events: nothing is
ever dropped. The cells in the store, with those that wait to be handled behind them, are all that
were published, in that order. There is one for each row that is done and none for the others. -/
theorem exit_on_success [GnuRadio]
    (hmake : DownlinkTrigger.make lib psrThreshold true memory = .ok trigger)
    (hrun : Machine.Run (step lib) (make trigger) tr g) :
    (∀ m ∈ published tr, m.port = .track) ∧
    g.store.cells ++ g.queue .track = messagesOn .track (published tr) ∧
    (g.store.cells ++ g.queue .track).Perm
      ((List.finRange 3).filterMap fun i => (g.trigger.rows i).mib.held) ∧
    ∀ i, (g.trigger.rows i).done = true ↔ (g.trigger.rows i).mib.held ≠ none :=
  ⟨fun _ => track_of_published hmake hrun, cells_append_queue hmake hrun,
    cells_append_queue_perm hmake hrun, fun i => (exitsOnSuccess_run hmake hrun i).done_iff⟩

/-- A cell that is found, and the row is done. -/
theorem exit_on_success_playback :
    ∃ tr g p, Machine.Run (step (.playback Unit (List.replicate 16 (960, 5)) 7))
        (make (.playback Unit (List.replicate 16 (960, 5)) 4 true [true, true])) tr g ∧
      g.store.cells = [p] ∧ (∀ m ∈ published tr, m.port = .track) ∧
      [p].Perm ((List.finRange 3).filterMap fun i => (g.trigger.rows i).mib.held) ∧
      ∀ i, (g.trigger.rows i).done = true ↔ (g.trigger.rows i).mib.held ≠ none := by
  have hexec : Machine.exec (step (.playback Unit (List.replicate 16 (960, 5)) 7))
      (make (.playback Unit (List.replicate 16 (960, 5)) 4 true [true, true]))
      ((DownlinkTrigger.acquisition 2).map .trigger ++
        [.trigger (.mib 2 0 0 0), .deliver .track]) = some (_, _) := rfl
  have hrun := Machine.Run.of_exec hexec
  obtain ⟨htracks, -, hperm, hdone⟩ :=
    exit_on_success (DownlinkTrigger.make_playback Unit _ 7 4 true _) hrun
  exact ⟨_, _, _, hrun, rfl, htracks, hperm, hdone⟩

end FlowGraph

end LteTrigger
