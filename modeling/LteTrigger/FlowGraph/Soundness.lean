import LteTrigger.FlowGraph.Basic
import LteTrigger.Trigger.Identity

/-!
# What the store of a flow graph holds

Whatever the order of events in a flow graph, a cell in the store was published by a row, for a
half-frame that its `pss` emitted in tracking state. The identity of a cell is never that of
`badCellIdVal`, so the store refuses none, and its thread goes on for ever.

## Main results

* `FlowGraph.trigger_run`, `FlowGraph.search_run`: a run of the flow graph is one of its parts;
* `FlowGraph.store_sound`: where the cells in the store come from;
* `FlowGraph.throws_only_chest`: nothing throws but the channel estimation of `pss`.
-/

namespace LteTrigger

/-- The store takes a cell with an identity. -/
theorem CellStore.trackCell_identity [GnuRadio] (s : CellStore) {p : PmtT} {nId2 cellId : ℤ}
    (hid : IsIdentity nId2 cellId) (hp : p.cellId = .ok cellId) :
    s.trackCell p = .ok { s with cells := s.cells ++ [p] } := by
  have hbad : cellId ≠ 1000 := by
    obtain ⟨-, hhigh, -⟩ := hid
    omega
  simp [trackCell_eq, hp, hbad]

namespace FlowGraph

variable {D F S Det Tab Sync Dec : Type} [FloatOps D] [FloatOps F]
  {lib : TriggerLib D F S Det Tab Sync Dec} {psrThreshold : D} {exitOnSuccess : Bool}
  {memory : Fin 3 → MibMemory Dec} {trigger : DownlinkTrigger D F S Det Tab Sync Dec}
  {g : FlowGraph D F S Det Tab Sync Dec} {tr : List (Transition D F S Det Tab Sync Dec)}
  {t : Transition D F S Det Tab Sync Dec} {m : Message} {p : PmtT}

/-- What a run is to the trigger. -/
def triggerTrace (tr : List (Transition D F S Det Tab Sync Dec)) :
    List (DownlinkTrigger.Transition D F S Det Tab Sync Dec) :=
  tr.filterMap triggerPart

/-- What a run is to the `mib` blocks and the store. -/
def searchTrace (tr : List (Transition D F S Det Tab Sync Dec)) :
    List (CellSearch.Transition S Dec) :=
  tr.filterMap searchPart

/-- The messages of a run, in the order they were published. -/
def published (tr : List (Transition D F S Det Tab Sync Dec)) : List Message :=
  CellSearch.published (searchTrace tr)

/-- The messages the store has handled in a run, in the order it did. -/
def handled (tr : List (Transition D F S Det Tab Sync Dec)) : List Message :=
  CellSearch.handled (searchTrace tr)

/-- The `mib` block of the row `i` publishes the message in a call with the given half-frames. -/
def Publishes (t : Transition D F S Det Tab Sync Dec) (i : Fin 3) (call : MibCall S)
    (m : Message) : Prop :=
  ∃ event w, t.output = .trigger (.row i event (.mib call w)) ∧ m ∈ w.msgs

/-- A run of the flow graph is one of its trigger. -/
theorem trigger_run [GnuRadio] (hrun : Machine.Run (step lib) (make trigger) tr g) :
    Machine.Run (DownlinkTrigger.step lib) trigger (triggerTrace tr) g.trigger :=
  (isPart_trigger lib).run hrun

/-- A run of the flow graph is one of its `mib` blocks and its store. -/
theorem search_run [GnuRadio] (hrun : Machine.Run (step lib) (make trigger) tr g) :
    Machine.Run (CellSearch.step lib.mib) (.make fun i => (trigger.rows i).mib) (searchTrace tr)
      g.search :=
  (isPart_search lib).run hrun

omit [FloatOps D] [FloatOps F] in
/-- What the blocks publish towards the store is published in a call of a `mib` block. -/
theorem publishes_of_searchPart {u : CellSearch.Transition S Dec} (hu : searchPart t = some u)
    (hm : m ∈ CellSearch.publishedIn u) :
    ∃ i call, u.input = .mib i call ∧ Publishes t i call m := by
  rw [searchPart] at hu
  split at hu
  · rename_i work ho
    obtain ⟨⟨i, call, w⟩, hwork, rfl⟩ := Option.map_eq_some_iff.mp hu
    unfold TriggerWork.mibWork at hwork
    split at hwork
    · cases hwork
      exact ⟨i, call, rfl, _, w, ho, hm⟩
    · cases hwork
  · -- the store publishes nothing
    obtain rfl := Option.some.inj hu
    cases hm

omit [FloatOps D] [FloatOps F] in
/-- A message is published in some call of a `mib` block. -/
theorem publishes_of_mem (hm : m ∈ published tr) :
    ∃ tr₁ t tr₂ i call, tr = tr₁ ++ t :: tr₂ ∧ Publishes t i call m := by
  obtain ⟨u, hu, hmu⟩ := List.mem_flatMap.mp hm
  obtain ⟨t, ht, htu⟩ := List.mem_filterMap.mp hu
  obtain ⟨tr₁, tr₂, rfl⟩ := List.mem_iff_append.mp ht
  obtain ⟨i, call, -, hpublishes⟩ := publishes_of_searchPart htu hmu
  exact ⟨tr₁, t, tr₂, i, call, rfl, hpublishes⟩

omit [FloatOps D] [FloatOps F] in
/-- A cell that a `mib` block has tracked was published in a call of that block. -/
theorem publishes_of_trackedBy {i : Fin 3} (h : CellSearch.TrackedBy (searchTrace tr) i p) :
    ∃ t ∈ tr, ∃ call, Publishes t i call ⟨.track, p⟩ := by
  obtain ⟨u, hu, ⟨call, hinput⟩, hp⟩ := h
  obtain ⟨t, ht, htu⟩ := List.mem_filterMap.mp hu
  obtain ⟨j, call', hinput', hpublishes⟩ := publishes_of_searchPart htu hp
  obtain ⟨rfl, rfl⟩ := CellSearchEvent.mib.inj (hinput.symm.trans hinput')
  exact ⟨t, ht, call, hpublishes⟩

/-- A message that waits at the store was published. -/
theorem mem_published_of_queue [GnuRadio] (hrun : Machine.Run (step lib) (make trigger) tr g)
    {port : Port} (hp : p ∈ g.queue port) : ⟨port, p⟩ ∈ published tr := by
  refine mem_messagesOn.mp ?_
  rw [published, CellSearch.queue_run (search_run hrun)]
  exact List.mem_append_right _ hp

/-- A cell in the store was published on `track`. -/
theorem mem_published_of_cells [GnuRadio] (hrun : Machine.Run (step lib) (make trigger) tr g)
    (hp : p ∈ g.store.cells) : ⟨.track, p⟩ ∈ published tr := by
  have hsearch := search_run hrun
  have hcells : g.store.cells = Registry.run PmtT.ref ((handled tr).map Message.op) :=
    CellSearch.cells_run hsearch
  rw [hcells, Registry.run_eq_survivors] at hp
  have hadded := Registry.survivors_sublist.subset hp
  rw [additions_op] at hadded
  -- what was handled was published
  refine mem_messagesOn.mp ?_
  rw [published, CellSearch.queue_run hsearch]
  exact List.mem_append_left _ hadded

/-- What a transition is to the row `i`. -/
def rowPart (i : Fin 3) (t : Transition D F S Det Tab Sync Dec) :
    Option (Row.Transition F S Det Tab Sync Dec) :=
  (triggerPart t).bind (DownlinkTrigger.rowPart i)

/-- What a run is to the row `i`. -/
def rowTrace (i : Fin 3) (tr : List (Transition D F S Det Tab Sync Dec)) :
    List (Row.Transition F S Det Tab Sync Dec) :=
  tr.filterMap (rowPart i)

/-- Each row is a part of the flow graph. -/
theorem isPart_row [GnuRadio] (lib : TriggerLib D F S Det Tab Sync Dec) (i : Fin 3) :
    Machine.IsPart (step lib) (Row.step lib.toChainLib) (fun g => g.trigger.rows i)
      (rowPart i) :=
  (DownlinkTrigger.isPart_row lib i).comp (isPart_trigger lib)

/-- A run of the flow graph is one of each row. -/
theorem row_run [GnuRadio] (hrun : Machine.Run (step lib) (make trigger) tr g) (i : Fin 3) :
    Machine.Run (Row.step lib.toChainLib) (trigger.rows i) (rowTrace i tr) (g.trigger.rows i) :=
  (isPart_row lib i).run hrun

/-- A call that publishes is one of its row. -/
theorem rowPart_of_publishes [GnuRadio]
    (hstep : step lib t.pre t.input = .ok (t.post, t.output)) {i : Fin 3} {call : MibCall S}
    (h : Publishes t i call m) :
    ∃ event w, rowPart i t =
      some ⟨t.pre.trigger.rows i, event, .mib call w, t.post.trigger.rows i⟩ ∧ m ∈ w.msgs := by
  obtain ⟨event, w, ho, hm⟩ := h
  rcases step_cases hstep with
    ⟨_, _, he, -⟩ | ⟨_, _, _, _, _, he, -⟩ | ⟨_, _, _, -, -, -, ho', -⟩
  · exact ⟨event, w, by simp [rowPart, triggerPart, he, ho, DownlinkTrigger.rowPart], hm⟩
  · exact ⟨event, w, by simp [rowPart, triggerPart, he, ho, DownlinkTrigger.rowPart], hm⟩
  · simp [ho] at ho'

/-- Each row works for its own `N_id_2`. -/
theorem identified_run [GnuRadio] (members : SyncMembers lib.sss)
    (hmake : DownlinkTrigger.make lib psrThreshold exitOnSuccess memory = .ok trigger)
    (hrun : Machine.Run (step lib) (make trigger) tr g) (i : Fin 3) :
    (g.trigger.rows i).Identified members (i : ℕ) :=
  DownlinkTrigger.identified_run members hmake (trigger_run hrun) i

/-- What is published on `track` is a cell that is packed. -/
theorem packed_of_published [GnuRadio] (hrun : Machine.Run (step lib) (make trigger) tr g)
    (ht : t ∈ tr) {i : Fin 3} {call : MibCall S} (hp : Publishes t i call ⟨.track, p⟩) :
    ∃ cell sfn, p.val = MibImpl.packCell cell sfn call.now := by
  obtain ⟨hstep, -⟩ := hrun.cut_at_mem ht
  obtain ⟨event, w, hu, hmem⟩ := rowPart_of_publishes hstep hp
  obtain ⟨-, -, hrow⟩ := (isPart_row lib i).of_eq_some hstep hu
  obtain ⟨-, -, hmib⟩ := (Row.isPart_mib lib.toChainLib).of_eq_some hrow rfl
  exact MibImpl.packed_of_track hmib hmem

/-- What is published on `track` is a cell with an identity of its row. -/
theorem identity_of_published [GnuRadio] (members : SyncMembers lib.sss)
    (hmake : DownlinkTrigger.make lib psrThreshold exitOnSuccess memory = .ok trigger)
    (hrun : Machine.Run (step lib) (make trigger) tr g) (ht : t ∈ tr) {i : Fin 3}
    {call : MibCall S} (hp : Publishes t i call ⟨.track, p⟩) :
    ∃ cellId, IsIdentity (i : ℕ) cellId ∧ p.cellId = .ok cellId := by
  obtain ⟨hstep, tr₁, tr₂, -, hpre, -⟩ := hrun.cut_at_mem ht
  obtain ⟨event, w, hu, hmem⟩ := rowPart_of_publishes hstep hp
  obtain ⟨-, -, hrow⟩ := (isPart_row lib i).of_eq_some hstep hu
  exact (identified_run members hmake hpre i).track hrow hmem

/-- Every cell in the store of a flow graph was published by a row in a call of its `mib`. The
first half-frame of that call is one that the `pss` of the row emitted in tracking state, in at
least the sixteenth call in a row that ended over the threshold. The identity of the cell is one
between 0 and 503 that belongs to the row. -/
theorem store_sound [GnuRadio] (members : SyncMembers lib.sss)
    (hmake : DownlinkTrigger.make lib psrThreshold exitOnSuccess memory = .ok trigger)
    (hrun : Machine.Run (step lib) (make trigger) tr g) (hp : p ∈ g.store.cells) :
    ∃ tr₁ t tr₂ i call, tr = tr₁ ++ t :: tr₂ ∧ Publishes t i call ⟨.track, p⟩ ∧
      (∃ e, Row.ReachedTracked 16 (rowTrace i tr₁) e ∧ call.first.samples = e.out) ∧
      ∃ cellId, IsIdentity (i : ℕ) cellId ∧ p.cellId = .ok cellId := by
  obtain ⟨tr₁, t, tr₂, i, call, rfl, hpublishes⟩ :=
    publishes_of_mem (mem_published_of_cells hrun hp)
  refine ⟨tr₁, t, tr₂, i, call, rfl, hpublishes, ?_,
    identity_of_published members hmake hrun (by simp) hpublishes⟩
  obtain ⟨-, hstep, -⟩ := hrun.at_transition
  obtain ⟨event, w, hu, hmem⟩ := rowPart_of_publishes hstep hpublishes
  have hrow := row_run hrun i
  rw [rowTrace, List.filterMap_append, List.filterMap_cons_some hu] at hrow
  obtain ⟨hpss, hfresh⟩ := DownlinkTrigger.row_made hmake i
  obtain ⟨hdecodes, htracks⟩ := Row.decodes_of_run hpss hfresh hrow rfl
  obtain ⟨addr, samples, nofPorts, hcall⟩ := htracks p hmem
  obtain ⟨rfl, e, he, hout⟩ := hdecodes addr samples nofPorts hcall
  exact ⟨e, he, Option.some.inj hout⟩

/-- A cell with `N_id_2` two is found and stored. -/
theorem store_sound_playback :
    ∃ tr g p, Machine.Run (step (.playback Unit (List.replicate 16 (960, 5)) 7))
        (make (.playback Unit (List.replicate 16 (960, 5)) 4 false [true, true])) tr g ∧
      p ∈ g.store.cells ∧ ∃ tr₁ t tr₂ i call, tr = tr₁ ++ t :: tr₂ ∧
        Publishes t i call ⟨.track, p⟩ ∧
        (∃ e, Row.ReachedTracked 16 (rowTrace i tr₁) e ∧ call.first.samples = e.out) ∧
        ∃ cellId, IsIdentity (i : ℕ) cellId ∧ p.cellId = .ok cellId := by
  have hfound : Machine.exec (step (.playback Unit (List.replicate 16 (960, 5)) 7))
      (make (.playback Unit (List.replicate 16 (960, 5)) 4 false [true, true]))
      ((DownlinkTrigger.acquisition 2).map .trigger ++ [.trigger (.mib 2 0 0 0)]) =
      some (_, _) := rfl
  have hrun := (Machine.Run.of_exec hfound).snoc (i := .deliver .track) rfl
  exact ⟨_, _, _, hrun, List.mem_singleton_self _,
    store_sound (.ofNId1 Unit (by decide)) (DownlinkTrigger.make_playback Unit _ 7 4 false _) hrun
      (List.mem_singleton_self _)⟩

/-- The store can handle every message that waits there. -/
theorem exists_handle [GnuRadio] (members : SyncMembers lib.sss)
    (hmake : DownlinkTrigger.make lib psrThreshold exitOnSuccess memory = .ok trigger)
    (hrun : Machine.Run (step lib) (make trigger) tr g) {port : Port}
    (hp : p ∈ g.queue port) : ∃ store, g.store.handle ⟨port, p⟩ = .ok store := by
  cases port with
  | track =>
    -- the store takes every cell that a row publishes
    obtain ⟨tr₁, t, tr₂, i, call, rfl, hpublishes⟩ :=
      publishes_of_mem (mem_published_of_queue hrun hp)
    obtain ⟨cellId, hid, hcellId⟩ := identity_of_published members hmake hrun (by simp) hpublishes
    exact ⟨_, CellStore.trackCell_identity _ hid hcellId⟩
  | drop => exact ⟨_, rfl⟩

/-- In the state that a run of a flow graph has reached nothing can throw but a call of `pss`,
whose channel estimation fails. No call of `mib` throws, and neither do the message handlers of
the store, whatever the order in which they run. -/
theorem throws_only_chest [GnuRadio] (members : SyncMembers lib.sss)
    (hmake : DownlinkTrigger.make lib psrThreshold exitOnSuccess memory = .ok trigger)
    (hrun : Machine.Run (step lib) (make trigger) tr g) {e : FlowGraphEvent D S}
    {err : Exception} (hthrown : step lib g e = .error (.thrown err)) :
    ∃ i call tags foreign, e = .trigger (.pss i call tags foreign) ∧ err = chestError := by
  cases e with
  | trigger event =>
    have htrigger :
        DownlinkTrigger.step lib g.trigger (event.withFresh g.nextRef) = .error (.thrown err) := by
      simp only [step] at hthrown
      split at hthrown
      · rename_i err' herr
        rw [herr, Except.error.inj hthrown]
      · split at hthrown <;> cases hthrown
    obtain ⟨i, call, tags, foreign, he, herr⟩ :=
      DownlinkTrigger.thrown_of_run members hmake (trigger_run hrun) htrigger
    refine ⟨i, call, tags, foreign, ?_, herr⟩
    cases event <;> cases he
    rfl
  | deliver port =>
    simp only [step] at hthrown
    split at hthrown
    · cases hthrown
    · rename_i payload queue hqueue
      obtain ⟨store, hstore⟩ := exists_handle members hmake hrun
        (show payload ∈ g.queue port from hqueue ▸ List.mem_cons_self)
      rw [hstore] at hthrown
      cases hthrown

/-- A channel estimation that fails in the call that would enter tracking state. -/
theorem throws_only_chest_playback :
    ∃ tr g e, Machine.Run (step (.failing Unit (List.replicate 16 (960, 5)) 7))
        (make (.playback Unit (List.replicate 16 (960, 5)) 4 false [true])) tr g ∧
      ∃ err, step (.failing Unit (List.replicate 16 (960, 5)) 7) g e = .error (.thrown err) ∧
        ∃ i call tags foreign, e = .trigger (.pss i call tags foreign) ∧ err = chestError := by
  have hexec : Machine.exec (step (.failing Unit (List.replicate 16 (960, 5)) 7))
      (make (.playback Unit (List.replicate 16 (960, 5)) 4 false [true]))
      ((DownlinkTrigger.acquisition 2).take 15 |>.map .trigger) = some (_, _) := rfl
  obtain ⟨tr, g, hrun, err, hthrown⟩ :
      ∃ tr g, Machine.Run (step (.failing Unit (List.replicate 16 (960, 5)) 7))
          (make (.playback Unit (List.replicate 16 (960, 5)) 4 false [true])) tr g ∧
        ∃ err, step (.failing Unit (List.replicate 16 (960, 5)) 7) g
          (.trigger (.pss 2 (.minimal (fun _ => ()) 0) [] foreign_nil)) = .error (.thrown err) :=
    ⟨_, _, .of_exec hexec, _, rfl⟩
  exact ⟨tr, g, _, hrun, err, hthrown, throws_only_chest (.ofNId1 Unit (by decide))
    (DownlinkTrigger.make_failing Unit _ 7 4 false [true]) hrun hthrown⟩

end FlowGraph

end LteTrigger
