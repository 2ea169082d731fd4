import LteTrigger.FlowGraph.Soundness

/-!
# The store of a flow graph at rest

When nothing waits to be handled, the store should hold the cells that are being tracked: those
that the `mib` blocks hold, in rows whose `pss` is tracking. It does, if every drop was handled
after the track of the same object, and if no call of `mib` has consumed a lost half-frame behind
others. Both conditions are on the schedule: the first one holds when the store handles messages
in the order they were published, the second one when `mib` is called for one half-frame at a time.

## Main definitions

* `FlowGraph.heldCells`: the cells that the `mib` blocks hold;
* `Row.SeesLosses`: `mib` looks at every lost half-frame that it consumes.

## Main results

* `FlowGraph.cells_perm_heldCells`: the store holds what the blocks hold;
* `Row.tracking_of_held`: a row at rest that holds a cell is tracking;
* `FlowGraph.cells_tracked`: the store of a flow graph at rest.
-/

namespace LteTrigger

namespace CellSearch

variable {S Dec : Type} {lib : MibLib S Dec} {s : CellSearch S Dec}
  {tr : List (Transition S Dec)}

/-- A cell was tracked and not dropped exactly if some block holds it. -/
theorem Sourced.held_iff (h : Sourced tr s) {p : PmtT} :
    (p ∈ messagesOn .track (published tr) ∧
      p.ref ∉ (messagesOn .drop (published tr)).map PmtT.ref) ↔ ∃ i, s.held i = some p := by
  constructor
  · rintro ⟨htrack, hkept⟩
    obtain ⟨i, hi⟩ := h.tracked p (mem_messagesOn.mp htrack)
    exact ⟨i, h.holds i p hi hkept⟩
  · rintro ⟨i, hi⟩
    exact h.accounting.kept i p hi

/-- When messages are handled in the order they were published, every drop follows its track. -/
theorem Sourced.dropsFollow (h : Sourced tr s) (horder : handled tr <+: published tr) :
    DropsFollow (handled tr) := by
  obtain ⟨msgs, hmsgs⟩ := horder
  have haccounted := h.accounting.accounted
  rw [← hmsgs, List.map_append] at haccounted
  exact dropsFollow_iff.mpr haccounted.of_append.removesFollow

/-- The cell that a block holds is one that it has tracked. -/
theorem Sourced.trackedBy_of_held (h : Sourced tr s) {i : Fin 3} {p : PmtT}
    (hheld : s.held i = some p) : TrackedBy tr i p := by
  obtain ⟨htrack, hkept⟩ := h.held_iff.mpr ⟨i, hheld⟩
  obtain ⟨j, hj⟩ := h.tracked p (mem_messagesOn.mp htrack)
  obtain rfl : j = i := h.accounting.apart j i p p (h.holds j p hj hkept) hheld rfl
  exact hj

/-- The cells that the blocks hold. -/
def heldCells (s : CellSearch S Dec) : List PmtT := (List.finRange 3).filterMap s.held

/-- No two blocks hold one object. -/
theorem Sourced.heldCells_nodup (h : Sourced tr s) : s.heldCells.Nodup := by
  refine (List.nodup_finRange 3).filterMap fun i j p hi hj => ?_
  exact h.accounting.apart i j p p hi hj rfl

/-- Once everything is handled, and every drop after its track, the store holds what the blocks
hold. -/
theorem cells_perm_heldCells [GnuRadio] {mibs : Fin 3 → MibImpl S Dec}
    (hinit : ∀ i, (mibs i).held = none ∧ (mibs i).Settled)
    (hrun : Machine.Run (step lib) (make mibs) tr s) (hquiet : ∀ port, s.queue port = [])
    (hfollow : DropsFollow (handled tr)) : s.store.cells.Perm s.heldCells := by
  have hsourced := sourced_run hinit (advance_run hrun)
  have haccounted := hsourced.accounting.accounted
  have hperm := (handled_perm hrun hquiet).map Message.op
  have hadditions := Registry.additions_perm hperm
  have honce : ((Registry.additions ((handled tr).map Message.op)).map PmtT.ref).Nodup :=
    (hadditions.map PmtT.ref).nodup_iff.mpr haccounted.added_once
  have hnodup : s.store.cells.Nodup := by
    rw [cells_run hrun]
    exact (Registry.run_nodup honce).of_map
  -- both lists have no duplicates, so they are compared item by item
  refine (List.perm_ext_iff_of_nodup hnodup hsourced.heldCells_nodup).mpr fun p => ?_
  rw [cells_run hrun, Registry.mem_run_of_removesFollow honce (dropsFollow_iff.mp hfollow),
    hadditions.mem_iff, (Registry.removals_perm hperm).mem_iff, additions_op, removals_op,
    hsourced.held_iff, heldCells, List.mem_filterMap]
  simp

end CellSearch

namespace Row

variable [GnuRadio] {F S Det Tab Sync Dec : Type} [FloatOps F]
  {lib : ChainLib F S Det Tab Sync Dec} {r r' r₀ : Row F S Det Tab Sync Dec}
  {tr : List (Transition F S Det Tab Sync Dec)} {t : Transition F S Det Tab Sync Dec}
  {e : RowEvent F S} {o : RowWork S}

/-- The half-frames that a call of `mib` consumes behind the first one are not lost ones. -/
def SeesLosses (t : Transition F S Det Tab Sync Dec) : Prop :=
  ∀ frame ∈ (takenByMib t).tail, frame.kind ≠ .lost

omit [FloatOps F] in
/-- A call of `mib` that leaves a cell held has last consumed a half-frame that is not lost. -/
theorem getLast_taken {s s' : MibImpl S Dec} {c : MibCall S} {w : MibWork S}
    (hexit : s.exitOnSuccess = false) (h : MibImpl.generalWork lib.mib s c = .ok (s', w))
    (hsees : ∀ frame ∈ (c.taken w).tail, frame.kind ≠ .lost) (hheld : s'.held ≠ none) :
    ∃ frame, (c.taken w).getLast? = some frame ∧ frame.kind ≠ .lost := by
  have hfirst : c.first.kind ≠ .lost := by
    intro hlost
    rcases MibImpl.generalWork_cases h with
      ⟨-, rfl, -⟩ | ⟨hkept, -⟩ | ⟨_, _, -, hsearched, -⟩ | ⟨_, _, -, hsearched, -⟩
    · exact hheld rfl
    · exact hkept hlost
    · simp [MibImpl.searched, hlost] at hsearched
    · simp [MibImpl.searched, hlost] at hsearched
  have hnonempty : ∃ rest, c.taken w = c.first :: rest := by
    rcases MibCall.taken_cases h with ⟨hdone, -⟩ | ⟨-, hone⟩ | ⟨-, hall, -⟩
    · rcases MibImpl.generalWork_consumes h with ⟨hexit', -⟩ | ⟨hret, -⟩
      · simp [hexit] at hexit'
      · rw [hdone] at hret
        cases hret
    · exact ⟨[], hone⟩
    · exact ⟨c.rest, hall⟩
  obtain ⟨rest, hrest⟩ := hnonempty
  rw [hrest] at hsees ⊢
  refine ⟨_, List.getLast?_eq_some_getLast (List.cons_ne_nil _ _), ?_⟩
  rcases List.mem_cons.mp (List.getLast_mem (List.cons_ne_nil c.first rest)) with hlast | hlast
  · rw [hlast]
    exact hfirst
  · exact hsees _ hlast

/-- When `mib` is called for one half-frame at a time, it sees every loss. -/
theorem seesLosses_of_one (hstep : step lib r e = .ok (r', o))
    (hone : ∀ more now fresh, e = .mib more now fresh → more = 0) :
    SeesLosses ⟨r, e, o, r'⟩ := by
  rcases step_cases hstep with
    ⟨_, _, _, _, -, -, rfl, -⟩ | ⟨_, _, _, -, -, rfl, -⟩ |
    ⟨more, now, fresh, first, rest, w, he, -, -, -, -, rfl, -⟩
  · simp [SeesLosses, takenByMib]
  · simp [SeesLosses, takenByMib]
  · obtain rfl := hone more now fresh he
    have htail : (MibCall.taken ⟨first, [], now, fresh⟩ w).tail = [] := by
      rw [MibCall.taken, MibCall.frames]
      cases w.nconsume / halfFrameLength <;> simp
    simp [SeesLosses, takenByMib, htail]

/-- Between two events of a row whose `mib` does not exit on success: when it holds a cell, the
half-frame that it has consumed last is not a lost one. -/
structure HoldsKept (tr : List (Transition F S Det Tab Sync Dec))
    (r : Row F S Det Tab Sync Dec) : Prop where
  exitOnSuccess : r.mib.exitOnSuccess = false
  last : r.mib.held ≠ none →
    ∃ frame, (tr.flatMap takenByMib).getLast? = some frame ∧ frame.kind ≠ .lost

/-- Every event keeps this, if `mib` sees the losses. -/
theorem HoldsKept.step (h : HoldsKept tr r) (hstep : step lib r e = .ok (r', o))
    (hsees : SeesLosses ⟨r, e, o, r'⟩) : HoldsKept (tr ++ [⟨r, e, o, r'⟩]) r' := by
  have hsilent (hmib : r'.mib = r.mib) (htaken : takenByMib ⟨r, e, o, r'⟩ = []) :
      HoldsKept (tr ++ [⟨r, e, o, r'⟩]) r' := by
    refine ⟨by rw [hmib]; exact h.exitOnSuccess, fun hheld => ?_⟩
    rw [List.flatMap_append, List.flatMap_singleton, htaken, List.append_nil]
    exact h.last (hmib ▸ hheld)
  rcases step_cases hstep with
    ⟨_, _, _, _, -, -, rfl, hr⟩ | ⟨_, _, _, -, -, rfl, hr⟩ |
    ⟨more, now, fresh, first, rest, w, -, -, -, -, hmib, rfl, -⟩
  · exact hsilent (by rw [hr]) rfl
  · exact hsilent (by rw [hr]) rfl
  · refine ⟨(MibImpl.generalWork_exitOnSuccess hmib).trans h.exitOnSuccess, fun hheld => ?_⟩
    obtain ⟨frame, hlast, hkept⟩ := getLast_taken h.exitOnSuccess hmib hsees hheld
    refine ⟨frame, ?_, hkept⟩
    rw [List.flatMap_append, List.flatMap_singleton, List.getLast?_append, takenByMib, hlast]
    rfl

/-- A run in which `mib` sees the losses. -/
theorem holdsKept_run (hexit : r₀.mib.exitOnSuccess = false) (hnone : r₀.mib.held = none)
    (hrun : Machine.Run (Row.step lib) r₀ tr r) (hsees : ∀ t ∈ tr, SeesLosses t) :
    HoldsKept tr r := by
  induction hrun with
  | nil => exact ⟨hexit, fun hheld => absurd hnone hheld⟩
  | snoc _ hstep ih =>
    rw [List.forall_mem_append, List.forall_mem_singleton] at hsees
    exact (ih hsees.1).step hstep hsees.2

/-! ### A row at rest -/

omit [FloatOps F] in
/-- A row whose `pss` is tracking exactly if it was when it emitted its last half-frame. -/
def FollowsLast (tr : List (Transition F S Det Tab Sync Dec))
    (r : Row F S Det Tab Sync Dec) : Prop :=
  ∀ a, (tr.flatMap emitted).getLast? = some a → r.pss.tracking.isTracking = a.2

omit [GnuRadio] in
/-- A call that drops its input neither starts nor ends in tracking state. -/
theorem not_tracking_of_drop {s s' : PssImpl F Det Tab} {c : Call S} (h : s.Coherent)
    (hw : PssImpl.generalWork lib.pss s c = .ok (s', .drop)) :
    s.tracking.isTracking = false ∧ s'.tracking.isTracking = false := by
  have hphase := (PssImpl.generalWork_refines h hw).2.1
  have hidle := (PssImpl.drop_iff_idle h hw).mp rfl
  rw [PssImpl.lockStep, HitLock.verdict_eq_idle_iff] at hidle
  rw [PssImpl.lockStep, hidle.1, HitLock.next_miss] at hphase
  -- a locked block is not searching
  have hflag {t : Tracking} (ht : t.phase = .searching 0) : t.isTracking = false := by
    by_contra hlocked
    simp [Tracking.phase, Bool.of_not_eq_false hlocked] at ht
  exact ⟨hflag hidle.2, hflag hphase⟩

/-- Every event keeps this. -/
theorem FollowsLast.step (h : FollowsLast tr r) (hcoherent : r.pss.Coherent)
    (hstep : step lib r e = .ok (r', o)) : FollowsLast (tr ++ [⟨r, e, o, r'⟩]) r' := by
  have hsilent (hflag : r'.pss.tracking.isTracking = r.pss.tracking.isTracking)
      (hnone : emitted ⟨r, e, o, r'⟩ = []) : FollowsLast (tr ++ [⟨r, e, o, r'⟩]) r' := by
    intro a ha
    rw [List.flatMap_append, List.flatMap_singleton, hnone, List.append_nil] at ha
    exact hflag.trans (h a ha)
  rcases step_cases hstep with
    ⟨_, _, _, work, -, hpss, rfl, -⟩ | ⟨_, _, _, -, -, rfl, hr⟩ |
    ⟨_, _, _, _, _, _, -, -, -, -, -, rfl, hr⟩
  · rcases PssImpl.step_cases hpss with ⟨c, w, -, rfl, hw⟩ | ⟨threshold, -, rfl, hpost⟩
    · cases w with
      | emit emission =>
        intro a ha
        rw [List.flatMap_append, List.flatMap_singleton, List.getLast?_append] at ha
        obtain rfl := Option.some.inj ha
        rfl
      | drop =>
        obtain ⟨hpre, hpost⟩ := not_tracking_of_drop hcoherent hw
        exact hsilent (hpost.trans hpre.symm) rfl
    · refine hsilent ?_ rfl
      rw [hpost]
      rfl
  · exact hsilent (by rw [hr]) rfl
  · exact hsilent (by rw [hr]) rfl

/-- In a run, `pss` is tracking exactly if it was when it emitted its last half-frame. -/
theorem followsLast_run (h : Fresh r₀) (hrun : Machine.Run (Row.step lib) r₀ tr r) :
    FollowsLast tr r := by
  have hboth : r.pss.Coherent ∧ FollowsLast tr r := by
    induction hrun with
    | nil => exact ⟨h.coherent, fun a ha => by simp at ha⟩
    | snoc _ hstep ih => exact ⟨step_coherent ih.1 hstep, ih.2.step ih.1 hstep⟩
  exact hboth.2

/-- A row that has nothing on the way and holds a cell is tracking. -/
theorem tracking_of_held (h : Fresh r₀) (hexit : r₀.mib.exitOnSuccess = false)
    (hnone : r₀.mib.held = none) (hrun : Machine.Run (Row.step lib) r₀ tr r)
    (hsees : ∀ t ∈ tr, SeesLosses t) (htoSss : r.toSss = []) (htoMib : r.toMib = [])
    (hheld : r.mib.held ≠ none) : r.pss.tracking.isTracking = true := by
  obtain ⟨frame, hlast, hkept⟩ := (holdsKept_run hexit hnone hrun hsees).last hheld
  obtain ⟨-, -, -, hmib⟩ := streams_of_run h hrun
  rw [htoMib, List.append_nil] at hmib
  -- the half-frame that was consumed last is made from the one emitted last
  rw [← hmib, List.getLast?_eq_getElem?] at hlast
  obtain ⟨a, ha, hreaches⟩ := reaches_of_run h hrun hlast
  rw [length_sentToMib h hrun htoSss, ← List.getLast?_eq_getElem?] at ha
  rw [followsLast_run h hrun a ha]
  by_contra hflag
  exact hkept (hreaches.lost (Bool.of_not_eq_true hflag))

end Row

namespace FlowGraph

variable {D F S Det Tab Sync Dec : Type} [FloatOps D] [FloatOps F]
  {lib : TriggerLib D F S Det Tab Sync Dec} {psrThreshold : D}
  {memory : Fin 3 → MibMemory Dec} {trigger : DownlinkTrigger D F S Det Tab Sync Dec}
  {g : FlowGraph D F S Det Tab Sync Dec} {tr : List (Transition D F S Det Tab Sync Dec)}

/-- Nothing is on the way in the flow graph. -/
structure AtRest (g : FlowGraph D F S Det Tab Sync Dec) : Prop where
  toSss : ∀ i, (g.trigger.rows i).toSss = []
  toMib : ∀ i, (g.trigger.rows i).toMib = []
  queue : ∀ port, g.queue port = []

/-- A `mib` block that was constructed holds nothing. -/
theorem mib_made {exitOnSuccess : Bool}
    (hmake : DownlinkTrigger.make lib psrThreshold exitOnSuccess memory = .ok trigger)
    (i : Fin 3) : (trigger.rows i).mib.exitOnSuccess = exitOnSuccess ∧
      (trigger.rows i).mib.held = none ∧ (trigger.rows i).mib.Settled := by
  obtain ⟨-, -, hrows⟩ := DownlinkTrigger.make_rows hmake
  obtain ⟨pss, sss, mib, calls, hrow, -, -, hmib⟩ := hrows i
  rw [hrow]
  refine ⟨?_, MibImpl.make_held hmib⟩
  obtain ⟨rfl, -⟩ := MibImpl.make_eq hmib
  rfl

/-- When the `mib` blocks are called for one half-frame at a time, they see every loss. -/
theorem seesLosses_run [GnuRadio] {g₀ : FlowGraph D F S Det Tab Sync Dec}
    (hrun : Machine.Run (step lib) g₀ tr g)
    (hone : ∀ t ∈ tr, ∀ i more now fresh,
      t.input = .trigger (.mib i more now fresh) → more = 0) (i : Fin 3) :
    ∀ u ∈ rowTrace i tr, Row.SeesLosses u := by
  intro u hu
  obtain ⟨t, ht, htu⟩ := List.mem_filterMap.mp hu
  obtain ⟨hstep, -⟩ := hrun.cut_at_mem ht
  obtain ⟨-, -, hrow⟩ := (isPart_row lib i).of_eq_some hstep htu
  refine Row.seesLosses_of_one hrow fun more now fresh he => ?_
  -- back to the input of the flow graph
  obtain ⟨v, htv, hvu⟩ := Option.bind_eq_some_iff.mp htu
  obtain ⟨-, -, htrigger⟩ := (isPart_trigger lib).of_eq_some hstep htv
  obtain ⟨-, event, hinput, hevent⟩ := triggerPart_eq_some htv
  rw [(DownlinkTrigger.rowPart_eq_some.mp hvu).1, he] at htrigger
  have hmib := DownlinkTrigger.eq_mib_of_step htrigger
  rw [hevent] at hmib
  cases event <;> cases hmib
  exact hone t ht _ _ _ _ hinput

/-- The cell that a `mib` block holds is one that its row has published. -/
theorem publishes_of_held [GnuRadio] {exitOnSuccess : Bool} {i : Fin 3} {p : PmtT}
    (hmake : DownlinkTrigger.make lib psrThreshold exitOnSuccess memory = .ok trigger)
    (hrun : Machine.Run (step lib) (make trigger) tr g)
    (hheld : (g.trigger.rows i).mib.held = some p) :
    ∃ t ∈ tr, ∃ call, Publishes t i call ⟨.track, p⟩ := by
  have hsourced := CellSearch.sourced_run (fun i => (mib_made hmake i).2)
    (CellSearch.advance_run (search_run hrun))
  exact publishes_of_trackedBy (hsourced.trackedBy_of_held (i := i) hheld)

/-- When a flow graph is at rest, the cells in its store are those that its `mib` blocks hold, in
some order. So there is one for each row at most, and three in all. Each of them has an identity
of its row, and the `pss` of that row is tracking. This needs that every drop was handled after
the track of its object, and that `mib` has seen all losses. -/
theorem cells_tracked [GnuRadio] (members : SyncMembers lib.sss)
    (hmake : DownlinkTrigger.make lib psrThreshold false memory = .ok trigger)
    (hrun : Machine.Run (step lib) (make trigger) tr g) (hrest : g.AtRest)
    (hfollow : CellSearch.DropsFollow (handled tr))
    (hsees : ∀ i, ∀ t ∈ rowTrace i tr, Row.SeesLosses t) :
    g.store.cells.Perm ((List.finRange 3).filterMap fun i => (g.trigger.rows i).mib.held) ∧
    g.store.cells.length ≤ 3 ∧
    (∀ p ∈ g.store.cells, ∃ i, (g.trigger.rows i).mib.held = some p ∧
      (g.trigger.rows i).pss.tracking.isTracking = true ∧
      ∃ cellId, IsIdentity (i : ℕ) cellId ∧ p.cellId = .ok cellId) := by
  have hperm := CellSearch.cells_perm_heldCells (fun i => (mib_made hmake i).2) (search_run hrun)
    hrest.queue hfollow
  refine ⟨hperm, ?_, fun p hp => ?_⟩
  · rw [show g.store.cells.length = _ from hperm.length_eq]
    exact (List.length_filterMap_le _ _).trans (List.length_finRange).le
  · obtain ⟨i, -, hheld⟩ := List.mem_filterMap.mp (hperm.mem_iff.mp hp)
    have hheld : (g.trigger.rows i).mib.held = some p := hheld
    obtain ⟨hexit, hnone, -⟩ := mib_made hmake i
    obtain ⟨t, ht, call, hpublishes⟩ := publishes_of_held hmake hrun hheld
    refine ⟨i, hheld, Row.tracking_of_held (DownlinkTrigger.row_made hmake i).2 hexit hnone
      (row_run hrun i) (hsees i) (hrest.toSss i) (hrest.toMib i) (by simp [hheld]),
      identity_of_published members hmake hrun ht hpublishes⟩

/-- A cell that is found while the blocks work on one half-frame at a time. -/
theorem cells_tracked_playback :
    ∃ tr g p, Machine.Run (step (.playback Unit (List.replicate 16 (960, 5)) 7))
        (make (.playback Unit (List.replicate 16 (960, 5)) 4 false [true, true])) tr g ∧
      p ∈ g.store.cells ∧ ∃ i, (g.trigger.rows i).mib.held = some p ∧
        (g.trigger.rows i).pss.tracking.isTracking = true ∧
        ∃ cellId, IsIdentity (i : ℕ) cellId ∧ p.cellId = .ok cellId := by
  have hexec : Machine.exec (step (.playback Unit (List.replicate 16 (960, 5)) 7))
      (make (.playback Unit (List.replicate 16 (960, 5)) 4 false [true, true]))
      ((DownlinkTrigger.acquisition 2).map .trigger ++
        [.trigger (.mib 2 0 0 0), .deliver .track]) = some (_, _) := rfl
  have hrun := Machine.Run.of_exec hexec
  have hmake :=
    DownlinkTrigger.make_playback Unit (List.replicate 16 (960, 5)) 7 4 false [true, true]
  have hsees := seesLosses_run hrun fun t ht i more now fresh hinput => by
    have hmem := List.mem_map_of_mem (f := Machine.Transition.input) ht
    rw [Machine.inputs_of_exec hexec, hinput] at hmem
    simp [DownlinkTrigger.acquisition] at hmem
    exact hmem.2.1
  have hfollow : CellSearch.DropsFollow (handled _) :=
    (CellSearch.sourced_run (fun i => (mib_made hmake i).2)
      (CellSearch.advance_run (search_run hrun))).dropsFollow ⟨[], rfl⟩
  have htracked := (cells_tracked (.ofNId1 Unit (by decide)) hmake hrun
    ⟨by decide, by decide, by rintro (_ | _) <;> rfl⟩ hfollow hsees).2.2 _
    (List.mem_singleton_self _)
  exact ⟨_, _, _, hrun, List.mem_singleton_self _, htracked⟩

end FlowGraph

end LteTrigger
