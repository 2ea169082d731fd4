import LteTrigger.FlowGraph.Consistency
import LteTrigger.Trigger.Termination
import Mathlib.Algebra.BigOperators.Fin

/-!
# A flow graph without new input

When `pss` is no longer called, because the recording has ended or for some other reason, the
half-frames and messages that are on the way can still be handled. However the scheduler goes on,
it comes to an end: every call of `sss` or `mib` and every message that is handled makes the backlog
smaller, and until the flow graph is quiet one of these can happen and does not throw.

A `mib` that is done is not called any more, so half-frames that wait before it stay there for good.
A quiet flow graph may have such half-frames, and nothing else on the way.

## Main definitions

* `FlowGraphEvent.Drains`: the events that need no new input;
* `FlowGraph.Quiet`: nothing is on the way, except half-frames before a `mib` that is done;
* `FlowGraph.backlog`: a bound for the events that may follow without new input.

## Main results

* `FlowGraph.backlog_step`: each of these events makes the backlog smaller;
* `FlowGraph.exists_drain`: one of them can happen, or the flow graph is quiet;
* `FlowGraph.drains`: every way to go on without new input ends in a quiet flow graph.
-/

namespace LteTrigger

/-- An event that needs no new input: a call of `sss` or `mib`, or the handling of a message. -/
def FlowGraphEvent.Drains {D S : Type} : FlowGraphEvent D S → Prop
  | .trigger (.sss _ _) => True
  | .trigger (.mib _ _ _ _) => True
  | .trigger _ => False
  | .deliver _ => True

theorem FlowGraphEvent.drains_withFresh {D S : Type} (ref : ℕ) {e : TriggerEvent D S} :
    (FlowGraphEvent.trigger (e.withFresh ref)).Drains = (FlowGraphEvent.trigger e).Drains := by
  cases e <;> rfl

/-- Of a sum over rows, one of which has changed, only its part is another. -/
theorem sum_rows {f f' : Fin 3 → ℕ} {i : Fin 3} (h : ∀ j, j ≠ i → f' j = f j) :
    ∑ j, f' j + f i = ∑ j, f j + f' i := by
  have hrest : ∑ j ∈ {i}ᶜ, f' j = ∑ j ∈ {i}ᶜ, f j :=
    Finset.sum_congr rfl fun j hj => h j (by simpa using hj)
  rw [Fintype.sum_eq_add_sum_compl i f, Fintype.sum_eq_add_sum_compl i f', hrest]
  omega

namespace Row

variable [GnuRadio] {F S Det Tab Sync Dec : Type} [FloatOps F] {lib : ChainLib F S Det Tab Sync Dec}
  {t : Transition F S Det Tab Sync Dec}

omit [GnuRadio] [FloatOps F] in
/-- A bound for the events in a row, and for the messages they make, without new input. A
half-frame before `sss` may be worked on twice and be the cause of a message. -/
def backlog (r : Row F S Det Tab Sync Dec) : ℕ := 3 * r.toSss.length + 2 * r.callsLeft

/-- A call of `sss` makes the backlog of its row smaller. -/
theorem backlog_sss {taken given : Frame S}
    (hstep : step lib t.pre t.input = .ok (t.post, t.output)) (ho : t.output = .sss taken given) :
    t.post.backlog + 1 ≤ t.pre.backlog := by
  obtain ⟨hleft, hmoved⟩ := callsLeft_sss hstep ho
  rw [backlog, backlog]
  omega

/-- So does a call of `mib`, which publishes one message at most. -/
theorem backlog_mib {call : MibCall S} {w : MibWork S}
    (hstep : step lib t.pre t.input = .ok (t.post, t.output)) (ho : t.output = .mib call w) :
    t.post.backlog + w.msgs.length + 1 ≤ t.pre.backlog := by
  obtain ⟨hleft, hsame, hmsgs⟩ := callsLeft_mib hstep ho
  rw [backlog, backlog, hsame]
  omega

end Row

namespace FlowGraph

variable {D F S Det Tab Sync Dec : Type} [FloatOps D] [FloatOps F]
  {lib : TriggerLib D F S Det Tab Sync Dec} {psrThreshold : D} {exitOnSuccess : Bool}
  {memory : Fin 3 → MibMemory Dec} {trigger : DownlinkTrigger D F S Det Tab Sync Dec}
  {g g' : FlowGraph D F S Det Tab Sync Dec} {tr tr' : List (Transition D F S Det Tab Sync Dec)}
  {t : Transition D F S Det Tab Sync Dec}

/-- Nothing is on the way, except half-frames before a `mib` that is done. -/
structure Quiet (g : FlowGraph D F S Det Tab Sync Dec) : Prop where
  toSss : ∀ i, (g.trigger.rows i).toSss = []
  toMib : ∀ i, (g.trigger.rows i).done = false → (g.trigger.rows i).toMib = []
  queue : ∀ port, g.queue port = []

/-- A bound for the events that may follow without new input. -/
def backlog (g : FlowGraph D F S Det Tab Sync Dec) : ℕ :=
  ∑ i, (g.trigger.rows i).backlog + ((g.queue .track).length + (g.queue .drop).length)

/-- A message is one on one of the ports. -/
theorem length_messagesOn (msgs : List Message) :
    (messagesOn .track msgs).length + (messagesOn .drop msgs).length = msgs.length := by
  rw [(perm_messagesOn msgs).length_eq, List.length_append, List.length_map, List.length_map]

/-- A call of `sss` or `mib` makes the backlog of the rows smaller by what it publishes and one. -/
theorem sum_backlog [GnuRadio] {s s' : DownlinkTrigger D F S Det Tab Sync Dec}
    {e : TriggerEvent D S} {o : TriggerWork F S} (hdrains : (FlowGraphEvent.trigger e).Drains)
    (hstep : DownlinkTrigger.step lib s e = .ok (s', o)) :
    (o.mibWork = none ∧
      ∑ i, (s'.rows i).backlog + 1 ≤ ∑ i, (s.rows i).backlog) ∨
    ∃ i call w, o.mibWork = some (i, call, w) ∧
      ∑ i, (s'.rows i).backlog + w.msgs.length + 1 ≤ ∑ i, (s.rows i).backlog := by
  rcases DownlinkTrigger.step_cases hstep with
    ⟨i, event, work, hevent, rfl, hrow, hs⟩ | ⟨_, rfl, -⟩ | ⟨_, _, rfl, -⟩
  · have hsum := @sum_rows (fun j => (s.rows j).backlog) (fun j => (s'.rows j).backlog) i
      fun j hj => by
        rw [hs]
        exact congrArg Row.backlog (Function.update_of_ne hj _ _)
    rcases Row.block_of_step hrow with
      ⟨work, frame, hblock, rfl⟩ | ⟨taken, given, hblock, rfl⟩ | ⟨call, w, hblock, rfl⟩
    · -- `pss` is not called
      cases e with
      | pss => exact hdrains.elim
      | sss => cases hevent; cases hblock
      | mib => cases hevent; cases hblock
      | setPsrThreshold => cases hevent
      | setNext => cases hevent
    · have hsmaller : (s'.rows i).backlog + 1 ≤ (s.rows i).backlog :=
        Row.backlog_sss (t := ⟨s.rows i, event, _, s'.rows i⟩) hrow rfl
      exact .inl ⟨rfl, by omega⟩
    · have hsmaller : (s'.rows i).backlog + w.msgs.length + 1 ≤ (s.rows i).backlog :=
        Row.backlog_mib (t := ⟨s.rows i, event, _, s'.rows i⟩) hrow rfl
      exact .inr ⟨i, call, w, rfl, by omega⟩
  · exact hdrains.elim
  · exact hdrains.elim

/-- Each event that needs no new input makes the backlog smaller. -/
theorem backlog_step [GnuRadio] (hdrains : t.input.Drains)
    (hstep : step lib t.pre t.input = .ok (t.post, t.output)) :
    t.post.backlog + 1 ≤ t.pre.backlog := by
  rcases step_cases hstep with
    ⟨event, work, he, -, hnone, htrigger, hg⟩ |
    ⟨event, work, i, call, w, he, -, hwork, htrigger, hg⟩ |
    ⟨port, payload, queue, -, hqueue, -, -, hg⟩
  · rw [he, ← FlowGraphEvent.drains_withFresh t.pre.nextRef] at hdrains
    rcases sum_backlog hdrains htrigger with ⟨-, hrows⟩ | ⟨_, _, _, hwork, -⟩
    · rw [hg]
      simp only [backlog]
      omega
    · rw [hnone] at hwork
      cases hwork
  · rw [he, ← FlowGraphEvent.drains_withFresh t.pre.nextRef] at hdrains
    rcases sum_backlog hdrains htrigger with ⟨hnone, -⟩ | ⟨_, _, w', hwork', hrows⟩
    · rw [hnone] at hwork
      cases hwork
    · obtain rfl : w' = w := by
        rw [hwork] at hwork'
        cases hwork'
        rfl
      have hmsgs := length_messagesOn w'.msgs
      rw [hg]
      simp only [backlog, List.length_append]
      omega
  · have hrows : ∑ i, (t.post.trigger.rows i).backlog = ∑ i, (t.pre.trigger.rows i).backlog := by
      rw [hg]
    have hlength := congrArg List.length hqueue
    rw [List.length_cons] at hlength
    rw [backlog, backlog, hrows, hg]
    cases port with
    | track =>
      simp only [Function.update_self, ne_eq, reduceCtorEq, not_false_eq_true,
        Function.update_of_ne]
      omega
    | drop =>
      simp only [Function.update_self, ne_eq, reduceCtorEq, not_false_eq_true,
        Function.update_of_ne]
      omega

/-- In a run of such events the backlog bounds how many there are. -/
theorem length_add_backlog_le [GnuRadio] (hrun : Machine.Run (step lib) g tr' g')
    (hdrains : ∀ t ∈ tr', t.input.Drains) : tr'.length + g'.backlog ≤ g.backlog := by
  have hpotential := hrun.potential backlog (fun _ => 1) (fun _ => 0) fun t ht hstep => by
    have hsmaller := backlog_step (hdrains t ht) hstep
    omega
  simpa using hpotential

/-- An event of a row that can happen there can happen in the flow graph. -/
theorem exists_step_of_row [GnuRadio] {e : TriggerEvent D S} {i : Fin 3} {event : RowEvent F S}
    {row : Row F S Det Tab Sync Dec} {work : RowWork S}
    (hevent : (e.withFresh g.nextRef).rowEvent = some (i, event))
    (hrow : Row.step lib.toChainLib (g.trigger.rows i) event = .ok (row, work)) :
    ∃ g' o, step lib g (.trigger e) = .ok (g', o) := by
  have htrigger : DownlinkTrigger.step lib g.trigger (e.withFresh g.nextRef) =
      DownlinkTrigger.stepRow lib g.trigger i event := by
    cases e <;> cases hevent <;> rfl
  simp only [step, htrigger, DownlinkTrigger.stepRow, hrow, Except.map]
  split <;> exact ⟨_, _, rfl⟩

/-- Until the flow graph is quiet, some event can happen that needs no new input. Half-frames that
wait before a `mib` that is done do not count here: no event takes them. -/
theorem exists_drain [GnuRadio] (members : SyncMembers lib.sss)
    (hmake : DownlinkTrigger.make lib psrThreshold exitOnSuccess memory = .ok trigger)
    (hrun : Machine.Run (step lib) (make trigger) tr g) :
    g.Quiet ∨ ∃ e g' o, e.Drains ∧ step lib g e = .ok (g', o) := by
  by_cases hsss : ∀ i, (g.trigger.rows i).toSss = []
  · by_cases hmib : ∀ i, (g.trigger.rows i).done = false → (g.trigger.rows i).toMib = []
    · by_cases hqueue : ∀ port, g.queue port = []
      · exact .inl ⟨hsss, hmib, hqueue⟩
      · push Not at hqueue
        obtain ⟨port, hport⟩ := hqueue
        obtain ⟨p, queue, hp⟩ := List.exists_cons_of_ne_nil hport
        obtain ⟨store, hstore⟩ := exists_handle members hmake hrun
          (show p ∈ g.queue port from hp ▸ List.mem_cons_self)
        exact .inr ⟨.deliver port, _, _, trivial, by simp only [step, hp, hstore]; rfl⟩
    · push Not at hmib
      obtain ⟨i, hdone, hqueue⟩ := hmib
      obtain ⟨first, rest, hrest⟩ := List.exists_cons_of_ne_nil hqueue
      -- a half-frame before `mib` carries identities only, so the call does not throw
      obtain ⟨mib, w, hw⟩ := MibImpl.exists_generalWork (c := ⟨first, [], 0, g.nextRef⟩) lib.mib
        (g.trigger.rows i).mib ((identified_run members hmake hrun i).toMib first (by simp [hrest]))
      obtain ⟨g', o, hstep⟩ := exists_step_of_row (e := .mib i 0 0 0) rfl
        (Row.step_mib hrest hdone (Nat.zero_le _) List.take_zero hw rfl)
      exact .inr ⟨.trigger (.mib i 0 0 0), g', o, trivial, hstep⟩
  · push Not at hsss
    obtain ⟨i, hqueue⟩ := hsss
    obtain ⟨frame, toSss, hframe⟩ := List.exists_cons_of_ne_nil hqueue
    obtain ⟨g', o, hstep⟩ := exists_step_of_row (e := .sss i frame.samples) rfl
      (Row.step_sss hframe rfl)
    exact .inr ⟨.trigger (.sss i frame.samples), g', o, trivial, hstep⟩

/-- From every state the flow graph can go on without new input until it is quiet. -/
theorem exists_quiet [GnuRadio] (members : SyncMembers lib.sss)
    (hmake : DownlinkTrigger.make lib psrThreshold exitOnSuccess memory = .ok trigger)
    (hrun : Machine.Run (step lib) (make trigger) tr g) :
    ∃ tr' g', Machine.Run (step lib) g tr' g' ∧ (∀ t ∈ tr', t.input.Drains) ∧ g'.Quiet := by
  induction hbacklog : g.backlog using Nat.strong_induction_on generalizing g tr with
  | _ n ih =>
    rcases exists_drain members hmake hrun with hquiet | ⟨e, g₁, o, hdrains, hstep⟩
    · exact ⟨[], g, .nil, by simp, hquiet⟩
    · have hsmaller : g₁.backlog + 1 ≤ g.backlog := backlog_step (t := ⟨g, e, o, g₁⟩) hdrains hstep
      obtain ⟨tr', g', hrun', hall, hquiet⟩ := ih _ (by omega) (hrun.snoc hstep) rfl
      exact ⟨_, g', hrun'.cons hstep, List.forall_mem_cons.mpr ⟨hdrains, hall⟩, hquiet⟩

/-- Whatever state a run of a flow graph has reached, and however the scheduler goes on without new
input: it comes to an end, after no more events than the backlog says, and what it ends in is a
flow graph in which nothing is on the way, except half-frames before a `mib` that is done, which
stay there for good. In all states before that it can go on. -/
theorem drains [GnuRadio] (members : SyncMembers lib.sss)
    (hmake : DownlinkTrigger.make lib psrThreshold exitOnSuccess memory = .ok trigger)
    (hrun : Machine.Run (step lib) (make trigger) tr g) :
    (∀ tr' g', Machine.Run (step lib) g tr' g' → (∀ t ∈ tr', t.input.Drains) →
      tr'.length ≤ g.backlog ∧
      (g'.Quiet ∨ ∃ e g'' o, e.Drains ∧ step lib g' e = .ok (g'', o))) ∧
    ∃ tr' g', Machine.Run (step lib) g tr' g' ∧ (∀ t ∈ tr', t.input.Drains) ∧ g'.Quiet := by
  refine ⟨fun tr' g' hrun' hdrains => ⟨?_, ?_⟩, exists_quiet members hmake hrun⟩
  · exact (Nat.le_add_right _ _).trans (length_add_backlog_le hrun' hdrains)
  · exact exists_drain members hmake (hrun.append hrun')

/-- Sixteen half-frames wait before `sss`. -/
theorem drains_playback :
    ∃ tr g, Machine.Run (step (.playback Unit (List.replicate 16 (960, 5)) 7))
        (make (.playback Unit (List.replicate 16 (960, 5)) 4 false [true, true])) tr g ∧
      (g.trigger.rows 2).toSss.length = 16 ∧
      ∃ tr' g', Machine.Run (step (.playback Unit (List.replicate 16 (960, 5)) 7)) g tr' g' ∧
        (∀ t ∈ tr', t.input.Drains) ∧ g'.Quiet := by
  obtain ⟨tr, g, hexec, hwaiting⟩ : ∃ tr g,
      Machine.exec (step (.playback Unit (List.replicate 16 (960, 5)) 7))
        (make (.playback Unit (List.replicate 16 (960, 5)) 4 false [true, true]))
        (((DownlinkTrigger.acquisition 2).take 16).map .trigger) = some (tr, g) ∧
      (g.trigger.rows 2).toSss.length = 16 := ⟨_, _, rfl, rfl⟩
  have hrun := Machine.Run.of_exec hexec
  exact ⟨tr, g, hrun, hwaiting, (drains (.ofNId1 Unit (by decide))
    (DownlinkTrigger.make_playback Unit _ 7 4 false _) hrun).2⟩

end FlowGraph

end LteTrigger
