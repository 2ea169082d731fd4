import LteTrigger.CellStore.Delivery
import LteTrigger.Trigger.Basic

/-!
# The flow graph of a trigger and a cell store

`cell_search_file` and the example flow graphs connect the ports `track` and `drop` of a
`downlink_trigger_c` to those of a `cellstore`. The scheduler runs every block in a thread of its
own, so events of the nine blocks, of `set_psr_threshold` and of the store may come in any order.

## Main definitions

* `FlowGraph`: the trigger, the store and the messages between them;
* `FlowGraph.step`: an event of the trigger, or the handling of a message.

## Main results

* `FlowGraph.isPart_trigger`: the trigger is a part of the flow graph;
* `FlowGraph.isPart_search`: so are its `mib` blocks together with the store.
-/

namespace LteTrigger

/-- An event in which a message object that is made has the identity `ref`. -/
def TriggerEvent.withFresh {D S : Type} (ref : ℕ) : TriggerEvent D S → TriggerEvent D S
  | .mib i more now _ => .mib i more now ref
  | e => e

/-- Only calls of `mib` blocks make message objects. -/
theorem TriggerEvent.fresh_of_withFresh {D S : Type} {ref : ℕ} {e : TriggerEvent D S} {i : Fin 3}
    {more : ℕ} {now : ℤ} {fresh : ℕ} (h : e.withFresh ref = .mib i more now fresh) :
    fresh = ref := by
  cases e <;> cases h
  rfl

/-- The call of a `mib` block that an event was, and its row. -/
def TriggerWork.mibWork {F S : Type} : TriggerWork F S → Option (Fin 3 × MibCall S × MibWork S)
  | .row i _ (.mib call w) => some (i, call, w)
  | _ => none

/-- A trigger, a cell store, and the messages between them. -/
structure FlowGraph (D F S Det Tab Sync Dec : Type) where
  /-- `trigger`. -/
  trigger : DownlinkTrigger D F S Det Tab Sync Dec
  /-- `cellstore`. -/
  store : CellStore
  /-- The queue of each port of the store. -/
  queue : Port → List PmtT
  /-- The identity of the next message object. -/
  nextRef : ℕ

/-- What can happen to the flow graph. -/
inductive FlowGraphEvent (D S : Type)
  /-- An event of the trigger. A message object made in it gets the next identity. -/
  | trigger (event : TriggerEvent D S)
  /-- The store handles the first message in the queue of a port. -/
  | deliver (port : Port)

/-- What an event did. -/
inductive FlowGraphWork (F S : Type)
  /-- The work of the trigger. -/
  | trigger (work : TriggerWork F S)
  /-- The message that was handled. -/
  | deliver (msg : Message)

/-- Only a call of a `mib` block is one in its row. -/
theorem TriggerEvent.eq_mib_of_rowEvent {D F S : Type} {e : TriggerEvent D S} {i : Fin 3}
    {more : ℕ} {now : ℤ} {fresh : ℕ}
    (h : e.rowEvent = some (i, (.mib more now fresh : RowEvent F S))) :
    e = .mib i more now fresh := by
  cases e <;> cases h
  rfl

namespace DownlinkTrigger

variable [GnuRadio] {D F S Det Tab Sync Dec : Type} [FloatOps D] [FloatOps F]
  {lib : TriggerLib D F S Det Tab Sync Dec} {s s' : DownlinkTrigger D F S Det Tab Sync Dec}
  {e : TriggerEvent D S} {o : TriggerWork F S}

/-- Only a call of a `mib` block by the scheduler is one in its row. -/
theorem eq_mib_of_step {i : Fin 3} {more : ℕ} {now : ℤ} {fresh : ℕ} {work : RowWork S}
    (h : step lib s e = .ok (s', .row i (.mib more now fresh) work)) :
    e = .mib i more now fresh := by
  rcases step_cases h with ⟨j, event, work', he, ho, -⟩ | ⟨_, -, -, ho, -⟩ | ⟨_, _, -, -, ho, -⟩
  · cases ho
    exact TriggerEvent.eq_mib_of_rowEvent he
  · cases ho
  · cases ho

/-- A call of a `mib` block, which touches no other row. -/
theorem mib_of_step (h : step lib s e = .ok (s', o)) {i : Fin 3} {call : MibCall S}
    {w : MibWork S} (ho : o.mibWork = some (i, call, w)) :
    ∃ more now fresh event, e = .mib i more now fresh ∧ call.fresh = fresh ∧
      o = .row i event (.mib call w) ∧
      MibImpl.generalWork lib.mib (s.rows i).mib call = .ok ((s'.rows i).mib, w) ∧
      ∀ j, j ≠ i → s'.rows j = s.rows j := by
  rcases step_cases h with
    ⟨j, event, work, he, rfl, hrow, hs⟩ | ⟨_, -, -, rfl, -⟩ | ⟨_, _, -, -, rfl, -⟩
  · rcases Row.step_cases hrow with
      ⟨_, _, _, _, -, -, rfl, -⟩ | ⟨_, _, _, -, -, rfl, -⟩ |
      ⟨more, now, fresh, first, rest, w', rfl, -, -, -, hmib, rfl, -⟩
    · simp [TriggerWork.mibWork] at ho
    · simp [TriggerWork.mibWork] at ho
    · simp only [TriggerWork.mibWork, Option.some.injEq, Prod.mk.injEq] at ho
      obtain ⟨rfl, rfl, rfl⟩ := ho
      refine ⟨more, now, fresh, _, TriggerEvent.eq_mib_of_rowEvent he, rfl, rfl, hmib,
        fun k hk => ?_⟩
      rw [hs]
      exact Function.update_of_ne hk _ _
  · simp [TriggerWork.mibWork] at ho
  · simp [TriggerWork.mibWork] at ho

/-- Any other event leaves the `mib` blocks as they are. -/
theorem mib_of_mibWork_eq_none (h : step lib s e = .ok (s', o)) (ho : o.mibWork = none)
    (i : Fin 3) : (s'.rows i).mib = (s.rows i).mib := by
  have hrow {j : Fin 3} {row : Row F S Det Tab Sync Dec} (hmib : row.mib = (s.rows j).mib) :
      (Function.update s.rows j row i).mib = (s.rows i).mib := by
    by_cases hi : i = j
    · rw [hi, Function.update_self, hmib]
    · rw [Function.update_of_ne hi]
  rcases step_cases h with
    ⟨j, event, work, -, rfl, hstep, hs⟩ | ⟨_, -, -, -, rfl⟩ | ⟨j, _, -, -, -, rfl⟩
  · rw [hs]
    refine hrow ?_
    rcases Row.step_cases hstep with
      ⟨_, _, _, _, -, -, -, hr⟩ | ⟨_, _, _, -, -, -, hr⟩ | ⟨_, _, _, _, _, _, -, -, -, -, -, rfl, -⟩
    · rw [hr]
    · rw [hr]
    · simp [TriggerWork.mibWork] at ho
  · rfl
  · exact hrow rfl

end DownlinkTrigger

namespace FlowGraph

variable [GnuRadio] {D F S Det Tab Sync Dec : Type} [FloatOps D] [FloatOps F]

/-- The blocks once they are constructed and connected. -/
def make (trigger : DownlinkTrigger D F S Det Tab Sync Dec) :
    FlowGraph D F S Det Tab Sync Dec where
  trigger
  store := .make
  queue _ := []
  nextRef := 1

/-- One event. -/
def step (lib : TriggerLib D F S Det Tab Sync Dec) (g : FlowGraph D F S Det Tab Sync Dec) :
    FlowGraphEvent D S →
      Except TriggerError (FlowGraph D F S Det Tab Sync Dec × FlowGraphWork F S)
  | .trigger event =>
    match DownlinkTrigger.step lib g.trigger (event.withFresh g.nextRef) with
    | .error e => .error e
    | .ok (trigger, work) =>
      match work.mibWork with
      | none => .ok ({ g with trigger := trigger }, .trigger work)
      | some (_, _, w) =>
        .ok ({ g with
            trigger := trigger
            queue := fun port => g.queue port ++ messagesOn port w.msgs
            nextRef := g.nextRef + 1 },
          .trigger work)
  | .deliver port =>
    match g.queue port with
    | [] => .error .notCalled
    | payload :: queue =>
      match g.store.handle ⟨port, payload⟩ with
      -- an exception ends the thread of the store
      | .error e => .error (.thrown e)
      | .ok store =>
        .ok ({ g with store := store, queue := Function.update g.queue port queue },
          .deliver ⟨port, payload⟩)

/-- One event in a run. -/
abbrev Transition (D F S Det Tab Sync Dec : Type) :=
  Machine.Transition (FlowGraph D F S Det Tab Sync Dec) (FlowGraphEvent D S) (FlowGraphWork F S)

section Steps

variable {lib : TriggerLib D F S Det Tab Sync Dec} {g g' : FlowGraph D F S Det Tab Sync Dec}
  {e : FlowGraphEvent D S} {o : FlowGraphWork F S}

/-- All that can happen: an event of the trigger that publishes nothing, a call of a `mib` block,
or the handling of a message. -/
theorem step_cases (h : step lib g e = .ok (g', o)) :
    (∃ event work, e = .trigger event ∧ o = .trigger work ∧ work.mibWork = none ∧
      DownlinkTrigger.step lib g.trigger (event.withFresh g.nextRef) = .ok (g'.trigger, work) ∧
      g' = { g with trigger := g'.trigger }) ∨
    (∃ event work i call w, e = .trigger event ∧ o = .trigger work ∧
      work.mibWork = some (i, call, w) ∧
      DownlinkTrigger.step lib g.trigger (event.withFresh g.nextRef) = .ok (g'.trigger, work) ∧
      g' = { g with
        trigger := g'.trigger
        queue := fun port => g.queue port ++ messagesOn port w.msgs
        nextRef := g.nextRef + 1 }) ∨
    (∃ port payload queue, e = .deliver port ∧ g.queue port = payload :: queue ∧
      g.store.handle ⟨port, payload⟩ = .ok g'.store ∧ o = .deliver ⟨port, payload⟩ ∧
      g' = { g with store := g'.store, queue := Function.update g.queue port queue }) := by
  cases e with
  | trigger event =>
    simp only [step] at h
    split at h
    · cases h
    · rename_i trigger work hstep
      split at h
      · rename_i hnone
        left
        obtain ⟨rfl, rfl⟩ := Prod.mk.inj (Except.ok.inj h)
        exact ⟨event, work, rfl, rfl, hnone, hstep, rfl⟩
      · rename_i i call w hwork
        right; left
        obtain ⟨rfl, rfl⟩ := Prod.mk.inj (Except.ok.inj h)
        exact ⟨event, work, i, call, w, rfl, rfl, hwork, hstep, rfl⟩
  | deliver port =>
    right; right
    simp only [step] at h
    split at h
    · cases h
    · rename_i payload queue hqueue
      split at h
      · cases h
      · rename_i store hstore
        obtain ⟨rfl, rfl⟩ := Prod.mk.inj (Except.ok.inj h)
        exact ⟨port, payload, queue, rfl, hqueue, hstore, rfl, rfl⟩

end Steps

/-! ### The parts of the flow graph -/

/-- What a transition is to the trigger. -/
def triggerPart (t : Transition D F S Det Tab Sync Dec) :
    Option (DownlinkTrigger.Transition D F S Det Tab Sync Dec) :=
  match t.input, t.output with
  | .trigger event, .trigger work =>
    some ⟨t.pre.trigger, event.withFresh t.pre.nextRef, work, t.post.trigger⟩
  | _, _ => none

omit [GnuRadio] [FloatOps D] [FloatOps F] in
theorem triggerPart_eq_some {t : Transition D F S Det Tab Sync Dec}
    {u : DownlinkTrigger.Transition D F S Det Tab Sync Dec} (h : triggerPart t = some u) :
    t.output = .trigger u.output ∧
      ∃ event, t.input = .trigger event ∧ u.input = event.withFresh t.pre.nextRef := by
  rw [triggerPart] at h
  split at h
  · rename_i event work hinput ho
    obtain rfl := Option.some.inj h
    exact ⟨ho, event, hinput, rfl⟩
  · cases h

/-- The `mib` blocks, the store, and the messages between them. -/
def search (g : FlowGraph D F S Det Tab Sync Dec) : CellSearch S Dec where
  mibs i := (g.trigger.rows i).mib
  store := g.store
  queue := g.queue
  nextRef := g.nextRef

/-- What a transition is to the `mib` blocks and the store. -/
def searchPart (t : Transition D F S Det Tab Sync Dec) : Option (CellSearch.Transition S Dec) :=
  match t.output with
  | .trigger work =>
    work.mibWork.map fun m => ⟨search t.pre, .mib m.1 m.2.1, .mib m.2.2, search t.post⟩
  | .deliver msg => some ⟨search t.pre, .deliver msg.port, .deliver msg, search t.post⟩

/-- The trigger is a part of the flow graph. -/
theorem isPart_trigger (lib : TriggerLib D F S Det Tab Sync Dec) :
    Machine.IsPart (step lib) (DownlinkTrigger.step lib) trigger triggerPart := by
  intro t hstep
  rcases step_cases hstep with
    ⟨event, work, he, ho, -, htrigger, -⟩ | ⟨event, work, i, call, w, he, ho, -, htrigger, -⟩ |
    ⟨port, payload, queue, he, -, -, ho, hg⟩
  · exact .inr ⟨⟨t.pre.trigger, event.withFresh t.pre.nextRef, work, t.post.trigger⟩,
      by simp [triggerPart, he, ho], rfl, rfl, htrigger⟩
  · exact .inr ⟨⟨t.pre.trigger, event.withFresh t.pre.nextRef, work, t.post.trigger⟩,
      by simp [triggerPart, he, ho], rfl, rfl, htrigger⟩
  · exact .inl ⟨by simp [triggerPart, he], by rw [hg]⟩

/-- The `mib` blocks and the store are a part of the flow graph. -/
theorem isPart_search (lib : TriggerLib D F S Det Tab Sync Dec) :
    Machine.IsPart (step lib) (CellSearch.step lib.mib) search searchPart := by
  intro t hstep
  rcases step_cases hstep with
    ⟨event, work, -, ho, hnone, htrigger, hg⟩ |
    ⟨event, work, i, call, w, -, ho, hwork, htrigger, hg⟩ |
    ⟨port, payload, queue, -, hqueue, hstore, ho, hg⟩
  · refine .inl ⟨by simp [searchPart, ho, hnone], ?_⟩
    have hmibs : (fun i => (t.post.trigger.rows i).mib) = fun i => (t.pre.trigger.rows i).mib :=
      funext (DownlinkTrigger.mib_of_mibWork_eq_none htrigger hnone)
    rw [search, search, hmibs, hg]
  · obtain ⟨more, now, fresh, _, he, hfresh, -, hmib, hother⟩ :=
      DownlinkTrigger.mib_of_step htrigger hwork
    have hfresh' : call.fresh = t.pre.nextRef :=
      hfresh.trans (TriggerEvent.fresh_of_withFresh he)
    have hmibs : (fun j => (t.post.trigger.rows j).mib) = Function.update
        (fun j => (t.pre.trigger.rows j).mib) i (t.post.trigger.rows i).mib := by
      funext j
      by_cases hj : j = i
      · rw [hj, Function.update_self]
      · rw [Function.update_of_ne hj, hother j hj]
    refine .inr ⟨⟨search t.pre, .mib i call, .mib w, search t.post⟩,
      by simp [searchPart, ho, hwork], rfl, rfl, ?_⟩
    have hcall : { call with fresh := t.pre.nextRef } = call := by rw [← hfresh']
    simp only [CellSearch.step, search, hcall, hmib]
    rw [hmibs, hg]
  · refine .inr ⟨⟨search t.pre, .deliver port, .deliver ⟨port, payload⟩, search t.post⟩,
      by simp [searchPart, ho], rfl, rfl, ?_⟩
    simp only [CellSearch.step, search, hqueue, hstore]
    rw [hg]

end FlowGraph

end LteTrigger
