import LteTrigger.CellStore.Basic
import LteTrigger.Machine.Run
import LteTrigger.Mib.Published
import Mathlib.Logic.Function.Basic

/-!
# Messages from three `mib` blocks to a `cellstore`

`cell_search_file` connects the ports `track` and `drop` of the three `mib` blocks of a
`downlink_trigger_c` to the ports of a `cellstore`. Each port of the store has a queue. A `mib`
block puts its messages into the queues as it publishes them. The store handles the messages of
one port in the order they were put there, but it may take the next one from either port.

A handler that throws ends the thread of the store. So an event of `CellSearch.step` is never one
in which a handler throws: a message that the store refuses stays first in its queue for good. What
is shown here of runs after which the queues are empty (`quiescent_iff`) says nothing about runs in
which a cell is published that the store refuses, since the queues never become empty then
(`accepted_of_quiet`). `CellSearch.advance`, defined in `CellStore/InOrder`, is the same system with
a store that goes on after a handler has thrown.

## Main definitions

* `CellSearch`: the blocks and the queues;
* `CellSearch.step`: a call of a `mib` block or the handling of a message;
* `CellSearch.StillTracked`, `CellSearch.DropsFollow`: what the store should hold, and the
  order in which its handlers have to run.

## Main results

* `accounted_run`: what the blocks publish is accounted for;
* `accepted_of_quiet`: in a run after which the queues are empty no cell is refused;
* `quiescent_iff`: once all messages are handled, the store holds the cells that are still
  tracked exactly if every drop was handled after the track of the same object.
-/

namespace LteTrigger

/-- Three `mib` blocks, a cell store, and the messages between them. -/
structure CellSearch (S Dec : Type) where
  /-- The `mib` blocks. -/
  mibs : Fin 3 → MibImpl S Dec
  /-- The cell store. -/
  store : CellStore
  /-- The queue of each port of the store. -/
  queue : Port → List PmtT
  /-- The identity of the next message object. -/
  nextRef : ℕ

/-- What can happen. -/
inductive CellSearchEvent (S : Type)
  /-- A call of the `mib` block `i`. A message object made in it gets the next identity. -/
  | mib (i : Fin 3) (call : MibCall S)
  /-- The store handles the first message in the queue of a port. -/
  | deliver (port : Port)

/-- What an event did. -/
inductive CellSearchWork (S : Type)
  /-- The work of a `mib` block. -/
  | mib (work : MibWork S)
  /-- The message that was handled. -/
  | deliver (msg : Message)

/-- Why an event did not happen. -/
inductive CellSearchError
  /-- A block threw. -/
  | thrown (e : Exception)
  /-- There was no message in the queue. -/
  | starved
  deriving DecidableEq, Repr

/-- The payloads of the messages on a port, in order. -/
def messagesOn (port : Port) (msgs : List Message) : List PmtT :=
  (msgs.filter (·.port = port)).map Message.payload

@[simp]
theorem messagesOn_nil (port : Port) : messagesOn port [] = [] := rfl

@[simp]
theorem messagesOn_cons_self (port : Port) (p : PmtT) (msgs : List Message) :
    messagesOn port (⟨port, p⟩ :: msgs) = p :: messagesOn port msgs := by
  simp [messagesOn]

@[simp]
theorem messagesOn_cons_of_ne {port port' : Port} (h : port' ≠ port) (p : PmtT)
    (msgs : List Message) : messagesOn port (⟨port', p⟩ :: msgs) = messagesOn port msgs := by
  simp [messagesOn, h]

@[simp]
theorem messagesOn_append (port : Port) (msgs msgs' : List Message) :
    messagesOn port (msgs ++ msgs') = messagesOn port msgs ++ messagesOn port msgs' := by
  simp [messagesOn]

theorem mem_messagesOn {port : Port} {msgs : List Message} {p : PmtT} :
    p ∈ messagesOn port msgs ↔ ⟨port, p⟩ ∈ msgs := by
  rw [messagesOn, List.mem_map]
  constructor
  · rintro ⟨⟨port', p'⟩, hm, rfl⟩
    obtain ⟨hm, hport⟩ := List.mem_filter.mp hm
    rwa [← of_decide_eq_true hport]
  · intro hm
    exact ⟨⟨port, p⟩, List.mem_filter.mpr ⟨hm, decide_eq_true rfl⟩, rfl⟩

theorem messagesOn_flatMap {ι : Type} (port : Port) (l : List ι) (msgs : ι → List Message) :
    messagesOn port (l.flatMap msgs) = l.flatMap fun i => messagesOn port (msgs i) := by
  rw [messagesOn, List.filter_flatMap, List.map_flatMap]
  rfl

/-- Messages are put together from those on the one port and those on the other. -/
theorem perm_messagesOn (msgs : List Message) :
    msgs.Perm ((messagesOn .track msgs).map (Message.mk .track) ++
      (messagesOn .drop msgs).map (Message.mk .drop)) := by
  induction msgs with
  | nil => exact .nil
  | cons m msgs ih =>
    obtain ⟨port, p⟩ := m
    cases port with
    | track => simpa using ih.cons ⟨.track, p⟩
    | drop => simpa using (ih.cons ⟨.drop, p⟩).trans List.perm_middle.symm

/-- The additions among messages are those on `track`. -/
@[simp]
theorem additions_op (msgs : List Message) :
    Registry.additions (msgs.map Message.op) = messagesOn .track msgs := by
  induction msgs with
  | nil => rfl
  | cons m msgs ih =>
    obtain ⟨port, p⟩ := m
    cases port <;> simpa [Message.op] using ih

/-- The removals among messages are those on `drop`. -/
@[simp]
theorem removals_op (msgs : List Message) :
    Registry.removals (msgs.map Message.op) = (messagesOn .drop msgs).map PmtT.ref := by
  induction msgs with
  | nil => rfl
  | cons m msgs ih =>
    obtain ⟨port, p⟩ := m
    cases port <;> simpa [Message.op] using ih

namespace CellSearch

variable {S Dec : Type}

/-- The blocks once they are constructed and connected. -/
def make (mibs : Fin 3 → MibImpl S Dec) : CellSearch S Dec where
  mibs
  store := .make
  queue _ := []
  nextRef := 1

/-- One event. -/
def step [GnuRadio] (lib : MibLib S Dec) (s : CellSearch S Dec) :
    CellSearchEvent S → Except CellSearchError (CellSearch S Dec × CellSearchWork S)
  | .mib i call =>
    match MibImpl.generalWork lib (s.mibs i) { call with fresh := s.nextRef } with
    | .error e => .error (.thrown e)
    | .ok (mib, w) =>
      .ok ({ s with
          mibs := Function.update s.mibs i mib
          queue := fun port => s.queue port ++ messagesOn port w.msgs
          nextRef := s.nextRef + 1 },
        .mib w)
  | .deliver port =>
    match s.queue port with
    | [] => .error .starved
    | payload :: queue =>
      match s.store.handle ⟨port, payload⟩ with
      | .error e => .error (.thrown e)
      | .ok store =>
        .ok ({ s with store := store, queue := Function.update s.queue port queue },
          .deliver ⟨port, payload⟩)

section Steps

variable {lib : MibLib S Dec} {s s' : CellSearch S Dec} {i : CellSearchEvent S}
  {o : CellSearchWork S}

/-- The two kinds of events. -/
theorem step_cases [GnuRadio] (h : step lib s i = .ok (s', o)) :
    (∃ n call w, i = .mib n call ∧
      MibImpl.generalWork lib (s.mibs n) { call with fresh := s.nextRef } = .ok (s'.mibs n, w) ∧
      o = .mib w ∧
      s' = { s with
        mibs := Function.update s.mibs n (s'.mibs n)
        queue := fun port => s.queue port ++ messagesOn port w.msgs
        nextRef := s.nextRef + 1 }) ∨
    (∃ port payload queue, i = .deliver port ∧ s.queue port = payload :: queue ∧
      s.store.handle ⟨port, payload⟩ = .ok s'.store ∧ o = .deliver ⟨port, payload⟩ ∧
      s' = { s with store := s'.store, queue := Function.update s.queue port queue }) := by
  cases i with
  | mib n call =>
    left
    simp only [step] at h
    split at h
    · cases h
    · rename_i mib w hmib
      obtain ⟨rfl, rfl⟩ := Prod.mk.inj (Except.ok.inj h)
      exact ⟨n, call, w, rfl, by simpa using hmib, rfl, by simp⟩
  | deliver port =>
    right
    simp only [step] at h
    split at h
    · cases h
    · rename_i payload queue hqueue
      split at h
      · cases h
      · rename_i store hstore
        obtain ⟨rfl, rfl⟩ := Prod.mk.inj (Except.ok.inj h)
        exact ⟨port, payload, queue, rfl, hqueue, hstore, rfl, rfl⟩

end Steps

/-- One event in a run. -/
abbrev Transition (S Dec : Type) :=
  Machine.Transition (CellSearch S Dec) (CellSearchEvent S) (CellSearchWork S)

/-- The messages that were published in an event. -/
def publishedIn (t : Transition S Dec) : List Message :=
  match t.output with
  | .mib w => w.msgs
  | .deliver _ => []

/-- The message that was handled in an event. -/
def handledIn (t : Transition S Dec) : List Message :=
  match t.output with
  | .mib _ => []
  | .deliver msg => [msg]

/-- The messages of a run, in the order they were published. -/
def published (tr : List (Transition S Dec)) : List Message := tr.flatMap publishedIn

/-- The messages the store has handled in a run, in the order it did. -/
def handled (tr : List (Transition S Dec)) : List Message := tr.flatMap handledIn

/-- A cell is tracked and not dropped afterwards. -/
def StillTracked (msgs : List Message) (p : PmtT) : Prop :=
  ∃ l₁ l₂, msgs = l₁ ++ ⟨.track, p⟩ :: l₂ ∧
    ∀ m ∈ l₂, m.port = .drop → m.payload.ref ≠ p.ref

/-- Every drop comes after the track of the same object. -/
def DropsFollow (msgs : List Message) : Prop :=
  ∀ l₁ m l₂, msgs = l₁ ++ m :: l₂ → m.port = .drop →
    ∃ m' ∈ l₁, m'.port = .track ∧ m'.payload.ref = m.payload.ref

section Messages

variable {msgs : List Message} {p : PmtT}

/-- The cells still tracked are what a registry would hold. -/
theorem stillTracked_iff :
    StillTracked msgs p ↔ p ∈ Registry.run PmtT.ref (msgs.map Message.op) := by
  rw [Registry.run_eq_survivors, Registry.mem_survivors]
  -- messages and operations are cut at the same place
  constructor
  · rintro ⟨l₁, l₂, rfl, hkept⟩
    refine ⟨l₁.map Message.op, l₂.map Message.op, by simp [Message.op], ?_⟩
    rw [removals_op, List.mem_map]
    rintro ⟨q, hq, href⟩
    exact hkept ⟨.drop, q⟩ (mem_messagesOn.mp hq) rfl href
  · rintro ⟨ops₁, ops₂, hops, hkept⟩
    obtain ⟨l₁, l, rfl, -, hl⟩ := List.map_eq_append_iff.mp hops
    obtain ⟨m, l₂, rfl, hm, rfl⟩ := List.map_eq_cons_iff.mp hl
    obtain ⟨_ | _, payload⟩ := m <;> cases hm
    refine ⟨l₁, l₂, rfl, fun m hm hdrop href => hkept ?_⟩
    rw [removals_op, ← href]
    obtain ⟨port, q⟩ := m
    obtain rfl : port = .drop := hdrop
    exact List.mem_map_of_mem (mem_messagesOn.mpr hm)

/-- Drops follow if they do as removals. -/
theorem dropsFollow_iff :
    DropsFollow msgs ↔ Registry.RemovesFollow PmtT.ref (msgs.map Message.op) := by
  constructor
  · rintro hfollow ops₁ k ops₂ hops
    obtain ⟨l₁, l, rfl, rfl, hl⟩ := List.map_eq_append_iff.mp hops
    obtain ⟨m, l₂, rfl, hm, -⟩ := List.map_eq_cons_iff.mp hl
    obtain ⟨_ | _, payload⟩ := m <;> cases hm
    -- the track of the object comes before its drop
    obtain ⟨⟨port, q⟩, hq, htrack, href⟩ := hfollow l₁ _ l₂ rfl rfl
    obtain rfl : port = .track := htrack
    rw [additions_op, ← href]
    exact List.mem_map_of_mem (mem_messagesOn.mpr hq)
  · rintro hfollow l₁ ⟨port, payload⟩ l₂ rfl hdrop
    obtain rfl : port = .drop := hdrop
    have hadded := hfollow (l₁.map Message.op) payload.ref (l₂.map Message.op)
      (by simp [Message.op])
    rw [additions_op] at hadded
    obtain ⟨q, hq, href⟩ := List.mem_map.mp hadded
    exact ⟨⟨.track, q⟩, mem_messagesOn.mp hq, rfl, href⟩

/-- A track and the drop of the same object. -/
theorem dropsFollow_pair (p : PmtT) : DropsFollow [⟨.track, p⟩, ⟨.drop, p⟩] := by
  have hpair : Registry.Accounted PmtT.ref [.add p, .remove p.ref] :=
    (Registry.Accounted.nil.concat_add (by simp)).concat_remove (by simp) (by simp)
  exact dropsFollow_iff.mpr hpair.removesFollow

end Messages

/-! ### What the blocks publish is accounted for -/

/-- Sources that hold one object each have published `msgs`, with objects older than `nextRef`.
The messages are accounted for. An object that a source holds was tracked and not dropped, and
no other source holds it. -/
structure Accounting {ι : Type} (held : ι → Option PmtT) (nextRef : ℕ) (msgs : List Message) :
    Prop where
  accounted : Registry.Accounted PmtT.ref (msgs.map Message.op)
  old : ∀ m ∈ msgs, m.payload.ref < nextRef
  kept : ∀ i p, held i = some p →
    p ∈ messagesOn .track msgs ∧ p.ref ∉ (messagesOn .drop msgs).map PmtT.ref
  apart : ∀ i j p q, held i = some p → held j = some q → p.ref = q.ref → i = j

section Accounting

variable {ι : Type} [DecidableEq ι] {held : ι → Option PmtT} {nextRef : ℕ} {msgs : List Message}
  {i j : ι} {p q : PmtT} {o : Option PmtT}

/-- A source that was given something holds that, the others hold what they did. -/
theorem update_eq_some (h : Function.update held i o j = some q) :
    j = i ∧ o = some q ∨ j ≠ i ∧ held j = some q := by
  by_cases hj : j = i
  · rw [hj, Function.update_self] at h
    exact .inl ⟨hj, h⟩
  · rw [Function.update_of_ne hj] at h
    exact .inr ⟨hj, h⟩

/-- A source drops what it holds. -/
theorem Accounting.drop (h : Accounting held nextRef msgs) (hheld : held i = some p) :
    Accounting (Function.update held i none) (nextRef + 1) (msgs ++ [⟨.drop, p⟩]) := by
  obtain ⟨htracked, hkept⟩ := h.kept i p hheld
  -- the sources that still hold something are others, and it is not `p`
  have hstill : ∀ j q, Function.update held i none j = some q → j ≠ i ∧ held j = some q := by
    intro j q hq
    rcases update_eq_some hq with ⟨-, hnone⟩ | hother
    · cases hnone
    · exact hother
  refine ⟨?_, fun m hm => ?_, fun j q hq => ?_, fun j k q r hq hr => ?_⟩
  · -- `p` was tracked and is dropped for the first time
    rw [List.map_append]
    refine h.accounted.concat_remove ?_ ?_
    · rw [additions_op]
      exact List.mem_map_of_mem htracked
    · rwa [removals_op]
  · rw [List.mem_append, List.mem_singleton] at hm
    rcases hm with hm | rfl
    · exact Nat.lt_succ_of_lt (h.old m hm)
    · exact Nat.lt_succ_of_lt (h.old ⟨.track, p⟩ (mem_messagesOn.mp htracked))
  · obtain ⟨hj, hq⟩ := hstill j q hq
    obtain ⟨hqtracked, hqkept⟩ := h.kept j q hq
    have hne : q.ref ≠ p.ref := fun heq => hj (h.apart j i q p hq hheld heq)
    refine ⟨by simpa using hqtracked, ?_⟩
    rw [messagesOn_append, List.map_append, List.mem_append, not_or]
    exact ⟨hqkept, by simpa using hne⟩
  · exact h.apart j k q r (hstill j q hq).2 (hstill k r hr).2

/-- A source tracks a new object. -/
theorem Accounting.track (h : Accounting held nextRef msgs) (href : p.ref = nextRef) :
    Accounting (Function.update held i (some p)) (nextRef + 1) (msgs ++ [⟨.track, p⟩]) := by
  -- `p` is younger than every object published so far
  have hnew : ∀ port, ∀ q ∈ messagesOn port msgs, q.ref ≠ p.ref := by
    intro port q hq heq
    have hold : q.ref < nextRef := h.old ⟨port, q⟩ (mem_messagesOn.mp hq)
    omega
  refine ⟨?_, fun m hm => ?_, fun j q hq => ?_, fun j k q r hq hr heq => ?_⟩
  · rw [List.map_append]
    refine h.accounted.concat_add ?_
    rw [additions_op, List.mem_map]
    rintro ⟨q, hq, heq⟩
    exact hnew .track q hq heq
  · rw [List.mem_append, List.mem_singleton] at hm
    rcases hm with hm | rfl
    · exact Nat.lt_succ_of_lt (h.old m hm)
    · exact Nat.lt_succ_of_le (Nat.le_of_eq href)
  · rcases update_eq_some hq with ⟨rfl, ⟨⟩⟩ | ⟨-, hq⟩
    · refine ⟨by simp, ?_⟩
      rw [messagesOn_append, List.map_append, List.mem_append, not_or, List.mem_map]
      refine ⟨?_, by simp⟩
      rintro ⟨r, hr, heq⟩
      exact hnew .drop r hr heq
    · obtain ⟨hqtracked, hqkept⟩ := h.kept j q hq
      exact ⟨by simp [hqtracked], by simpa using hqkept⟩
  · rcases update_eq_some hq with ⟨rfl, ⟨⟩⟩ | ⟨-, hq'⟩ <;>
      -- two sources that hold one object: the new one is held by `i` only
      rcases update_eq_some hr with ⟨rfl, ⟨⟩⟩ | ⟨-, hr'⟩
    · rfl
    · exact absurd heq.symm (hnew .track r (h.kept k r hr').1)
    · exact absurd heq (hnew .track q (h.kept j q hq').1)
    · exact h.apart j k q r hq' hr' heq

end Accounting

section Runs

variable {lib : MibLib S Dec} {s : CellSearch S Dec} {t : Transition S Dec}
  {tr : List (Transition S Dec)} {mibs : Fin 3 → MibImpl S Dec}

/-- Constructed blocks hold nothing. -/
theorem mibs_held {exitOnSuccess : Bool}
    (hmake : ∀ i, ∃ mib phichLength phichResources sfnOffset calls,
      MibImpl.make lib exitOnSuccess mib phichLength phichResources sfnOffset =
        .ok (mibs i, calls)) (i : Fin 3) : (mibs i).held = none ∧ (mibs i).Settled := by
  obtain ⟨_, _, _, _, _, hmake⟩ := hmake i
  exact MibImpl.make_held hmake

/-- The cell that each block holds. -/
def held (s : CellSearch S Dec) (i : Fin 3) : Option PmtT := (s.mibs i).held

theorem held_of_mibs {s s' : CellSearch S Dec} (h : s'.mibs = s.mibs) : s'.held = s.held := by
  funext i
  rw [held, held, h]

/-- A call of a block publishes nothing, drops what the block holds or tracks a new object while
it holds nothing. The other blocks are not touched. -/
theorem mib_step [GnuRadio] (hsettled : ∀ i, (t.pre.mibs i).Settled) {n : Fin 3}
    {call : MibCall S} (hinput : t.input = .mib n call)
    (hstep : step lib t.pre t.input = .ok (t.post, t.output)) :
    (∀ i, (t.post.mibs i).Settled) ∧ t.post.nextRef = t.pre.nextRef + 1 ∧
    ((publishedIn t = [] ∧ t.post.held = t.pre.held) ∨
      (∃ p, t.pre.held n = some p ∧ publishedIn t = [⟨.drop, p⟩] ∧
        t.post.held = Function.update t.pre.held n none) ∨
      (∃ p : PmtT, t.pre.held n = none ∧ publishedIn t = [⟨.track, p⟩] ∧
        t.post.held = Function.update t.pre.held n (some p) ∧ p.ref = t.pre.nextRef)) := by
  rcases step_cases hstep with ⟨m, call', w, hevent, hmib, ho, hs⟩ | ⟨port, _, _, hevent, -⟩
  · obtain ⟨rfl, rfl⟩ : n = m ∧ call = call' := by simpa [hinput] using hevent
    obtain ⟨hsettled', hmsgs⟩ := MibImpl.generalWork_msgs hmib (hsettled n)
    have hmibs : t.post.mibs = Function.update t.pre.mibs n (t.post.mibs n) :=
      congrArg CellSearch.mibs hs
    -- the call changes the block `n` and no other
    have hheld : t.post.held = Function.update t.pre.held n (t.post.mibs n).held := by
      funext j
      by_cases hj : j = n
      · rw [hj, Function.update_self, held]
      · rw [held, hmibs, Function.update_of_ne hj, Function.update_of_ne hj, held]
    have hpublished : publishedIn t = w.msgs := by rw [publishedIn, ho]
    refine ⟨fun j => ?_, congrArg CellSearch.nextRef hs, ?_⟩
    · by_cases hj : j = n
      · rw [hj]
        exact hsettled'
      · rw [hmibs, Function.update_of_ne hj]
        exact hsettled j
    · rw [hheld, hpublished]
      rcases hmsgs with ⟨hnone, hsame⟩ | ⟨p, hp, hdrop, hnone⟩ | ⟨p, hp, htrack, hp', href, -⟩
      · exact .inl ⟨hnone, by rw [hsame, ← held, Function.update_eq_self]⟩
      · exact .inr (.inl ⟨p, hp, hdrop, by rw [hnone]⟩)
      · exact .inr (.inr ⟨p, hp, htrack, by rw [hp'], href⟩)
  · rw [hinput] at hevent
    cases hevent

/-- A call of a block keeps the accounts. -/
theorem accounting_mib [GnuRadio] {msgs : List Message}
    (hsettled : ∀ i, (t.pre.mibs i).Settled)
    (h : Accounting t.pre.held t.pre.nextRef msgs) {n : Fin 3} {call : MibCall S}
    (hinput : t.input = .mib n call) (hstep : step lib t.pre t.input = .ok (t.post, t.output)) :
    Accounting t.post.held t.post.nextRef (msgs ++ publishedIn t) := by
  obtain ⟨-, hnext, hcases⟩ := mib_step hsettled hinput hstep
  rw [hnext]
  rcases hcases with ⟨hnone, hheld⟩ | ⟨p, hp, hdrop, hheld⟩ | ⟨p, -, htrack, hheld, href⟩
  · rw [hnone, hheld, List.append_nil]
    exact { h with old := fun m hm => Nat.lt_succ_of_lt (h.old m hm) }
  · rw [hdrop, hheld]
    exact h.drop hp
  · rw [htrack, hheld]
    exact h.track href

/-- An event keeps the accounts. -/
theorem accounting_step [GnuRadio] {msgs : List Message}
    (hsettled : ∀ i, (t.pre.mibs i).Settled)
    (h : Accounting t.pre.held t.pre.nextRef msgs)
    (hstep : step lib t.pre t.input = .ok (t.post, t.output)) :
    (∀ i, (t.post.mibs i).Settled) ∧
      Accounting t.post.held t.post.nextRef (msgs ++ publishedIn t) := by
  rcases step_cases hstep with ⟨n, call, -, hinput, -⟩ | ⟨port, payload, queue, -, -, -, ho, hs⟩
  · exact ⟨(mib_step hsettled hinput hstep).1, accounting_mib hsettled h hinput hstep⟩
  · -- the store does not touch the blocks
    have hmibs : t.post.mibs = t.pre.mibs := by rw [hs]
    have hnext : t.post.nextRef = t.pre.nextRef := by rw [hs]
    rw [hmibs, held_of_mibs hmibs, hnext, publishedIn, ho, List.append_nil]
    exact ⟨hsettled, h⟩

/-- What the blocks publish in a run is accounted for. -/
theorem accounted_run [GnuRadio] (hinit : ∀ i, (mibs i).held = none ∧ (mibs i).Settled)
    (hrun : Machine.Run (step lib) (make mibs) tr s) :
    (∀ i, (s.mibs i).Settled) ∧ Accounting s.held s.nextRef (published tr) := by
  induction hrun with
  | nil =>
    have hnone : ∀ i, (make mibs).held i = none := fun i => (hinit i).1
    refine ⟨fun i => (hinit i).2, Registry.Accounted.nil, by simp [published], ?_, ?_⟩
    · intro i p hp
      rw [hnone] at hp
      cases hp
    · intro i j p q hp
      rw [hnone] at hp
      cases hp
  | @snoc tr s s' i o _ hstep ih =>
    rw [published, List.flatMap_append, List.flatMap_singleton]
    exact accounting_step ih.1 ih.2 (t := ⟨s, i, o, s'⟩) hstep

/-- Each port of the store has a queue. -/
theorem queue_step [GnuRadio] (hstep : step lib t.pre t.input = .ok (t.post, t.output))
    (port : Port) :
    t.pre.queue port ++ messagesOn port (publishedIn t) =
      messagesOn port (handledIn t) ++ t.post.queue port := by
  rcases step_cases hstep with
    ⟨n, call, w, -, -, ho, hs⟩ | ⟨port', payload, queue, -, hqueue, -, ho, hs⟩
  · -- a block sends to the back of both queues
    have hqueues : t.post.queue = fun port => t.pre.queue port ++ messagesOn port w.msgs :=
      congrArg CellSearch.queue hs
    rw [publishedIn, handledIn, ho, hqueues]
    rfl
  · -- the store takes from the front of one queue
    have hqueues : t.post.queue = Function.update t.pre.queue port' queue :=
      congrArg CellSearch.queue hs
    have hpublished : publishedIn t = [] := by rw [publishedIn, ho]
    have hhandled : handledIn t = [⟨port', payload⟩] := by rw [handledIn, ho]
    rw [hpublished, hhandled, hqueues, messagesOn_nil, List.append_nil]
    by_cases hport : port' = port
    · rw [← hport, Function.update_self, hqueue, messagesOn_cons_self]
      rfl
    · rw [Function.update_of_ne (Ne.symm hport), messagesOn_cons_of_ne hport]
      rfl

/-- What is in the queue of a port was published on it and is not yet handled. -/
theorem queue_run [GnuRadio] (hrun : Machine.Run (step lib) (make mibs) tr s) (port : Port) :
    messagesOn port (published tr) = messagesOn port (handled tr) ++ s.queue port := by
  rw [published, handled, messagesOn_flatMap, messagesOn_flatMap]
  exact hrun.fifo (I := fun _ => True) (Q := fun s => s.queue port) trivial
    (fun _ _ _ _ _ _ => trivial) (fun _ _ hstep => queue_step hstep port) rfl

/-- Once every message is handled, what was handled is what was published, in another order. -/
theorem handled_perm [GnuRadio] (hrun : Machine.Run (step lib) (make mibs) tr s)
    (hquiet : ∀ port, s.queue port = []) : (handled tr).Perm (published tr) := by
  have hsame : ∀ port, messagesOn port (published tr) = messagesOn port (handled tr) := by
    intro port
    rw [queue_run hrun, hquiet, List.append_nil]
  -- the order on each port is kept, and only the two ports can be mixed differently
  have hhandled := perm_messagesOn (handled tr)
  rw [← hsame .track, ← hsame .drop] at hhandled
  exact hhandled.trans (perm_messagesOn (published tr)).symm

/-- The store never gets past a message that it refuses. Once every message is handled, each cell
that was published had an identity, which was not that of `badCellIdVal`. -/
theorem accepted_of_quiet [GnuRadio] (hrun : Machine.Run (step lib) (make mibs) tr s)
    (hquiet : ∀ port, s.queue port = []) {p : PmtT} (hp : ⟨.track, p⟩ ∈ published tr) :
    ∃ n, p.cellId = .ok n ∧ n ≠ 1000 := by
  obtain ⟨t, ht, hhandled⟩ := List.mem_flatMap.mp ((handled_perm hrun hquiet).mem_iff.mpr hp)
  rcases step_cases (hrun.cut_at_mem ht).1 with
    ⟨_, _, _, -, -, ho, -⟩ | ⟨port, payload, queue, -, -, hstore, ho, -⟩
  · simp [handledIn, ho] at hhandled
  · rw [handledIn, ho, List.mem_singleton] at hhandled
    obtain ⟨rfl, rfl⟩ := Message.mk.inj hhandled
    exact CellStore.cellId_of_trackCell hstore

/-- The store is the registry of what it has handled. -/
theorem cells_run [GnuRadio] (hrun : Machine.Run (step lib) (make mibs) tr s) :
    s.store.cells = Registry.run PmtT.ref ((handled tr).map Message.op) := by
  have hfold : s.store.cells = (handled tr).foldl
      (fun cells msg => Registry.apply PmtT.ref cells msg.op) [] := by
    refine hrun.foldl (I := fun _ => True) (f := fun s => s.store.cells) trivial
      (fun _ _ _ _ _ _ => trivial) fun t _ hstep => ?_
    rcases step_cases hstep with
      ⟨n, call, w, -, -, ho, hs⟩ | ⟨port, payload, queue, -, -, hstore, ho, -⟩
    · -- a call of a block does not touch the store
      rw [handledIn, ho, congrArg CellSearch.store hs]
      rfl
    · rw [handledIn, ho]
      exact CellStore.handle_cells hstore
  rw [hfold, Registry.run, List.foldl_map]

/-- Once every published message is handled, the store holds the cells still tracked and no
others, each once, exactly if every drop was handled after the track of the same object. -/
theorem quiescent_iff [GnuRadio] {exitOnSuccess : Bool}
    (hmake : ∀ i, ∃ mib phichLength phichResources sfnOffset calls,
      MibImpl.make lib exitOnSuccess mib phichLength phichResources sfnOffset =
        .ok (mibs i, calls))
    (hrun : Machine.Run (step lib) (make mibs) tr s) (hquiet : ∀ port, s.queue port = []) :
    ((s.store.cells.map PmtT.ref).Nodup ∧
      ∀ p, p ∈ s.store.cells ↔ StillTracked (published tr) p) ↔ DropsFollow (handled tr) := by
  -- the store is a registry of a reordering of what was published
  have haccounted := (accounted_run (mibs_held hmake) hrun).2.accounted
  have hperm := (handled_perm hrun hquiet).map Message.op
  -- no object is tracked twice, in whatever order
  have honce : (s.store.cells.map PmtT.ref).Nodup := by
    rw [cells_run hrun]
    refine Registry.run_nodup ?_
    exact ((Registry.additions_perm hperm).map PmtT.ref).nodup_iff.mpr haccounted.added_once
  rw [dropsFollow_iff, ← Registry.reorder_iff haccounted hperm, ← cells_run hrun]
  simp only [stillTracked_iff, honce, true_and]

/-- A cell is found and lost again. The store handles the two messages as they come. -/
theorem quiescent_playback :
    ∃ tr s, Machine.Run (step (.playback Unit))
        (make fun _ => .playback Unit [true, true] false) tr s ∧
      (published tr).length = 2 ∧ ∀ p, p ∈ s.store.cells ↔ StillTracked (published tr) p := by
  have hfound : Machine.Run (step (.playback Unit))
      (make fun _ => .playback Unit [true, true] false) _ _ :=
    .snoc (i := .mib 1 ⟨.ofCell (fun _ => ()) 1 true, [], 0, 0⟩) .nil rfl
  have htracked := Machine.Run.snoc (i := .deliver .track) hfound rfl
  have hlost := Machine.Run.snoc (i := .mib 1 ⟨.trackingLost fun _ => (), [], 0, 0⟩) htracked rfl
  have hrun := Machine.Run.snoc (i := .deliver .drop) hlost rfl
  have hiff := quiescent_iff
    (fun _ => ⟨_, _, _, _, _, MibImpl.make_playback Unit [true, true] false⟩) hrun
    (by rintro (_ | _) <;> rfl)
  refine ⟨_, _, hrun, rfl, (hiff.mpr ?_).2⟩
  exact dropsFollow_pair _

/-- When the store handles the drop of a cell before its track, it keeps the cell. -/
theorem drop_handled_first :
    ∃ tr s, Machine.Run (step (.playback Unit))
        (make fun _ => .playback Unit [true, true] false) tr s ∧
      (∀ port, s.queue port = []) ∧
      ∃ p ∈ s.store.cells, ⟨.drop, p⟩ ∈ published tr ∧ ¬ StillTracked (published tr) p := by
  have hfound : Machine.Run (step (.playback Unit))
      (make fun _ => .playback Unit [true, true] false) _ _ :=
    .snoc (i := .mib 1 ⟨.ofCell (fun _ => ()) 1 true, [], 0, 0⟩) .nil rfl
  have hlost := Machine.Run.snoc (i := .mib 1 ⟨.trackingLost fun _ => (), [], 0, 0⟩) hfound rfl
  have hdropped := Machine.Run.snoc (i := .deliver .drop) hlost rfl
  have hrun := Machine.Run.snoc (i := .deliver .track) hdropped rfl
  -- the drop found nothing to remove
  refine ⟨_, _, hrun, by rintro (_ | _) <;> rfl, _, List.mem_singleton_self _, ?_, ?_⟩
  · exact List.mem_cons_of_mem _ (List.mem_singleton_self _)
  · rw [stillTracked_iff]
    exact List.not_mem_nil

end Runs

end CellSearch

end LteTrigger
