import LteTrigger.CellStore.Basic
import LteTrigger.Machine.Run

/-!
# Calls of a cell store, one after the other

The message handlers of `cellstore_impl` as programs over its members. A program that throws
leaves the members as they were at the `throw`, so it has to be proved that a handler that throws
has not touched the store. The callers here go on after an exception, with the store they have.

A message is any reference to any value: the same object may be tracked several times, different
objects may have equal values, and an object may be dropped that was never tracked.

## Main definitions

* `CellStoreM.trackCell`, `CellStoreM.dropCell`: the handlers, statement by statement;
* `CellStore.call`: a call of a handler, with what became of it;
* `CellStore.kept`: the messages that were tracked and that no later call dropped.

## Main results

* `CellStoreM.handle_run`: the handlers do what `CellStore.handle` says, and leave the store
  alone when they throw;
* `CellStore.call_cases`: all that a call can do;
* `CellStore.drop_call`, `CellStore.throw_call`: what a drop takes out, and that a call that
  throws has not touched the store;
* `CellStore.cells_of_calls`: the store is the registry of what its calls have asked;
* `CellStore.sequential_spec`: what the store holds after any calls.
-/

namespace LteTrigger

/-- A function of `cellstore_impl`. Also when it throws, there are members that it leaves. -/
abbrev CellStoreM := EStateM Exception CellStore

namespace CellStoreM

variable [GnuRadio]

/-- `track_cell`. -/
def trackCell (msg : PmtT) : CellStoreM Unit := do
  let cellId ← ofExcept (toLong (dictRef msg.val cellIdKey badCellIdVal))
  let badCellId ← ofExcept (toLong badCellIdVal)
  if cellId = badCellId then
    throw (.runtimeError "Error tracking cell: bad message format")
  -- `d_cells.push_back(msg)`
  modify fun s => { s with cells := s.cells ++ [msg] }

/-- `drop_cell`. -/
def dropCell (msg : PmtT) : CellStoreM Unit :=
  -- `d_cells.remove(msg)` compares the pointers
  modify fun s => { s with cells := s.cells.filter (·.ref ≠ msg.ref) }

/-- The handler of a message. -/
def handle (msg : Message) : CellStoreM Unit :=
  match msg.port with
  | .track => trackCell msg.payload
  | .drop => dropCell msg.payload

/-- `track_cell` stores the message or throws before it touches the store. -/
theorem trackCell_run (s : CellStore) (msg : PmtT) :
    (trackCell msg).run s =
      match s.trackCell msg with
      | .ok s' => .ok () s'
      | .error e => .error e s := by
  rw [trackCell, CellStore.trackCell_eq, ← PmtT.cellId]
  cases msg.cellId with
  | error e => rfl
  | ok cellId =>
    by_cases hbad : cellId = 1000
    · -- the program ends at the `throw`
      simp [hbad, badCellIdVal, ofExcept]
    · simp [hbad, badCellIdVal, ofExcept]

/-- The handlers do what `CellStore.handle` says, and leave the store alone when they throw. -/
theorem handle_run (s : CellStore) (msg : Message) :
    (handle msg).run s =
      match s.handle msg with
      | .ok s' => .ok () s'
      | .error e => .error e s := by
  obtain ⟨port, p⟩ := msg
  cases port with
  | track => exact trackCell_run s p
  | drop => rfl

end CellStoreM

namespace CellStore

/-- A call of a handler. Its output is what became of it; the caller goes on after an exception,
so there is no call that fails. -/
def call [GnuRadio] (s : CellStore) (msg : Message) :
    Except Empty (CellStore × Except Exception Unit) :=
  match (CellStoreM.handle msg).run s with
  | .ok () s' => .ok (s', .ok ())
  | .error e s' => .ok (s', .error e)

/-- One call in a sequence of calls. -/
abbrev Transition := Machine.Transition CellStore Message (Except Exception Unit)

/-- The call is one of `track_cell`, and it returned. -/
def Tracks (t : Transition) : Prop := t.input.port = .track ∧ t.output = .ok ()

instance (t : Transition) : Decidable (Tracks t) := inferInstanceAs (Decidable (_ ∧ _))

/-- The call is one of `drop_cell` with the object `p`. -/
def Drops (p : PmtT) (t : Transition) : Prop :=
  t.input.port = .drop ∧ t.input.payload.ref = p.ref

instance (p : PmtT) (t : Transition) : Decidable (Drops p t) :=
  inferInstanceAs (Decidable (_ ∧ _))

/-- The messages of the calls of `track_cell` that returned and that no call of `drop_cell` with
the same object follows, in call order. -/
def kept : List Transition → List PmtT
  | [] => []
  | t :: tr =>
    if Tracks t ∧ ∀ u ∈ tr, ¬ Drops t.input.payload u then t.input.payload :: kept tr
    else kept tr

section Run

variable [GnuRadio] {s s' : CellStore} {msg : Message} {o : Except Exception Unit}
  {t : Transition} {tr : List Transition} {p : PmtT}

/-- All that a call can do: refuse a message and leave the store alone, store a message, or take
out an object. -/
theorem call_cases (h : call s msg = .ok (s', o)) :
    (∃ p e, msg = ⟨.track, p⟩ ∧ (∀ n, p.cellId = .ok n → n = 1000) ∧ o = .error e ∧ s' = s) ∨
    (∃ p n, msg = ⟨.track, p⟩ ∧ p.cellId = .ok n ∧ n ≠ 1000 ∧ o = .ok () ∧
      s' = { s with cells := s.cells ++ [p] }) ∨
    (∃ p, msg = ⟨.drop, p⟩ ∧ o = .ok () ∧ s' = s.dropCell p) := by
  obtain ⟨port, p⟩ := msg
  rw [call, CellStoreM.handle_run] at h
  cases port with
  | track =>
    simp only [handle, trackCell_eq] at h
    cases hid : p.cellId with
    | error e =>
      simp only [hid, Except.ok.injEq, Prod.mk.injEq] at h
      exact .inl ⟨p, e, rfl, by simp [hid], h.2.symm, h.1.symm⟩
    | ok n =>
      by_cases hbad : n = 1000
      · simp only [hid, hbad, ↓reduceIte, Except.ok.injEq, Prod.mk.injEq] at h
        exact .inl ⟨p, _, rfl, by simp [hid, hbad], h.2.symm, h.1.symm⟩
      · simp only [hid, hbad, ↓reduceIte, Except.ok.injEq, Prod.mk.injEq] at h
        exact .inr (.inl ⟨p, n, rfl, hid, hbad, h.2.symm, h.1.symm⟩)
  | drop =>
    obtain ⟨rfl, rfl⟩ := Prod.mk.inj (Except.ok.inj h)
    exact .inr (.inr ⟨p, rfl, rfl, rfl⟩)

/-- Whatever is called, the caller goes on. -/
theorem exists_call (s : CellStore) (msg : Message) : ∃ s' o, call s msg = .ok (s', o) := by
  unfold call
  split
  · exact ⟨_, _, rfl⟩
  · exact ⟨_, _, rfl⟩

/-- `drop_cell` never throws. It takes out every occurrence of its object and nothing else: each
other object stays, as often as it was there, and in its place. -/
theorem drop_call (h : call s ⟨.drop, p⟩ = .ok (s', o)) :
    o = .ok () ∧ s'.cells.Sublist s.cells ∧
      ∀ q, s'.cells.count q = if q.ref = p.ref then 0 else s.cells.count q := by
  rcases call_cases h with ⟨_, _, hmsg, -⟩ | ⟨_, _, hmsg, -⟩ | ⟨q, hmsg, ho, rfl⟩
  · cases hmsg
  · cases hmsg
  · obtain rfl : p = q := (Message.mk.inj hmsg).2
    refine ⟨ho, List.filter_sublist, fun q => ?_⟩
    rw [dropCell]
    split
    · rename_i hsame
      exact List.count_eq_zero.mpr (by simp [hsame])
    · rename_i hother
      exact List.count_filter (by simpa using hother)

/-- A call of `track_cell` that throws leaves the store unchanged. -/
theorem throw_call {e : Exception} (h : call s msg = .ok (s', .error e)) : s' = s := by
  rcases call_cases h with ⟨_, _, -, -, -, hsame⟩ | ⟨_, _, -, -, -, ho, -⟩ | ⟨_, -, ho, -⟩
  · exact hsame
  · cases ho
  · cases ho

/-! ### Sequences of calls -/

/-- What a call asks of a registry of objects: nothing if it threw. -/
def opsIn (t : Transition) : List (Registry.Op PmtT ℕ) :=
  match t.output with
  | .ok () => [t.input.op]
  | .error _ => []

/-- The store is the registry of what its calls have asked. -/
theorem cells_of_calls (hrun : Machine.Run call .make tr s) :
    s.cells = Registry.run PmtT.ref (tr.flatMap opsIn) := by
  refine hrun.foldl (I := fun _ => True) (f := CellStore.cells) trivial
    (fun _ _ _ _ _ _ => trivial) fun t _ hstep => ?_
  rcases call_cases hstep with
    ⟨p, e, -, -, ho, hsame⟩ | ⟨p, n, hmsg, -, -, ho, hpost⟩ | ⟨p, hmsg, ho, hpost⟩
  · rw [hsame, opsIn, ho]
    rfl
  · rw [hpost, opsIn, ho, hmsg]
    rfl
  · rw [hpost, opsIn, ho, hmsg]
    rfl

omit [GnuRadio] in
/-- The identities that calls remove are those they drop, since these calls return. -/
theorem mem_removals_opsIn (hdrops : ∀ t ∈ tr, t.input.port = .drop → t.output = .ok ()) :
    p.ref ∈ Registry.removals (tr.flatMap opsIn) ↔ ∃ t ∈ tr, Drops p t := by
  rw [Registry.mem_removals, List.mem_flatMap]
  refine exists_congr fun t => and_congr_right fun ht => ?_
  cases hport : t.input.port with
  | track =>
    -- a call of `track_cell` removes nothing
    cases ho : t.output <;> simp [opsIn, Drops, Message.op, hport, ho]
  | drop =>
    simp [opsIn, Drops, Message.op, hport, hdrops t ht hport, eq_comm]

omit [GnuRadio] in
/-- The messages kept are those that a registry keeps. -/
theorem kept_eq_survivors (hdrops : ∀ t ∈ tr, t.input.port = .drop → t.output = .ok ()) :
    kept tr = Registry.survivors PmtT.ref (tr.flatMap opsIn) := by
  induction tr with
  | nil => rfl
  | cons t tr ih =>
    have hrest := fun u hu => hdrops u (List.mem_cons_of_mem t hu)
    have hremoved := mem_removals_opsIn (p := t.input.payload) hrest
    rw [kept, List.flatMap_cons, ih hrest]
    cases hport : t.input.port with
    | track =>
      cases ho : t.output with
      | error e => simp [Tracks, opsIn, ho]
      | ok =>
        have htracks : Tracks t := ⟨hport, ho⟩
        have hop : opsIn t = [.add t.input.payload] := by
          simp [opsIn, ho, Message.op, hport]
        rw [hop, List.singleton_append, Registry.survivors]
        -- both sides ask whether the object is dropped later
        by_cases hlater : ∃ u ∈ tr, Drops t.input.payload u
        · have hgone : ¬ (Tracks t ∧ ∀ u ∈ tr, ¬ Drops t.input.payload u) := by
            rintro ⟨-, hnever⟩
            obtain ⟨u, hu, hdrop⟩ := hlater
            exact hnever u hu hdrop
          rw [if_pos (hremoved.mpr hlater), if_neg hgone]
        · have hnever : ∀ u ∈ tr, ¬ Drops t.input.payload u :=
            fun u hu hdrop => hlater ⟨u, hu, hdrop⟩
          rw [if_neg (hremoved.not.mpr hlater), if_pos ⟨htracks, hnever⟩]
    | drop =>
      have ho := hdrops t List.mem_cons_self hport
      simp [Tracks, opsIn, hport, ho, Message.op, Registry.survivors]

/-- After any calls of `track_cell` and `drop_cell`, `cells` is the list, in call order, of the
messages of the calls of `track_cell` that returned and that no call of `drop_cell` with the same
object follows. A drop takes out every occurrence of its object and nothing else, whatever the
values of the other objects are. A call that throws leaves the store unchanged. The latest cell
is the last one of the list, and the store is tracking if there is one. -/
theorem sequential_spec (calls : List Message) :
    ∃ tr s, Machine.exec call .make calls = some (tr, s) ∧
      tr.map Machine.Transition.input = calls ∧
      s.cells = kept tr ∧
      (∀ t ∈ tr, t.input.port = .drop →
        t.output = .ok () ∧ t.post.cells.Sublist t.pre.cells ∧
          ∀ q, t.post.cells.count q =
            if q.ref = t.input.payload.ref then 0 else t.pre.cells.count q) ∧
      (∀ t ∈ tr, ∀ e, t.output = .error e → t.post = t.pre) ∧
      s.latestCell = (kept tr).getLast?.getD .nil ∧
      (s.tracking = true ↔ kept tr ≠ []) := by
  obtain ⟨tr, s, hexec⟩ := Machine.exists_exec exists_call .make calls
  have hrun := Machine.Run.of_exec hexec
  have hdrops : ∀ t ∈ tr, t.input.port = .drop →
      t.output = .ok () ∧ t.post.cells.Sublist t.pre.cells ∧
        ∀ q, t.post.cells.count q =
          if q.ref = t.input.payload.ref then 0 else t.pre.cells.count q := by
    intro t ht hport
    have hstep := (hrun.cut_at_mem ht).1
    obtain ⟨pre, ⟨port, p⟩, o, post⟩ := t
    obtain rfl : port = .drop := hport
    exact drop_call hstep
  have hcells : s.cells = kept tr := by
    rw [cells_of_calls hrun, Registry.run_eq_survivors,
      kept_eq_survivors fun t ht hport => (hdrops t ht hport).1]
  refine ⟨tr, s, hexec, Machine.inputs_of_exec hexec, hcells, hdrops, fun t ht e ho => ?_,
    by rw [← hcells, latestCell], ?_⟩
  · have hstep := (hrun.cut_at_mem ht).1
    rw [ho] at hstep
    exact throw_call hstep
  · rw [← hcells, tracking, Bool.not_eq_true', List.isEmpty_eq_false_iff]

end Run

-- equal values in different objects, a message without an identity, and a repeated object
example :
    let cell := dictAdd makeDict (.intern "cell_id") (.fromLong 7)
    (Machine.exec call .make [⟨.track, ⟨1, cell⟩⟩, ⟨.track, ⟨2, cell⟩⟩, ⟨.track, ⟨3, .nil⟩⟩,
      ⟨.drop, ⟨1, cell⟩⟩, ⟨.track, ⟨2, cell⟩⟩]).map (fun r => r.2.cells.map PmtT.ref) =
      some [2, 2] := by
  decide

end CellStore

end LteTrigger
