import LteTrigger.CellStore.Calls
import LteTrigger.Machine.Guarded
import LteTrigger.Machine.Simulation

/-!
# Concurrent calls of a cell store

The store is called by several threads: its own runs the message handlers, and that of the
application asks for the cells. The functions of `cellstore_impl` as programs whose statements are
interleaved with those of other calls, each behind the mutex from where the function takes it to
its end. The loops over the list, in `d_cells.remove` and in the copy that `cells` returns, come
to one node at a time. `track_cell` looks at its message, and throws, before it takes the mutex.

## Main definitions

* `CellStore.program`: the functions, statement by statement;
* `CellStore.serve`: the calls, one after the other.

## Main results

* `CellStore.section_remove`, `CellStore.section_copy`: what the loops do when nothing interrupts
  them;
* `CellStore.does_serve`: a call that nothing interrupts does what `serve` says;
* `CellStore.isPart_call`: the handlers among the calls are those of `CellStore.call`;
* `CellStore.linearizable`: any number of threads see the store of calls made one after the
  other;
* `CellStore.never_blocked`: every call can be brought to its end.
-/

namespace LteTrigger

namespace CellStore

/-- A call of a function of `cellstore_impl`. -/
inductive Request
  | trackCell (msg : PmtT)
  | dropCell (msg : PmtT)
  | tracking
  | cells
  | latestCell
  deriving DecidableEq, Repr

/-- What becomes of a call. -/
inductive Reply
  /-- A handler returns. -/
  | done
  /-- A handler throws. -/
  | threw (e : Exception)
  | tracking (b : Bool)
  | cells (l : List PmtT)
  /-- There is no result if the last node of an empty list is asked for. -/
  | latestCell (cell : Option PmtT)
  deriving DecidableEq, Repr

/-- The statements behind the mutex. -/
inductive Statement
  /-- `d_cells.push_back(msg)`. -/
  | pushBack (msg : PmtT)
  /-- `d_cells.remove(msg)`, which has come to the node `i`. -/
  | remove (msg : PmtT) (i : ℕ)
  /-- `return !d_cells.empty()`. -/
  | notEmpty
  /-- `return {d_cells.begin(), d_cells.end()}`, which has copied some of the nodes. -/
  | copy (copied : List PmtT)
  /-- `if (d_cells.empty())`. -/
  | ifEmpty
  /-- `return d_cells.back()`. -/
  | back

/-- The functions of `cellstore_impl`. -/
def program [GnuRadio] : Guarded.Object CellStore Request Statement Reply where
  enter
    | .trackCell msg =>
      match toLong (dictRef msg.val cellIdKey badCellIdVal) with
      | .error e => .ret (.threw e)
      | .ok cellId =>
        if .ok cellId = toLong badCellIdVal then
          .ret (.threw (.runtimeError "Error tracking cell: bad message format"))
        else .goto (.pushBack msg)
    | .dropCell msg => .goto (.remove msg 0)
    | .tracking => .goto .notEmpty
    | .cells => .goto (.copy [])
    | .latestCell => .goto .ifEmpty
  stmt
    | .pushBack msg, s => ({ s with cells := s.cells ++ [msg] }, .ret .done)
    | .remove msg i, s =>
      match s.cells[i]? with
      | none => (s, .ret .done)
      | some cell =>
        -- the node that follows moves up to the place of one that is erased
        if cell.ref = msg.ref then
          ({ s with cells := s.cells.eraseIdx i }, .goto (.remove msg i))
        else (s, .goto (.remove msg (i + 1)))
    | .notEmpty, s => (s, .ret (.tracking !s.cells.isEmpty))
    | .copy copied, s =>
      match s.cells[copied.length]? with
      | none => (s, .ret (.cells copied))
      | some cell => (s, .goto (.copy (copied ++ [cell])))
    | .ifEmpty, s =>
      if s.cells.isEmpty then (s, .ret (.latestCell (some .nil))) else (s, .goto .back)
    | .back, s => (s, .ret (.latestCell s.cells.getLast?))

/-- A call that is made when no other is in progress. There is none that fails. -/
def serve [GnuRadio] (s : CellStore) : Request → Except Empty (CellStore × Reply)
  | .trackCell msg =>
    match s.trackCell msg with
    | .ok s' => .ok (s', .done)
    | .error e => .ok (s, .threw e)
  | .dropCell msg => .ok (s.dropCell msg, .done)
  | .tracking => .ok (s, .tracking s.tracking)
  | .cells => .ok (s, .cells s.cells)
  | .latestCell => .ok (s, .latestCell (some s.latestCell))

/-! ### Calls that nothing interrupts -/

section Uninterrupted

variable [GnuRadio]

/-- From a node of the list on, `d_cells.remove` takes the object out. -/
theorem section_remove (msg : PmtT) (passed rest : List PmtT) :
    program.Section (.remove msg passed.length) ⟨passed ++ rest⟩
      ⟨passed ++ rest.filter (·.ref ≠ msg.ref)⟩ .done := by
  induction rest generalizing passed with
  | nil =>
    apply Guarded.Object.Section.ret
    simp [program]
  | cons cell rest ih =>
    have hnode : (passed ++ cell :: rest)[passed.length]? = some cell := by simp
    by_cases hsame : cell.ref = msg.ref
    · -- the list gets shorter
      have herase : (passed ++ cell :: rest).eraseIdx passed.length = passed ++ rest := by
        rw [List.eraseIdx_append_of_length_le le_rfl, Nat.sub_self, List.eraseIdx_cons_zero]
      rw [List.filter_cons_of_neg (by simpa using hsame)]
      refine .goto ?_ (ih passed)
      simp only [program, hnode, hsame, ↓reduceIte, herase]
    · have hpassed := ih (passed ++ [cell])
      rw [List.length_append, List.length_singleton, ← List.append_cons, ← List.append_cons]
        at hpassed
      rw [List.filter_cons_of_pos (by simpa using hsame)]
      refine .goto ?_ hpassed
      simp only [program, hnode, hsame, ↓reduceIte]

/-- The nodes that are left are copied in order. -/
theorem section_copy (s : CellStore) (copied : List PmtT) :
    program.Section (.copy copied) s s (.cells (copied ++ s.cells.drop copied.length)) := by
  obtain ⟨rest, hrest⟩ : ∃ rest, s.cells.drop copied.length = rest := ⟨_, rfl⟩
  have hnode : s.cells[copied.length]? = rest.head? := by rw [← hrest, List.head?_drop]
  induction rest generalizing copied with
  | nil =>
    rw [hrest, List.append_nil]
    apply Guarded.Object.Section.ret
    simp only [program, hnode, List.head?_nil]
  | cons cell rest ih =>
    have hnext : s.cells.drop (copied ++ [cell]).length = rest := by
      rw [List.length_append, List.length_singleton, ← List.drop_drop, hrest, List.drop_one,
        List.tail_cons]
    have hcopy := ih (copied ++ [cell]) hnext (by rw [← hnext, List.head?_drop])
    rw [hnext, ← List.append_cons] at hcopy
    rw [hrest]
    refine .goto ?_ hcopy
    simp only [program, hnode, List.head?_cons]

/-- The last node is asked for only if there is one. -/
theorem section_latestCell (s : CellStore) :
    program.Section .ifEmpty s s (.latestCell (some s.latestCell)) := by
  cases hcells : s.cells.getLast? with
  | none =>
    have hnil : s.cells = [] := List.getLast?_eq_none_iff.mp hcells
    refine .ret ?_
    simp [program, latestCell, hnil]
  | some cell =>
    have hne : s.cells ≠ [] := by
      rintro hnil
      simp [hnil] at hcells
    have hnext : program.stmt .ifEmpty s = (s, .goto .back) := by simp [program, hne]
    refine .goto hnext (.ret ?_)
    simp [program, latestCell, hcells]

/-- Behind the mutex every call comes to its end. -/
theorem section_ends (l : Statement) (s : CellStore) : ∃ s' r, program.Section l s s' r := by
  cases l with
  | pushBack msg => exact ⟨_, _, .ret rfl⟩
  | remove msg i =>
    rcases Nat.le_total i s.cells.length with hi | hi
    · have hremove := section_remove msg (s.cells.take i) (s.cells.drop i)
      rw [List.length_take_of_le hi, List.take_append_drop] at hremove
      exact ⟨_, _, hremove⟩
    · -- past the end of the list nothing is left to do
      refine ⟨s, .done, .ret ?_⟩
      simp only [program, List.getElem?_eq_none hi]
  | notEmpty => exact ⟨_, _, .ret rfl⟩
  | copy copied => exact ⟨_, _, section_copy s copied⟩
  | ifEmpty => exact ⟨_, _, section_latestCell s⟩
  | back => exact ⟨_, _, .ret rfl⟩

/-- What `track_cell` does before it takes the mutex. -/
theorem enter_trackCell (msg : PmtT) :
    program.enter (.trackCell msg) =
      match msg.cellId with
      | .error e => .ret (.threw e)
      | .ok n =>
        if n = 1000 then .ret (.threw (.runtimeError "Error tracking cell: bad message format"))
        else .goto (.pushBack msg) := by
  have hbad (n : ℤ) : (.ok n : Except Exception ℤ) = toLong badCellIdVal ↔ n = 1000 := by
    rw [badCellIdVal, toLong_fromLong, Except.ok.injEq]
  simp only [program, PmtT.cellId, hbad]

/-- What `serve` says is done by a call that nothing interrupts. -/
theorem exists_does (s : CellStore) (c : Request) :
    ∃ s' r, serve s c = .ok (s', r) ∧ program.Does c s s' r := by
  cases c with
  | trackCell msg =>
    have henter := enter_trackCell msg
    rw [serve, trackCell_eq]
    cases hid : msg.cellId with
    | error e =>
      rw [hid] at henter
      exact ⟨s, .threw e, rfl, .inl ⟨henter, rfl⟩⟩
    | ok n =>
      rw [hid] at henter
      by_cases hbad : n = 1000
      · simp only [hbad, ↓reduceIte] at henter ⊢
        exact ⟨s, _, rfl, .inl ⟨henter, rfl⟩⟩
      · simp only [hbad, ↓reduceIte] at henter ⊢
        exact ⟨_, .done, rfl, .inr ⟨.pushBack msg, henter, .ret rfl⟩⟩
  | dropCell msg => exact ⟨_, .done, rfl, .inr ⟨.remove msg 0, rfl, section_remove msg [] s.cells⟩⟩
  | tracking => exact ⟨s, _, rfl, .inr ⟨.notEmpty, rfl, .ret rfl⟩⟩
  | cells => exact ⟨s, _, rfl, .inr ⟨.copy [], rfl, section_copy s []⟩⟩
  | latestCell => exact ⟨s, _, rfl, .inr ⟨.ifEmpty, rfl, section_latestCell s⟩⟩

/-- A call that nothing interrupts does what `serve` says. -/
theorem does_serve {c : Request} {s s' : CellStore} {r : Reply} (h : program.Does c s s' r) :
    serve s c = .ok (s', r) := by
  obtain ⟨s₁, r₁, hserve, hdoes⟩ := exists_does s c
  obtain ⟨rfl, rfl⟩ := hdoes.unique h
  exact hserve

end Uninterrupted

/-! ### The handlers among the calls -/

/-- The message that a handler is called with. -/
def Request.message : Request → Option Message
  | .trackCell msg => some ⟨.track, msg⟩
  | .dropCell msg => some ⟨.drop, msg⟩
  | _ => none

/-- What became of a handler. -/
def Reply.outcome : Reply → Except Exception Unit
  | .threw e => .error e
  | _ => .ok ()

/-- The call of a handler. -/
def handlerCall (u : Machine.Transition CellStore Request Reply) : Option Transition :=
  u.input.message.map fun msg => ⟨u.pre, msg, u.output.outcome, u.post⟩

section Handlers

variable [GnuRadio]

/-- The calls of handlers are those of `call`. The others leave the store as it is. -/
theorem isPart_call : Machine.IsPart serve call id handlerCall := by
  rintro ⟨s, c, r, s'⟩ hstep
  replace hstep : serve s c = .ok (s', r) := hstep
  cases c with
  | trackCell msg =>
    refine .inr ⟨_, rfl, rfl, rfl, ?_⟩
    show call s ⟨.track, msg⟩ = .ok (s', r.outcome)
    rw [call, CellStoreM.handle_run, handle]
    simp only [serve] at hstep
    cases htrack : s.trackCell msg with
    | ok s₁ =>
      rw [htrack] at hstep
      cases hstep
      rfl
    | error e =>
      rw [htrack] at hstep
      cases hstep
      rfl
  | dropCell msg =>
    obtain ⟨rfl, rfl⟩ := Prod.mk.inj (Except.ok.inj hstep)
    exact .inr ⟨_, rfl, rfl, rfl, rfl⟩
  | tracking | cells | latestCell =>
    obtain ⟨rfl, rfl⟩ := Prod.mk.inj (Except.ok.inj hstep)
    exact .inl ⟨rfl, rfl⟩

/-- The store that calls leave holds the messages that they keep. -/
theorem cells_eq_kept {tr : List Transition} {s : CellStore} (hrun : Machine.Run call .make tr s) :
    s.cells = kept tr := by
  rw [cells_of_calls hrun, Registry.run_eq_survivors, kept_eq_survivors]
  intro t ht hport
  obtain ⟨hstep, -⟩ := hrun.cut_at_mem ht
  obtain ⟨pre, ⟨port, p⟩, o, post⟩ := t
  obtain rfl : port = .drop := hport
  exact (drop_call hstep).1

/-- What a call tells of the store is what the handlers called before it keep. -/
theorem atEach_query {seq : List (Machine.Transition CellStore Request Reply)} {s : CellStore}
    (hrun : Machine.Run serve .make seq s) :
    Machine.AtEach (fun before u =>
      (u.input = .tracking →
        u.output = .tracking (decide (kept (before.filterMap handlerCall) ≠ []))) ∧
      (u.input = .cells → u.output = .cells (kept (before.filterMap handlerCall))) ∧
      (u.input = .latestCell → u.output =
        .latestCell (some ((kept (before.filterMap handlerCall)).getLast?.getD .nil)))) seq := by
  rintro before ⟨s₁, c, r, s₂⟩ after rfl
  obtain ⟨hbefore, hstep, -⟩ := hrun.at_transition
  replace hstep : serve s₁ c = .ok (s₂, r) := hstep
  have hkept : s₁.cells = kept (before.filterMap handlerCall) :=
    cells_eq_kept (isPart_call.run hbefore)
  refine ⟨?_, ?_, ?_⟩
  · rintro rfl
    obtain ⟨rfl, rfl⟩ := Prod.mk.inj (Except.ok.inj hstep)
    show Reply.tracking s₁.tracking = _
    rw [← hkept, tracking]
    cases s₁.cells <;> rfl
  · rintro rfl
    obtain ⟨rfl, rfl⟩ := Prod.mk.inj (Except.ok.inj hstep)
    exact congrArg Reply.cells hkept
  · rintro rfl
    obtain ⟨rfl, rfl⟩ := Prod.mk.inj (Except.ok.inj hstep)
    show Reply.latestCell (some s₁.latestCell) = _
    rw [← hkept, latestCell]

end Handlers

/-! ### Any number of threads -/

variable {θ : Type*} [DecidableEq θ] {s : Guarded.State θ CellStore Request Statement Reply}
  {tr : List (Machine.Transition (Guarded.State θ CellStore Request Statement Reply)
    (Guarded.Event θ Request) (Guarded.Report Request Reply))}

/-- Threads that call the store in any way, with their statements in any order, see it as if the
calls were made one after the other, in the order in which they let the mutex go or throw. A call
takes its place in this order after it was made and before it returns, with the result that it
returns. What `tracking`, `cells` and `latest_cell` tell at their places is the messages that were
tracked before and not dropped since, in the order they were tracked. -/
theorem linearizable [GnuRadio] (hrun : Machine.Run program.step (.start .make) tr s) :
    ∃ seq last, Machine.Run serve .make seq last ∧
      (seq.map fun u => (u.input, u.output)) = (tr.flatMap fun u => u.output.committed) ∧
      (s.owner = none → s.mem = last) ∧
      (∀ tr₁ tr₂, tr = tr₁ ++ tr₂ → ∀ t,
        Guarded.returnedBy t tr₁ <+: Guarded.committedBy t tr₁ ∧
        (Guarded.committedBy t tr₁).map Prod.fst <+: Guarded.calledBy t tr₁) ∧
      Machine.AtEach (fun before u =>
        (u.input = .tracking →
          u.output = .tracking (decide (kept (before.filterMap handlerCall) ≠ []))) ∧
        (u.input = .cells → u.output = .cells (kept (before.filterMap handlerCall))) ∧
        (u.input = .latestCell → u.output =
          .latestCell (some ((kept (before.filterMap handlerCall)).getLast?.getD .nil)))) seq := by
  obtain ⟨seq, last, hseq, hcommitted, hinv⟩ :=
    Guarded.exists_sequential (fun _ _ _ _ => does_serve) hrun
  refine ⟨seq, last, hseq, hcommitted, hinv.free, ?_, atEach_query hseq⟩
  rintro tr₁ tr₂ rfl t
  obtain ⟨s₁, hrun₁, -⟩ := hrun.split
  exact ⟨⟨_, (Guarded.committedBy_eq hrun₁).symm⟩, ⟨_, (Guarded.calledBy_eq hrun₁).symm⟩⟩

/-- The message of a cell. -/
def cellMessage (ref : ℕ) (id : ℤ) : PmtT :=
  ⟨ref, dictAdd makeDict (.intern "cell_id") (.fromLong id)⟩

/-- A thread asks for the cells while another one holds the mutex, which tracks a cell. A third
one comes with a message that is refused before the copy of the list is complete. -/
def interleaving : List (Guarded.Event ℕ Request) :=
  [.call 0 (.trackCell (cellMessage 1 7)), .go 0, .call 1 .cells, .go 1, .go 0, .go 0, .go 1,
    .call 2 (.trackCell (cellMessage 2 1000)), .go 1, .go 2, .go 1, .go 1]

/-- The cell is tracked and the message refused before the cells are told. -/
theorem linearizable_interleaving :
    ∃ tr s seq last, Machine.exec program.step (.start .make) interleaving = some (tr, s) ∧
      Machine.Run serve .make seq last ∧
      (seq.map fun u => (u.input, u.output)) =
        [(.trackCell (cellMessage 1 7), .done),
          (.trackCell (cellMessage 2 1000),
            .threw (.runtimeError "Error tracking cell: bad message format")),
          (.cells, .cells [cellMessage 1 7])] ∧
      s.mem = last := by
  obtain ⟨tr, s, hexec, hcommitted, howner⟩ :
      ∃ tr s, Machine.exec program.step (.start .make) interleaving = some (tr, s) ∧
        (tr.flatMap fun u => u.output.committed) =
          [(.trackCell (cellMessage 1 7), .done),
            (.trackCell (cellMessage 2 1000),
              .threw (.runtimeError "Error tracking cell: bad message format")),
            (.cells, .cells [cellMessage 1 7])] ∧
        s.owner = none := ⟨_, _, rfl, rfl, rfl⟩
  obtain ⟨seq, last, hseq, hmap, hlast, -⟩ := linearizable (Machine.Run.of_exec hexec)
  exact ⟨tr, s, seq, last, hexec, hseq, hmap.trans hcommitted, hlast howner⟩

/-- No call waits for ever: whatever the threads have done, every call that is in progress can
return, by steps of threads that are in a call. A `track_cell` that throws has not taken the
mutex with it. -/
theorem never_blocked [GnuRadio] (hrun : Machine.Run program.step (.start .make) tr s)
    (t : θ) :
    ∃ s', Guarded.Goes program s s' ∧ s'.status t = .idle := by
  obtain ⟨_, _, -, -, hinv⟩ := Guarded.exists_sequential (fun _ _ _ _ => does_serve) hrun
  exact Guarded.exists_return section_ends hinv t

/-- The thread that asks for the cells waits for the one that tracks a cell. -/
theorem never_blocked_interleaving :
    ∃ tr s s', Machine.exec program.step (.start .make) (interleaving.take 5) = some (tr, s) ∧
      s.owner = some 0 ∧ (s.status 1).uncommitted = [.cells] ∧
      Guarded.Goes program s s' ∧ s'.status 1 = .idle := by
  obtain ⟨tr, s, hexec, howner, hwaits⟩ :
      ∃ tr s, Machine.exec program.step (.start .make) (interleaving.take 5) = some (tr, s) ∧
        s.owner = some 0 ∧ (s.status 1).uncommitted = [.cells] := ⟨_, _, rfl, rfl, rfl⟩
  obtain ⟨s', hgoes, hidle⟩ := never_blocked (Machine.Run.of_exec hexec) 1
  exact ⟨tr, s, s', hexec, howner, hwaits, hgoes, hidle⟩

end CellStore

end LteTrigger
