import LteTrigger.Chain.Soundness
import LteTrigger.Machine.Simulation
import LteTrigger.Pss.Score

/-!
# A row of the flow graph

`downlink_trigger_c` connects nine blocks in three rows, `pss` to `sss` to `mib` each. A row is a
chain as the scheduler runs it. It may call `mib` for several half-frames at once, of which `mib`
takes the first one or all. Once `mib` has returned `WORK_DONE`, it is not called again.

`Chain.step` is the case in which `mib` is given one half-frame at a time.

## Main definitions

* `Row`: the blocks of a row, the half-frames between them, and whether `mib` is done;
* `Row.step`: one call of one of the blocks, or a new threshold.

## Main results

* `Row.step_cases`: all that can happen to a row;
* `Row.isPart_pss`, `Row.isPart_mib`: its first and its last block are parts of it;
* `Row.run_of_chain`: the runs of a chain are runs of a row.
-/

namespace LteTrigger

/-- A chain as the scheduler runs it. -/
structure Row (F S Det Tab Sync Dec : Type) extends Chain F S Det Tab Sync Dec where
  /-- Whether `mib` has returned `WORK_DONE`. -/
  done : Bool

/-- No tags are foreign ones. -/
theorem foreign_nil : ∀ tag ∈ ([] : List Tag), tag.Foreign := by simp

/-- What can happen to a row. -/
inductive RowEvent (F S : Type)
  /-- An event of `pss`. If a half-frame goes out, it carries the given foreign tags too. -/
  | pss (event : PssImpl.Event F S) (tags : List Tag) (foreign : ∀ tag ∈ tags, tag.Foreign)
  /-- A call of `sss`, whose output buffer holds `stale`. It works on one half-frame, however
  many there are. -/
  | sss (stale : HalfFrame S)
  /-- A call of `mib` for one half-frame and `more` after it, at the time `now`. A message object
  made in it is `fresh`. -/
  | mib (more : ℕ) (now : ℤ) (fresh : ℕ)

/-- What an event did. -/
inductive RowWork (S : Type)
  /-- The work of `pss` and the half-frame it put on its output stream. -/
  | pss (work : Option (Work S)) (frame : Option (Frame S))
  /-- The half-frame that `sss` took and the one it put on its output stream. -/
  | sss (taken given : Frame S)
  /-- What `mib` was given, and its work. -/
  | mib (call : MibCall S) (work : MibWork S)

/-- Why an event did not happen. -/
inductive TriggerError
  /-- A block threw. -/
  | thrown (e : Exception)
  /-- Nothing is called then: there is too little input, or the block is done. -/
  | notCalled
  deriving DecidableEq, Repr

/-- The half-frames that a call of `mib` consumes. -/
def MibCall.taken {S : Type} (c : MibCall S) (w : MibWork S) : List (Frame S) :=
  c.frames.take (w.nconsume / halfFrameLength)

section Consumed

variable [GnuRadio] {S Dec : Type} {lib : MibLib S Dec} {s s' : MibImpl S Dec} {c : MibCall S}
  {w : MibWork S}

/-- A decoding attempt ends the block, or consumes all it was given. -/
theorem MibImpl.decode_consumes (lib : MibLib S Dec) (s : MibImpl S Dec) (c : MibCall S) :
    (s.exitOnSuccess = true ∧ (∃ p, (decode lib s c).2.msgs = [⟨.track, p⟩]) ∧
      (decode lib s c).2.nconsume = 0 ∧ (decode lib s c).2.ret = workDone) ∨
    ((s.exitOnSuccess = true → (decode lib s c).2.msgs = []) ∧
      (decode lib s c).2.nconsume = c.noutputItems ∧
      (decode lib s c).2.ret = c.noutputItems) := by
  unfold decode
  dsimp only
  split
  · split
    · rename_i hexit
      exact .inl ⟨hexit, ⟨_, rfl⟩, rfl, rfl⟩
    · rename_i hexit
      exact .inr ⟨fun h => absurd h hexit, rfl, rfl⟩
  · exact .inr ⟨fun _ => rfl, rfl, rfl⟩

/-- A call that finds a cell may end the block. Any other call consumes one half-frame, or all of
its half-frames, of which the first is not a lost one. -/
theorem MibImpl.generalWork_consumes (h : generalWork lib s c = .ok (s', w)) :
    (s.exitOnSuccess = true ∧ (∃ p, w.msgs = [⟨.track, p⟩]) ∧ w.nconsume = 0 ∧
      w.ret = workDone) ∨
    (0 ≤ w.ret ∧ (s.exitOnSuccess = true → ∀ p, ⟨.track, p⟩ ∉ w.msgs) ∧
      (w.nconsume = halfFrameLength ∨ w.nconsume = c.noutputItems ∧ c.first.kind ≠ .lost)) := by
  rcases generalWork_cases h with
    ⟨-, -, rfl⟩ | ⟨-, -, -, rfl⟩ | ⟨cellId, cp, -, -, -, -, rfl⟩ |
    ⟨cellId, cp, -, hsearched, -, -, rfl⟩
  · refine .inr ⟨le_rfl, fun _ p hp => ?_, .inl rfl⟩
    rw [dropCurrentCell_msgs, List.mem_map] at hp
    obtain ⟨_, -, hport⟩ := hp
    cases hport
  · exact .inr ⟨le_rfl, fun _ p hp => (List.not_mem_nil hp).elim, .inl rfl⟩
  · exact .inr ⟨le_rfl, fun _ p hp => (List.not_mem_nil hp).elim, .inl rfl⟩
  · obtain ⟨cellIdTag, cpTypeTag, hkind⟩ := kind_of_searched hsearched
    rcases decode_consumes lib (configure lib (s.receive c) cellId cp).1 c with
      ⟨hexit, htrack, hnone, hret⟩ | ⟨hnone, hall, hret⟩
    · rw [configure_exitOnSuccess, receive_exitOnSuccess] at hexit
      exact .inl ⟨hexit, htrack, hnone, hret⟩
    · rw [configure_exitOnSuccess, receive_exitOnSuccess] at hnone
      refine .inr ⟨?_, fun hexit p hp => ?_, .inr ⟨hall, by simp [hkind]⟩⟩
      · exact (Int.natCast_nonneg _).trans_eq hret.symm
      · exact List.not_mem_nil (hnone hexit ▸ hp)

/-- The half-frames that a call consumes: none if it ends the block, and else the first one or
all. -/
theorem MibCall.taken_cases (h : MibImpl.generalWork lib s c = .ok (s', w)) :
    (w.ret = workDone ∧ c.taken w = []) ∨ (0 ≤ w.ret ∧ c.taken w = [c.first]) ∨
      (0 ≤ w.ret ∧ c.taken w = c.frames ∧ c.first.kind ≠ .lost) := by
  have hpos : 0 < halfFrameLength := by decide
  rcases MibImpl.generalWork_consumes h with
    ⟨-, -, hnone, hret⟩ | ⟨hret, -, hone | ⟨hall, hkept⟩⟩
  · exact .inl ⟨hret, by rw [taken, hnone, Nat.zero_div, List.take_zero]⟩
  · refine .inr (.inl ⟨hret, ?_⟩)
    rw [taken, hone, Nat.div_self hpos, frames, List.take_succ_cons, List.take_zero]
  · refine .inr (.inr ⟨hret, ?_, hkept⟩)
    rw [taken, hall, noutputItems, Nat.mul_div_cancel _ hpos, List.take_length]

/-- A call consumes no more than it is given. -/
theorem MibCall.length_taken (h : MibImpl.generalWork lib s c = .ok (s', w)) :
    (c.taken w).length = w.nconsume / halfFrameLength := by
  have hpos : 0 < halfFrameLength := by decide
  rw [taken, List.length_take, min_eq_left]
  rcases MibImpl.generalWork_consumes h with ⟨-, -, hnone, -⟩ | ⟨-, -, hone | ⟨hall, -⟩⟩
  · simp [hnone]
  · simp [hone, Nat.div_self hpos, frames]
  · rw [hall, noutputItems, Nat.mul_div_cancel _ hpos]

end Consumed

namespace Row

variable [GnuRadio] {F S Det Tab Sync Dec : Type} [FloatOps F]

/-- The blocks of a row once they are constructed and connected. -/
def ofBlocks (pss : PssImpl F Det Tab) (sss : SssImpl Sync) (mib : MibImpl S Dec) :
    Row F S Det Tab Sync Dec where
  pss
  sss
  mib
  toSss := []
  toMib := []
  done := false

/-- One event. -/
def step (lib : ChainLib F S Det Tab Sync Dec) (r : Row F S Det Tab Sync Dec) :
    RowEvent F S → Except TriggerError (Row F S Det Tab Sync Dec × RowWork S)
  | .pss event tags _ =>
    match PssImpl.step lib.pss r.pss event with
    | .error e => .error (.thrown e)
    | .ok (pss, work) =>
      let frame := (work.bind Work.emission).map (Emission.frame · tags)
      .ok ({ r with pss := pss, toSss := r.toSss ++ frame.toList }, .pss work frame)
  | .sss stale =>
    match r.toSss with
    | [] => .error .notCalled
    | frame :: toSss =>
      let (sss, w) := SssImpl.work lib.sss r.sss frame stale
      let given := SssImpl.outputFrame frame w
      .ok ({ r with sss := sss, toSss := toSss, toMib := r.toMib ++ [given] }, .sss frame given)
  | .mib more now fresh =>
    match r.toMib with
    | [] => .error .notCalled
    | first :: rest =>
      if r.done ∨ rest.length < more then .error .notCalled
      else
        let call : MibCall S := ⟨first, rest.take more, now, fresh⟩
        match MibImpl.generalWork lib.mib r.mib call with
        | .error e => .error (.thrown e)
        | .ok (mib, w) =>
          -- all that the call has consumed leaves the buffer
          .ok ({ r with
              mib := mib
              toMib := r.toMib.drop (w.nconsume / halfFrameLength)
              done := decide (w.ret = workDone) },
            .mib call w)

/-- One event in a run of a row. -/
abbrev Transition (F S Det Tab Sync Dec : Type) :=
  Machine.Transition (Row F S Det Tab Sync Dec) (RowEvent F S) (RowWork S)

section Steps

variable {lib : ChainLib F S Det Tab Sync Dec} {r r' : Row F S Det Tab Sync Dec}
  {e : RowEvent F S} {o : RowWork S}

/-- The events of the three blocks. -/
theorem step_cases (h : step lib r e = .ok (r', o)) :
    (∃ event tags foreign work, e = .pss event tags foreign ∧
      PssImpl.step lib.pss r.pss event = .ok (r'.pss, work) ∧
      o = .pss work ((work.bind Work.emission).map (Emission.frame · tags)) ∧
      r' = { r with
        pss := r'.pss
        toSss := r.toSss ++ ((work.bind Work.emission).map (Emission.frame · tags)).toList }) ∨
    (∃ stale frame toSss, e = .sss stale ∧ r.toSss = frame :: toSss ∧
      o = .sss frame (SssImpl.outputFrame frame (SssImpl.work lib.sss r.sss frame stale).2) ∧
      r' = { r with
        sss := (SssImpl.work lib.sss r.sss frame stale).1
        toSss := toSss
        toMib := r.toMib ++
          [SssImpl.outputFrame frame (SssImpl.work lib.sss r.sss frame stale).2] }) ∨
    (∃ more now fresh first rest w, e = .mib more now fresh ∧ r.toMib = first :: rest ∧
      r.done = false ∧ more ≤ rest.length ∧
      MibImpl.generalWork lib.mib r.mib ⟨first, rest.take more, now, fresh⟩ = .ok (r'.mib, w) ∧
      o = .mib ⟨first, rest.take more, now, fresh⟩ w ∧
      r' = { r with
        mib := r'.mib
        toMib := r.toMib.drop (w.nconsume / halfFrameLength)
        done := decide (w.ret = workDone) }) := by
  cases e with
  | pss event tags foreign =>
    left
    simp only [step] at h
    split at h
    · cases h
    · rename_i pss work hpss
      obtain ⟨rfl, rfl⟩ := Prod.mk.inj (Except.ok.inj h)
      exact ⟨event, tags, foreign, work, rfl, hpss, rfl, rfl⟩
  | sss stale =>
    right; left
    simp only [step] at h
    split at h
    · cases h
    · rename_i frame toSss hqueue
      obtain ⟨rfl, rfl⟩ := Prod.mk.inj (Except.ok.inj h)
      exact ⟨stale, frame, toSss, rfl, hqueue, rfl, rfl⟩
  | mib more now fresh =>
    right; right
    simp only [step] at h
    split at h
    · cases h
    · rename_i first rest hqueue
      split at h
      · cases h
      · rename_i hready
        rw [not_or, Bool.not_eq_true, not_lt] at hready
        split at h
        · cases h
        · rename_i mib w hmib
          obtain ⟨rfl, rfl⟩ := Prod.mk.inj (Except.ok.inj h)
          exact ⟨more, now, fresh, first, rest, w, rfl, hqueue, hready.1, hready.2, hmib, rfl, rfl⟩

omit [FloatOps F] in
/-- What `mib` consumes leaves the buffer between `sss` and `mib`. -/
theorem toMib_eq_taken_append {first : Frame S} {rest : List (Frame S)} {more : ℕ} {now : ℤ}
    {fresh : ℕ} {mib : MibImpl S Dec} {w : MibWork S} (hqueue : r.toMib = first :: rest)
    (hmore : more ≤ rest.length)
    (hmib : MibImpl.generalWork lib.mib r.mib ⟨first, rest.take more, now, fresh⟩ = .ok (mib, w)) :
    r.toMib = MibCall.taken ⟨first, rest.take more, now, fresh⟩ w ++
      r.toMib.drop (w.nconsume / halfFrameLength) := by
  have hlength := MibCall.length_taken hmib
  rw [hqueue]
  nth_rewrite 1 [← List.take_append_drop (w.nconsume / halfFrameLength) (first :: rest)]
  congr 1
  rw [MibCall.taken, MibCall.frames, ← List.take_succ_cons, List.take_take, min_eq_left]
  -- no more is consumed than the call was given
  simp only [MibCall.taken, MibCall.frames, List.length_take, List.length_cons] at hlength
  omega

end Steps

/-! ### The blocks of a row -/

section Parts

/-- What a transition is to `pss`. -/
def pssPart (t : Transition F S Det Tab Sync Dec) :
    Option (PssImpl.Transition F S Det Tab) :=
  match t.input, t.output with
  | .pss event _ _, .pss work _ => some ⟨t.pre.pss, event, work, t.post.pss⟩
  | _, _ => none

/-- What a transition is to `mib`. -/
def mibPart (t : Transition F S Det Tab Sync Dec) :
    Option (Machine.Transition (MibImpl S Dec) (MibCall S) (MibWork S)) :=
  match t.output with
  | .mib call work => some ⟨t.pre.mib, call, work, t.post.mib⟩
  | _ => none

/-- `pss` is a part of its row. -/
theorem isPart_pss (lib : ChainLib F S Det Tab Sync Dec) :
    Machine.IsPart (step lib) (PssImpl.step lib.pss) (fun r => r.pss) pssPart := by
  intro t hstep
  rcases step_cases hstep with
    ⟨event, tags, foreign, work, hi, hpss, ho, -⟩ | ⟨stale, frame, toSss, -, -, ho, hr⟩ |
    ⟨more, now, fresh, first, rest, w, -, -, -, -, -, ho, hr⟩
  · exact .inr ⟨⟨t.pre.pss, event, work, t.post.pss⟩, by simp [pssPart, hi, ho], rfl, rfl, hpss⟩
  · exact .inl ⟨by simp [pssPart, ho], by rw [hr]⟩
  · exact .inl ⟨by simp [pssPart, ho], by rw [hr]⟩

/-- `mib` is a part of its row. -/
theorem isPart_mib (lib : ChainLib F S Det Tab Sync Dec) :
    Machine.IsPart (step lib) (MibImpl.generalWork lib.mib) (fun r => r.mib) mibPart := by
  intro t hstep
  rcases step_cases hstep with
    ⟨event, tags, foreign, work, -, -, ho, hr⟩ | ⟨stale, frame, toSss, -, -, ho, hr⟩ |
    ⟨more, now, fresh, first, rest, w, -, -, -, -, hmib, ho, -⟩
  · exact .inl ⟨by simp [mibPart, ho], by rw [hr]⟩
  · exact .inl ⟨by simp [mibPart, ho], by rw [hr]⟩
  · exact .inr ⟨⟨t.pre.mib, _, w, t.post.mib⟩, by simp [mibPart, ho], rfl, rfl, hmib⟩

end Parts

/-! ### Rows that take one half-frame at a time -/

/-- An event of a chain as one of a row. -/
def ofChainEvent : ChainEvent F S → RowEvent F S
  | .pss event tags foreign => .pss event tags foreign
  | .sss stale => .sss stale
  | .mib now fresh => .mib 0 now fresh

/-- A step of a chain whose `mib` does not exit on success is one of a row. -/
theorem step_of_chain {lib : ChainLib F S Det Tab Sync Dec} {c c' : Chain F S Det Tab Sync Dec}
    {e : ChainEvent F S} {o : ChainWork S} (hexit : c.mib.exitOnSuccess = false)
    (h : Chain.step lib c e = .ok (c', o)) :
    c'.mib.exitOnSuccess = false ∧
      ∃ w, step lib ⟨c, false⟩ (ofChainEvent e) = .ok (⟨c', false⟩, w) := by
  rcases Chain.step_cases h with
    ⟨event, tags, foreign, work, rfl, hpss, -, hc⟩ | ⟨stale, frame, toSss, rfl, hqueue, -, hc⟩ |
    ⟨now, fresh, frame, toMib, w, rfl, hqueue, hmib, -, hc⟩
  · refine ⟨by rw [hc]; exact hexit,
      .pss work ((work.bind Work.emission).map (Emission.frame · tags)), ?_⟩
    simp only [step, ofChainEvent, hpss]
    rw [hc]
  · refine ⟨by rw [hc]; exact hexit, ?_⟩
    simp only [Chain.step, hqueue, Except.ok.injEq, Prod.mk.injEq] at h
    simp only [step, ofChainEvent, hqueue]
    exact ⟨_, by rw [h.1]⟩
  · refine ⟨(MibImpl.generalWork_exitOnSuccess hmib).trans hexit,
      .mib ⟨frame, [], now, fresh⟩ w, ?_⟩
    have hret : w.ret ≠ workDone := by
      rcases MibImpl.generalWork_consumes hmib with ⟨hdone, -⟩ | ⟨hret, -⟩
      · rw [hexit] at hdone
        cases hdone
      · rw [workDone]
        omega
    simp only [step, ofChainEvent, hqueue, List.take_zero, hmib, hret]
    rw [hc]
    simp [hqueue]

/-- A run of a chain, which takes one half-frame at a time, is a run of a row. -/
theorem run_of_chain {lib : ChainLib F S Det Tab Sync Dec} {c₀ c : Chain F S Det Tab Sync Dec}
    {tr : List (Chain.Transition F S Det Tab Sync Dec)} (hexit : c₀.mib.exitOnSuccess = false)
    (hrun : Machine.Run (Chain.step lib) c₀ tr c) :
    c.mib.exitOnSuccess = false ∧ ∃ tr' : List (Transition F S Det Tab Sync Dec),
      Machine.Run (step lib) ⟨c₀, false⟩ tr' ⟨c, false⟩ ∧
        tr'.map Machine.Transition.input = tr.map fun t => ofChainEvent t.input := by
  induction hrun with
  | nil => exact ⟨hexit, [], .nil, rfl⟩
  | @snoc tr c c' e o _ hstep ih =>
    obtain ⟨hexit', tr', hrun', hinputs⟩ := ih
    obtain ⟨hexit'', w, hw⟩ := step_of_chain hexit' hstep
    refine ⟨hexit'', _, hrun'.snoc hw, ?_⟩
    rw [List.map_append, hinputs, List.map_append]
    rfl

end Row

end LteTrigger
