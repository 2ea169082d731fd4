import LteTrigger.Pss.Progress
import LteTrigger.Trigger.Order

/-!
# How often the blocks of a trigger are called

A call of `pss` reads nine slots or more and emits one half-frame at most. A call of `sss` takes a
half-frame. One of `mib` takes some or is the last one. So the number of samples that `pss` has
read bounds the number of calls in its row.

## Main definitions

* `Row.callsLeft`: a bound for the calls of `mib` that may follow without new input;
* `DownlinkTrigger.pssTrace`: what a run is to the `pss` of a row.

## Main results

* `Row.length_sss_le`, `Row.length_mib_le`: the calls of `sss` and `mib` in a run of a row;
* `DownlinkTrigger.calls_le`: the calls of the blocks in a run, by those of `pss` and by the samples
  that were read.
-/

namespace LteTrigger

/-- A call of `mib` publishes one message at most. -/
theorem MibImpl.length_msgs_le [GnuRadio] {S Dec : Type} {lib : MibLib S Dec}
    {s s' : MibImpl S Dec} {c : MibCall S} {w : MibWork S} (h : generalWork lib s c = .ok (s', w)) :
    w.msgs.length ≤ 1 := by
  rcases generalWork_cases h with
    ⟨-, -, rfl⟩ | ⟨-, -, -, rfl⟩ | ⟨cellId, cp, -, -, -, -, rfl⟩ | ⟨cellId, cp, -, -, -, -, rfl⟩
  · rw [dropCurrentCell_msgs, List.length_map]
    exact Option.length_toList_le
  · exact Nat.zero_le _
  · exact Nat.zero_le _
  · rw [show (decode lib _ c).2.msgs = _ from rfl]
    unfold decode
    dsimp only
    split
    · split <;> exact le_rfl
    · exact Nat.zero_le _

namespace Row

variable [GnuRadio] {F S Det Tab Sync Dec : Type} [FloatOps F]
  {lib : ChainLib F S Det Tab Sync Dec} {r r' r₀ : Row F S Det Tab Sync Dec} {e : RowEvent F S}
  {o : RowWork S} {tr : List (Transition F S Det Tab Sync Dec)}
  {t : Transition F S Det Tab Sync Dec}

omit [FloatOps F] in
/-- A bound for the calls of `mib` that may follow without new input: one for each half-frame
before it, and the one that ends it. -/
def callsLeft (r : Row F S Det Tab Sync Dec) : ℕ := r.toMib.length + (!r.done).toNat

/-- A call of `mib` takes a half-frame, or it is the last one. -/
theorem callsLeft_mib {call : MibCall S} {w : MibWork S}
    (hstep : step lib t.pre t.input = .ok (t.post, t.output)) (ho : t.output = .mib call w) :
    t.post.callsLeft + 1 ≤ t.pre.callsLeft ∧ t.post.toSss = t.pre.toSss ∧ w.msgs.length ≤ 1 := by
  rcases step_cases hstep with
    ⟨_, _, _, _, -, -, ho', -⟩ | ⟨_, _, _, -, -, ho', -⟩ |
    ⟨more, now, fresh, first, rest, w', -, hqueue, hdone, hmore, hw, ho', hr⟩
  · cases ho.symm.trans ho'
  · cases ho.symm.trans ho'
  · obtain ⟨rfl, rfl⟩ := RowWork.mib.inj (ho.symm.trans ho')
    refine ⟨?_, by rw [hr], MibImpl.length_msgs_le hw⟩
    have hlength := MibCall.length_taken hw
    rw [hr]
    simp only [callsLeft, hdone, hqueue, List.length_drop, List.length_cons, Bool.not_false,
      Bool.toNat_true]
    rcases MibCall.taken_cases hw with ⟨hret, -⟩ | ⟨hret, hone⟩ | ⟨hret, hall, -⟩
    · -- the call that ends the block
      simp [hret]
    · rw [hone, List.length_singleton] at hlength
      have hnot : w.ret ≠ workDone := by rw [workDone]; omega
      simp [hnot, ← hlength]
    · rw [hall, MibCall.frames, List.length_cons] at hlength
      have hnot : w.ret ≠ workDone := by rw [workDone]; omega
      simp [hnot, ← hlength]

/-- A call of `sss` moves a half-frame on. -/
theorem callsLeft_sss {taken given : Frame S}
    (hstep : step lib t.pre t.input = .ok (t.post, t.output)) (ho : t.output = .sss taken given) :
    t.post.callsLeft = t.pre.callsLeft + 1 ∧ t.post.toSss.length + 1 = t.pre.toSss.length := by
  rcases step_cases hstep with
    ⟨_, _, _, _, -, -, ho', -⟩ | ⟨_, _, _, -, hqueue, -, hr⟩ |
    ⟨_, _, _, _, _, _, -, -, -, -, -, ho', -⟩
  · cases ho.symm.trans ho'
  · rw [hr, hqueue]
    refine ⟨?_, List.length_cons.symm⟩
    simp only [callsLeft, List.length_append, List.length_cons, List.length_nil]
    omega
  · cases ho.symm.trans ho'

omit [FloatOps F] in
/-- How many calls of `pss` an event is: one or none. -/
def pssCalls (t : Transition F S Det Tab Sync Dec) : ℕ := PssImpl.numCalls (pssPart t).toList

/-- An event of `pss` emits a half-frame at most, and only in a call. -/
theorem callsLeft_pss {work : Option (Work S)} {frame : Option (Frame S)}
    (hstep : step lib t.pre t.input = .ok (t.post, t.output)) (ho : t.output = .pss work frame) :
    t.post.callsLeft = t.pre.callsLeft ∧
      t.post.toSss.length ≤ t.pre.toSss.length + pssCalls t := by
  rcases step_cases hstep with
    ⟨event, tags, foreign, work', hinput, hpss, ho', hr⟩ | ⟨_, _, _, -, -, ho', -⟩ |
    ⟨_, _, _, _, _, _, -, -, -, -, -, ho', -⟩
  · refine ⟨by rw [hr]; rfl, ?_⟩
    rw [hr, List.length_append, pssCalls, pssPart, hinput, ho']
    rcases PssImpl.step_cases hpss with ⟨c, w, rfl, rfl, -⟩ | ⟨threshold, rfl, rfl, -⟩
    · exact Nat.add_le_add_left Option.length_toList_le _
    · exact le_rfl
  · cases ho.symm.trans ho'
  · cases ho.symm.trans ho'

/-- An event of a block does the work of that block. -/
theorem block_of_step (hstep : step lib r e = .ok (r', o)) :
    (∃ work frame, e.block = .pss ∧ o = .pss work frame) ∨
    (∃ taken given, e.block = .sss ∧ o = .sss taken given) ∨
    (∃ call w, e.block = .mib ∧ o = .mib call w) := by
  rcases step_cases hstep with
    ⟨_, _, _, _, rfl, -, rfl, -⟩ | ⟨_, _, _, rfl, -, rfl, -⟩ |
    ⟨_, _, _, _, _, _, rfl, -, -, -, -, rfl, -⟩
  · exact .inl ⟨_, _, rfl, rfl⟩
  · exact .inr (.inl ⟨_, _, rfl, rfl⟩)
  · exact .inr (.inr ⟨_, _, rfl, rfl⟩)

omit [GnuRadio] [FloatOps F] in
/-- The calls of `pss` in a run. -/
theorem sum_pssCalls (tr : List (Transition F S Det Tab Sync Dec)) :
    (tr.map pssCalls).sum = PssImpl.numCalls (tr.filterMap pssPart) := by
  induction tr with
  | nil => rfl
  | cons t tr ih =>
    rw [List.map_cons, List.sum_cons, ih, pssCalls]
    cases ht : pssPart t with
    | none => rw [List.filterMap_cons_none ht, Option.toList_none, PssImpl.numCalls,
        List.countP_nil, Nat.zero_add]
    | some u => rw [List.filterMap_cons_some ht, Option.toList_some, ← PssImpl.numCalls_append,
        List.singleton_append]

/-- There are no more calls of `sss` in a run than of `pss`. -/
theorem length_sss_le (h : Fresh r₀) (hrun : Machine.Run (step lib) r₀ tr r) :
    (tr.filter (·.input.block = .sss)).length ≤ PssImpl.numCalls (tr.filterMap pssPart) := by
  -- the potential is the number of half-frames before `sss`
  have hpotential := hrun.potential (fun r => r.toSss.length)
    (fun t => if t.input.block = .sss then 1 else 0) pssCalls fun t _ hstep => by
      rcases block_of_step hstep with
        ⟨work, frame, hblock, ho⟩ | ⟨taken, given, hblock, ho⟩ | ⟨call, w, hblock, ho⟩
      · simpa [hblock] using (callsLeft_pss hstep ho).2
      · have hmoved := (callsLeft_sss hstep ho).2
        simp only [hblock, ↓reduceIte]
        omega
      · simp [hblock, (callsLeft_mib hstep ho).2.1]
  rw [sum_pssCalls, Machine.sum_map_ite, h.toSss, List.length_nil, Nat.zero_add] at hpotential
  exact (Nat.le_add_right _ _).trans hpotential

/-- There is at most one call of `mib` more in a run than calls of `pss`. -/
theorem length_mib_le (h : Fresh r₀) (hrun : Machine.Run (step lib) r₀ tr r) :
    (tr.filter (·.input.block = .mib)).length ≤ PssImpl.numCalls (tr.filterMap pssPart) + 1 := by
  -- the potential also counts the half-frames behind `sss` and the last call
  have hpotential := hrun.potential (fun r => r.toSss.length + r.callsLeft)
    (fun t => if t.input.block = .mib then 1 else 0) pssCalls fun t _ hstep => by
      rcases block_of_step hstep with
        ⟨work, frame, hblock, ho⟩ | ⟨taken, given, hblock, ho⟩ | ⟨call, w, hblock, ho⟩
      · obtain ⟨hsame, hsent⟩ := callsLeft_pss hstep ho
        simp only [hblock, hsame, show ¬ Block.pss = .mib by decide, ↓reduceIte]
        omega
      · obtain ⟨hleft, hmoved⟩ := callsLeft_sss hstep ho
        simp only [hblock, show ¬ Block.sss = .mib by decide, ↓reduceIte]
        omega
      · obtain ⟨hleft, hsame, -⟩ := callsLeft_mib hstep ho
        simp only [hblock, ↓reduceIte, hsame]
        omega
  have hinit : r₀.toSss.length + r₀.callsLeft ≤ 1 := by
    rw [callsLeft, h.toSss, h.toMib]
    cases r₀.done <;> simp
  rw [sum_pssCalls, Machine.sum_map_ite] at hpotential
  have hcalls : (tr.filter (·.input.block = .mib)).length ≤ _ :=
    (Nat.le_add_right _ _).trans hpotential
  omega

end Row

namespace DownlinkTrigger

variable {D F S Det Tab Sync Dec : Type} [FloatOps D] [FloatOps F]
  {lib : TriggerLib D F S Det Tab Sync Dec} {psrThreshold : D} {exitOnSuccess : Bool}
  {memory : Fin 3 → MibMemory Dec} {s₀ s : DownlinkTrigger D F S Det Tab Sync Dec}
  {tr : List (Transition D F S Det Tab Sync Dec)}

omit [FloatOps D] [FloatOps F] in
/-- What a run is to the `pss` of the row `i`. -/
def pssTrace (i : Fin 3) (tr : List (Transition D F S Det Tab Sync Dec)) :
    List (PssImpl.Transition F S Det Tab) :=
  (rowTrace i tr).filterMap Row.pssPart

omit [FloatOps D] [FloatOps F] in
theorem length_calls (i : Fin 3) (k : Block) (tr : List (Transition D F S Det Tab Sync Dec)) :
    (calls i k tr).length = ((rowTrace i tr).filter (·.input.block = k)).length := by
  rw [calls, List.filter_map, List.length_map]
  rfl

/-- A run of the trigger is a run of each `pss`. -/
theorem pss_run [GnuRadio] (hrun : Machine.Run (step lib) s₀ tr s) (i : Fin 3) :
    Machine.Run (PssImpl.step lib.pss) (s₀.rows i).pss (pssTrace i tr) (s.rows i).pss :=
  (Row.isPart_pss lib.toChainLib).run (row_run hrun i)

/-- In every run of the trigger, whatever the order of events, each call of `pss` reads nine slots
or more, there are no more calls of `sss` in a row than of `pss`, and one more of `mib` at most. So
the samples that the `pss` of a row has read bound the calls of all its blocks, and a trigger that
is given a finite recording is called finitely often. -/
theorem calls_le [GnuRadio] (hpeak : PssImpl.PeaksInRange lib.pss)
    (hmake : make lib psrThreshold exitOnSuccess memory = .ok s₀)
    (hrun : Machine.Run (step lib) s₀ tr s) (i : Fin 3) :
    (∀ t ∈ pssTrace i tr, t.input.isCall = true → 8640 ≤ PssImpl.consumed t) ∧
    (calls i .sss tr).length ≤ PssImpl.numCalls (pssTrace i tr) ∧
    (calls i .mib tr).length ≤ PssImpl.numCalls (pssTrace i tr) + 1 ∧
    8640 * (PssImpl.numCalls (pssTrace i tr) : ℤ) ≤ PssImpl.nitemsRead (pssTrace i tr) ∧
    8640 * ((calls i .sss tr).length : ℤ) ≤ PssImpl.nitemsRead (pssTrace i tr) ∧
    8640 * ((calls i .mib tr).length : ℤ) ≤ PssImpl.nitemsRead (pssTrace i tr) + 8640 := by
  obtain ⟨hpss, hfresh⟩ := row_made hmake i
  have hrow := row_run hrun i
  have hpssRun := pss_run hrun i
  have hsss : (calls i .sss tr).length ≤ PssImpl.numCalls (pssTrace i tr) := by
    rw [length_calls]
    exact Row.length_sss_le hfresh hrow
  have hmib : (calls i .mib tr).length ≤ PssImpl.numCalls (pssTrace i tr) + 1 := by
    rw [length_calls]
    exact Row.length_mib_le hfresh hrow
  have hread : 8640 * (PssImpl.numCalls (pssTrace i tr) : ℤ) ≤ PssImpl.nitemsRead (pssTrace i tr) :=
    PssImpl.nitemsRead_ge hpeak hpss (show Machine.Run _ _ ([] ++ pssTrace i tr) _ from hpssRun)
  refine ⟨fun t ht hcall => ?_, hsss, hmib, hread, by omega, by omega⟩
  obtain ⟨hstep, _, _, -, hpre, -⟩ := hpssRun.cut_at_mem ht
  obtain ⟨c, hc⟩ := PssImpl.Event.isCall_iff.mp hcall
  simpa [PssImpl.numCalls_singleton_of_call hc] using PssImpl.consumed_ge hpeak hpss hpre hstep

/-- An srsLTE whose correlations always peak at 960. -/
def steady : TriggerLib ℤ ℤ Unit (List (ℕ × ℤ)) Unit (ℤ × ℤ) (List Bool) :=
  { TriggerLib.playback Unit [] 7 with
    pss := { PssLib.playback Unit [] with findPss := fun det _ => ⟨960, 5, det⟩ } }

/-- Sixteen half-frames go through a row. -/
theorem calls_le_steady :
    ∃ tr s, Machine.Run (step steady) (.playback Unit [] 4 false [true, true]) tr s ∧
      (calls 2 .sss tr).length = 16 ∧
      (∀ t ∈ pssTrace 2 tr, t.input.isCall = true → 8640 ≤ PssImpl.consumed t) ∧
      (calls 2 .sss tr).length ≤ PssImpl.numCalls (pssTrace 2 tr) ∧
      8640 * ((calls 2 .sss tr).length : ℤ) ≤ PssImpl.nitemsRead (pssTrace 2 tr) := by
  have hpeak : PssImpl.PeaksInRange steady.pss := by
    intro det samples
    show 0 ≤ (960 : ℤ) ∧ (960 : ℤ) < halfFrameLength + symbolSz
    decide
  have hmake : make steady 4 false (fun _ => ⟨[true, true, true], .norm, .r16, 0⟩) =
      .ok (.playback Unit [] 4 false [true, true]) := rfl
  obtain ⟨tr, s, hexec, hcalls⟩ : ∃ tr s,
      Machine.exec (step steady) (.playback Unit [] 4 false [true, true]) (acquisition 2) =
        some (tr, s) ∧ (calls 2 .sss tr).length = 16 := ⟨_, _, rfl, rfl⟩
  have hrun := Machine.Run.of_exec hexec
  obtain ⟨hslots, hsss, -, -, hread, -⟩ := calls_le hpeak hmake hrun 2
  exact ⟨tr, s, hrun, hcalls, hslots, hsss, hread⟩

end DownlinkTrigger

end LteTrigger
