import LteTrigger.Machine.Reorder
import LteTrigger.Trigger.Soundness

/-!
# The order in which the blocks of a trigger are called

The scheduler decides when it calls which block. What it decides cannot be seen afterwards: what
every block does, and the state it ends in, depends on the calls of the blocks only, and not on
how those of different blocks were interleaved.

Within a row, an event of a block may be moved in front of one of a block behind it, since the
half-frames between them wait in order. Different rows have nothing in common.

## Main definitions

* `Block`, `RowEvent.block`: the blocks of a row, and the one that an event is one of;
* `DownlinkTrigger.calls`: the events of a block in a run, with what they did.

## Main results

* `Row.swaps`: an event may be moved in front of one of a block behind it;
* `DownlinkTrigger.schedule_independent`: two runs with the same events of each block.
-/

namespace LteTrigger

/-- The blocks of a row. -/
inductive Block
  | pss
  | sss
  | mib
  deriving Repr

/-- The place of a block in its row. -/
def Block.place : Block → ℕ
  | .pss => 0
  | .sss => 1
  | .mib => 2

theorem Block.place_injective : Function.Injective place := by
  intro b b' h
  cases b <;> cases b' <;> first | rfl | cases h

/-- The blocks stand in a row in the order in which they are connected. -/
instance : LinearOrder Block := LinearOrder.lift' Block.place Block.place_injective

theorem Block.lt_iff {b b' : Block} : b < b' ↔ b.place < b'.place := Iff.rfl

/-- The block that an event is one of. -/
def RowEvent.block {F S : Type} : RowEvent F S → Block
  | .pss _ _ _ => .pss
  | .sss _ => .sss
  | .mib _ _ _ => .mib

namespace Row

variable [GnuRadio] {F S Det Tab Sync Dec : Type} [FloatOps F]
  {lib : ChainLib F S Det Tab Sync Dec} {r r' : Row F S Det Tab Sync Dec}

theorem step_pss {event : PssImpl.Event F S} {tags : List Tag}
    {foreign : ∀ tag ∈ tags, tag.Foreign} {pss : PssImpl F Det Tab} {work : Option (Work S)}
    (h : PssImpl.step lib.pss r.pss event = .ok (pss, work))
    (hr : r' = { r with
      pss := pss
      toSss := r.toSss ++ ((work.bind Work.emission).map (Emission.frame · tags)).toList }) :
    step lib r (.pss event tags foreign) =
      .ok (r', .pss work ((work.bind Work.emission).map (Emission.frame · tags))) := by
  simp [step, h, hr]

theorem step_sss {stale : HalfFrame S} {frame : Frame S} {toSss : List (Frame S)}
    (h : r.toSss = frame :: toSss)
    (hr : r' = { r with
      sss := (SssImpl.work lib.sss r.sss frame stale).1
      toSss := toSss
      toMib := r.toMib ++
        [SssImpl.outputFrame frame (SssImpl.work lib.sss r.sss frame stale).2] }) :
    step lib r (.sss stale) =
      .ok (r', .sss frame
        (SssImpl.outputFrame frame (SssImpl.work lib.sss r.sss frame stale).2)) := by
  simp [step, h, hr]

theorem step_mib {more : ℕ} {now : ℤ} {fresh : ℕ} {first : Frame S} {rest taken : List (Frame S)}
    {mib : MibImpl S Dec} {w : MibWork S} (h : r.toMib = first :: rest) (hdone : r.done = false)
    (hmore : more ≤ rest.length) (htaken : rest.take more = taken)
    (hw : MibImpl.generalWork lib.mib r.mib ⟨first, taken, now, fresh⟩ = .ok (mib, w))
    (hr : r' = { r with
      mib := mib
      toMib := r.toMib.drop (w.nconsume / halfFrameLength)
      done := decide (w.ret = workDone) }) :
    step lib r (.mib more now fresh) = .ok (r', .mib ⟨first, taken, now, fresh⟩ w) := by
  simp [step, h, hdone, hmore.not_gt, htaken, hw, hr]

/-- An event may be moved in front of one of a block behind it. -/
theorem swaps (lib : ChainLib F S Det Tab Sync Dec) : Machine.Swaps (step lib) RowEvent.block := by
  intro r e r₁ o e' r₂ o' hblock hstep hstep'
  rcases step_cases hstep with
    ⟨_, _, _, _, rfl, -⟩ | ⟨stale, frame, toSss, rfl, hqueue, rfl, rfl⟩ |
    ⟨more, now, fresh, first, rest, w, rfl, hqueue, hdone, hmore, hw, rfl, hr₁⟩
  · -- nothing stands in front of `pss`
    cases hblock
  · rcases step_cases hstep' with
      ⟨event, tags, foreign, work, rfl, hpss, rfl, hr₂⟩ | ⟨_, _, _, rfl, -⟩ |
      ⟨_, _, _, _, _, _, rfl, -⟩
    · -- what `pss` sends comes behind what `sss` takes
      have hqueue' : r.toSss ++ ((work.bind Work.emission).map (Emission.frame · tags)).toList =
          frame :: (toSss ++ ((work.bind Work.emission).map (Emission.frame · tags)).toList) := by
        rw [hqueue, List.cons_append]
      exact ⟨_, step_pss hpss rfl, step_sss hqueue' hr₂⟩
    · exact absurd hblock (lt_irrefl _)
    · simp [RowEvent.block, Block.lt_iff, Block.place] at hblock
  · have hlength : w.nconsume / halfFrameLength ≤ r.toMib.length := by
      have htaken := congrArg List.length (toMib_eq_taken_append hqueue hmore hw)
      rw [List.length_append, MibCall.length_taken hw] at htaken
      omega
    rcases step_cases hstep' with
      ⟨event, tags, foreign, work, rfl, hpss, rfl, hr₂⟩ |
      ⟨stale, frame, toSss, rfl, hqueue', rfl, hr₂⟩ | ⟨_, _, _, _, _, _, rfl, -⟩
    · rw [hr₁] at hpss hr₂
      exact ⟨_, step_pss hpss rfl, step_mib hqueue hdone hmore rfl hw hr₂⟩
    · rw [hr₁] at hqueue' hr₂ ⊢
      let given := SssImpl.outputFrame frame (SssImpl.work lib.sss r.sss frame stale).2
      have hsent : r.toMib ++ [given] = first :: (rest ++ [given]) := by
        rw [hqueue, List.cons_append]
      have htaken : (rest ++ [given]).take more = rest.take more :=
        List.take_append_of_le_length hmore
      have hmore' : more ≤ (rest ++ [given]).length := by
        rw [List.length_append]
        omega
      -- what `sss` sends comes behind all that `mib` is called for
      refine ⟨_, step_sss (r := r) hqueue' rfl, step_mib hsent hdone hmore' htaken hw ?_⟩
      rw [hr₂]
      exact congrArg (fun toMib => { r with
        sss := (SssImpl.work lib.sss r.sss frame stale).1
        mib := r₁.mib
        toSss := toSss
        toMib := toMib
        done := decide (w.ret = workDone) }) (List.drop_append_of_le_length hlength).symm
    · exact absurd hblock (lt_irrefl _)

/-- What a block does in a row does not depend on how its events and those of the other blocks are
interleaved. -/
theorem confluent {r₀ : Row F S Det Tab Sync Dec} {tr tr' : List (Transition F S Det Tab Sync Dec)}
    (hrun : Machine.Run (step lib) r₀ tr r) (hrun' : Machine.Run (step lib) r₀ tr' r')
    (hevents : ∀ k, (tr.map Machine.Transition.input).filter (RowEvent.block · = k) =
      (tr'.map Machine.Transition.input).filter (RowEvent.block · = k)) :
    r = r' ∧ ∀ k, (tr.map Machine.Transition.label).filter (·.1.block = k) =
      (tr'.map Machine.Transition.label).filter (·.1.block = k) :=
  hrun.confluent (swaps lib) hrun' hevents

end Row

namespace DownlinkTrigger

variable {D F S Det Tab Sync Dec : Type}

/-- The events of a block of the row `i` in a run, in order, and what each of them did. -/
def calls (i : Fin 3) (k : Block) (tr : List (Transition D F S Det Tab Sync Dec)) :
    List (RowEvent F S × RowWork S) :=
  ((rowTrace i tr).map Machine.Transition.label).filter (·.1.block = k)

/-- The events of the calls. -/
theorem map_fst_calls (i : Fin 3) (k : Block) (tr : List (Transition D F S Det Tab Sync Dec)) :
    (calls i k tr).map Prod.fst =
      ((rowTrace i tr).map Machine.Transition.input).filter (RowEvent.block · = k) := by
  have hinputs : (rowTrace i tr).map Machine.Transition.input =
      ((rowTrace i tr).map Machine.Transition.label).map Prod.fst := by
    rw [List.map_map]
    rfl
  rw [calls, hinputs, List.filter_map (f := Prod.fst)]
  rfl

variable [FloatOps D] [FloatOps F] {lib : TriggerLib D F S Det Tab Sync Dec}
  {s₀ s s' : DownlinkTrigger D F S Det Tab Sync Dec}
  {tr tr' : List (Transition D F S Det Tab Sync Dec)}

/-- Take two runs of the trigger in which the same events happen to each of the nine blocks, in the
same order, but in which those of different blocks may be interleaved in different ways. In both
runs every call does the same: it emits the same half-frames, publishes the same messages and makes
the same library calls. At the end the blocks and what is on the way between them are the same. -/
theorem schedule_independent [GnuRadio] (hrun : Machine.Run (step lib) s₀ tr s)
    (hrun' : Machine.Run (step lib) s₀ tr' s')
    (hevents : ∀ i k, (calls i k tr).map Prod.fst = (calls i k tr').map Prod.fst) :
    s.rows = s'.rows ∧ ∀ i k, calls i k tr = calls i k tr' := by
  have hrow (i : Fin 3) : s.rows i = s'.rows i ∧ ∀ k, calls i k tr = calls i k tr' := by
    refine Row.confluent (row_run hrun i) (row_run hrun' i) fun k => ?_
    rw [← map_fst_calls, ← map_fst_calls]
    exact hevents i k
  exact ⟨funext fun i => (hrow i).1, fun i => (hrow i).2⟩

/-- The events of each block while two half-frames go through its row. -/
def twoFrames : Block → List (RowEvent ℤ Unit)
  | .pss => List.replicate 2 (.pss (.work (.minimal (fun _ => ()) 0)) [] foreign_nil)
  | .sss => List.replicate 2 (.sss fun _ => ())
  | .mib => List.replicate 2 (.mib 0 0 0)

/-- Two half-frames go through the row block by block, or one after the other. -/
theorem schedule_independent_playback :
    ∃ tr tr' s s',
      Machine.Run (step (.playback Unit (List.replicate 16 (960, 5)) 7))
        (.playback Unit (List.replicate 16 (960, 5)) 4 false [true, true]) tr s ∧
      Machine.Run (step (.playback Unit (List.replicate 16 (960, 5)) 7))
        (.playback Unit (List.replicate 16 (960, 5)) 4 false [true, true]) tr' s' ∧
      tr.map Machine.Transition.input ≠ tr'.map Machine.Transition.input ∧ s.rows = s'.rows := by
  obtain ⟨tr, s, hblocks, hevents⟩ : ∃ tr s,
      Machine.exec (step (.playback Unit (List.replicate 16 (960, 5)) 7))
        (.playback Unit (List.replicate 16 (960, 5)) 4 false [true, true])
        [.pss 2 (.minimal (fun _ => ()) 0) [] foreign_nil,
          .pss 2 (.minimal (fun _ => ()) 0) [] foreign_nil, .sss 2 fun _ => (), .sss 2 fun _ => (),
          .mib 2 0 0 0, .mib 2 0 0 0] = some (tr, s) ∧
      ∀ i k, (calls i k tr).map Prod.fst = if i = 2 then twoFrames k else [] := by
    refine ⟨_, _, rfl, fun i k => ?_⟩
    match i, k with
    | 0, _ => rfl
    | 1, _ => rfl
    | 2, .pss => rfl
    | 2, .sss => rfl
    | 2, .mib => rfl
  obtain ⟨tr', s', hframes, hevents'⟩ : ∃ tr s,
      Machine.exec (step (.playback Unit (List.replicate 16 (960, 5)) 7))
        (.playback Unit (List.replicate 16 (960, 5)) 4 false [true, true])
        [.pss 2 (.minimal (fun _ => ()) 0) [] foreign_nil, .sss 2 fun _ => (), .mib 2 0 0 0,
          .pss 2 (.minimal (fun _ => ()) 0) [] foreign_nil, .sss 2 fun _ => (), .mib 2 0 0 0] =
        some (tr, s) ∧
      ∀ i k, (calls i k tr).map Prod.fst = if i = 2 then twoFrames k else [] := by
    refine ⟨_, _, rfl, fun i k => ?_⟩
    match i, k with
    | 0, _ => rfl
    | 1, _ => rfl
    | 2, .pss => rfl
    | 2, .sss => rfl
    | 2, .mib => rfl
  have hrun := Machine.Run.of_exec hblocks
  have hrun' := Machine.Run.of_exec hframes
  refine ⟨tr, tr', s, s', hrun, hrun', ?_, (schedule_independent hrun hrun' fun i k => ?_).1⟩
  · rw [Machine.inputs_of_exec hblocks, Machine.inputs_of_exec hframes]
    intro h
    cases (List.cons.inj (List.cons.inj h).2).1
  · rw [hevents, hevents']

end DownlinkTrigger

end LteTrigger
