import LteTrigger.Trigger.Row
import Mathlib.Data.Fin.VecNotation
import Mathlib.Data.Fintype.Basic

/-!
# The `downlink_trigger_c` block

The hierarchical block of `python/downlink_trigger_c.py`: its constructor, the three rows it
connects, and `set_psr_threshold`, which Python runs beside the scheduler. It sets the three
`pss` blocks one after the other, and the scheduler may call blocks in between. One call of
`set_psr_threshold` has returned before the next one starts. A Python `float` is of another
precision than the `float` of a block; `TriggerLib.toFloat` converts it.

The `tag_debug` blocks at the ends of the rows display nothing and are left out.

## Main definitions

* `DownlinkTrigger`: the members of the block;
* `DownlinkTrigger.make`: the constructor;
* `DownlinkTrigger.step`: a call of one of the nine blocks, or a step of `set_psr_threshold`.

## Main results

* `DownlinkTrigger.make_rows`: what a constructor that returns has made;
* `DownlinkTrigger.isPart_row`: each row is a part of the block.
-/

namespace LteTrigger

/-- The srsLTE functions that the blocks call, and the conversion of numbers. -/
structure TriggerLib (D F S Det Tab Sync Dec : Type) extends
    ChainLib F S Det Tab Sync Dec where
  /-- The conversion of a Python `float` to the `float` of a block. -/
  toFloat : D → F

/-- `MIN_PSR_THRESHOLD`, which is 1.5. -/
def minPsrThreshold (D : Type) [FloatOps D] : D := (3 : ℕ) / (2 : ℕ)

/-- `_ensure_safe_threshold`. -/
def ensureSafeThreshold {D : Type} [FloatOps D] (t : D) : D :=
  if minPsrThreshold D < t then t else minPsrThreshold D

/-- The default argument `track_after` of `pss::make`. -/
def defaultTrackAfter : ℤ := 16

/-- The default argument `track_every` of `pss::make`. -/
def defaultTrackEvery : ℤ := 8

/-- What the members of `mib` without an initialiser contain before the constructor runs. -/
structure MibMemory (Dec : Type) where
  /-- `d_mib`. -/
  mib : Dec
  /-- `d_cell.phich_length`. -/
  phichLength : PhichLength
  /-- `d_cell.phich_resources`. -/
  phichResources : PhichResources
  /-- `d_sfn_offset`. -/
  sfnOffset : ℤ

/-- The members of `downlink_trigger_c`. -/
structure DownlinkTrigger (D F S Det Tab Sync Dec : Type) where
  /-- `psr_threshold`. -/
  psrThreshold : D
  /-- `pss0` to `mib0`, `pss1` to `mib1` and `pss2` to `mib2`. -/
  rows : Fin 3 → Row F S Det Tab Sync Dec
  /-- The rows whose `pss` the running call of `set_psr_threshold` has not set yet. -/
  setting : List (Fin 3)

/-- What can happen to the block. -/
inductive TriggerEvent (D S : Type)
  /-- A call of `pss` in the row `i`. If a half-frame goes out, it carries the given foreign tags
  too. -/
  | pss (i : Fin 3) (call : Call S) (tags : List Tag) (foreign : ∀ tag ∈ tags, tag.Foreign)
  /-- A call of `sss` in the row `i`, whose output buffer holds `stale`. -/
  | sss (i : Fin 3) (stale : HalfFrame S)
  /-- A call of `mib` in the row `i` for one half-frame and `more` after it, at the time `now`. A
  message object made in it is `fresh`. -/
  | mib (i : Fin 3) (more : ℕ) (now : ℤ) (fresh : ℕ)
  /-- `set_psr_threshold` is called. -/
  | setPsrThreshold (t : D)
  /-- `set_psr_threshold` sets the next `pss` block. -/
  | setNext

/-- The row that the scheduler calls a block of, and what happens there. -/
def TriggerEvent.rowEvent {D F S : Type} : TriggerEvent D S → Option (Fin 3 × RowEvent F S)
  | .pss i call tags foreign => some (i, .pss (.work call) tags foreign)
  | .sss i stale => some (i, .sss stale)
  | .mib i more now fresh => some (i, .mib more now fresh)
  | .setPsrThreshold _ => none
  | .setNext => none

/-- What an event did. -/
inductive TriggerWork (F S : Type)
  /-- An event of the row `i`, and what it did. -/
  | row (i : Fin 3) (event : RowEvent F S) (work : RowWork S)
  /-- Nothing that a row takes part in. -/
  | python

namespace DownlinkTrigger

variable {D F S Det Tab Sync Dec : Type} [FloatOps D] [FloatOps F]

/-- The constructor `downlink_trigger_c.__init__`. -/
def make (lib : TriggerLib D F S Det Tab Sync Dec) (psrThreshold : D) (exitOnSuccess : Bool)
    (memory : Fin 3 → MibMemory Dec) :
    Except Exception (DownlinkTrigger D F S Det Tab Sync Dec) := do
  let psrThreshold := ensureSafeThreshold psrThreshold
  let pss (nId2 : ℤ) := PssImpl.make lib.pss nId2 (lib.toFloat psrThreshold)
    defaultTrackAfter defaultTrackEvery
  let sss (nId2 : ℤ) := SssImpl.make lib.sss nId2
  let mib (memory : MibMemory Dec) := MibImpl.make lib.mib exitOnSuccess memory.mib
    memory.phichLength memory.phichResources memory.sfnOffset
  let pss0 ← pss 0
  let pss1 ← pss 1
  let pss2 ← pss 2
  let sss0 ← sss 0
  let sss1 ← sss 1
  let sss2 ← sss 2
  let mib0 ← mib (memory 0)
  let mib1 ← mib (memory 1)
  let mib2 ← mib (memory 2)
  return {
    psrThreshold
    rows := ![.ofBlocks pss0 sss0 mib0.1, .ofBlocks pss1 sss1 mib1.1, .ofBlocks pss2 sss2 mib2.1]
    setting := [] }

/-- An event of one row. -/
def stepRow [GnuRadio] (lib : TriggerLib D F S Det Tab Sync Dec)
    (s : DownlinkTrigger D F S Det Tab Sync Dec) (i : Fin 3) (event : RowEvent F S) :
    Except TriggerError (DownlinkTrigger D F S Det Tab Sync Dec × TriggerWork F S) :=
  (Row.step lib.toChainLib (s.rows i) event).map fun (row, work) =>
    ({ s with rows := Function.update s.rows i row }, .row i event work)

/-- One event. -/
def step [GnuRadio] (lib : TriggerLib D F S Det Tab Sync Dec)
    (s : DownlinkTrigger D F S Det Tab Sync Dec) :
    TriggerEvent D S →
      Except TriggerError (DownlinkTrigger D F S Det Tab Sync Dec × TriggerWork F S)
  | .pss i call tags foreign => stepRow lib s i (.pss (.work call) tags foreign)
  | .sss i stale => stepRow lib s i (.sss stale)
  | .mib i more now fresh => stepRow lib s i (.mib more now fresh)
  | .setPsrThreshold t =>
    match s.setting with
    | [] =>
      .ok ({ s with psrThreshold := ensureSafeThreshold t, setting := [0, 1, 2] }, .python)
    | _ :: _ => .error .notCalled
  | .setNext =>
    match s.setting with
    | [] => .error .notCalled
    | i :: setting =>
      -- `self.psr_threshold` was assigned when the call began
      stepRow lib { s with setting := setting } i
        (.pss (.setPsrThreshold (lib.toFloat s.psrThreshold)) [] foreign_nil)

/-- One event in a run. -/
abbrev Transition (D F S Det Tab Sync Dec : Type) :=
  Machine.Transition (DownlinkTrigger D F S Det Tab Sync Dec) (TriggerEvent D S)
    (TriggerWork F S)

section Make

variable {lib : TriggerLib D F S Det Tab Sync Dec} {psrThreshold : D} {exitOnSuccess : Bool}
  {memory : Fin 3 → MibMemory Dec} {s : DownlinkTrigger D F S Det Tab Sync Dec}

/-- What a constructor that returns has made: three rows, the blocks of each made for its
`N_id_2` and with the same threshold. -/
theorem make_rows (hmake : make lib psrThreshold exitOnSuccess memory = .ok s) :
    s.psrThreshold = ensureSafeThreshold psrThreshold ∧ s.setting = [] ∧
    ∀ i, ∃ pss sss mib calls, s.rows i = .ofBlocks pss sss mib ∧
      PssImpl.make lib.pss (i : ℕ) (lib.toFloat (ensureSafeThreshold psrThreshold))
        defaultTrackAfter defaultTrackEvery = .ok pss ∧
      SssImpl.make lib.sss (i : ℕ) = .ok sss ∧
      MibImpl.make lib.mib exitOnSuccess (memory i).mib (memory i).phichLength
        (memory i).phichResources (memory i).sfnOffset = .ok (mib, calls) := by
  simp only [make, bind, Except.bind, pure, Except.pure] at hmake
  repeat' split at hmake
  all_goals try cases hmake
  refine ⟨rfl, rfl, fun i => ?_⟩
  match i with
  | 0 => exact ⟨_, _, _, _, rfl, ‹_›, ‹_›, ‹_›⟩
  | 1 => exact ⟨_, _, _, _, rfl, ‹_›, ‹_›, ‹_›⟩
  | 2 => exact ⟨_, _, _, _, rfl, ‹_›, ‹_›, ‹_›⟩

end Make

section Steps

variable [GnuRadio] {lib : TriggerLib D F S Det Tab Sync Dec}
  {s s' : DownlinkTrigger D F S Det Tab Sync Dec} {e : TriggerEvent D S} {o : TriggerWork F S}

/-- All that can happen: a call of a block, the start of `set_psr_threshold`, or a step of it. -/
theorem step_cases (h : step lib s e = .ok (s', o)) :
    (∃ i event work, e.rowEvent = some (i, event) ∧ o = .row i event work ∧
      Row.step lib.toChainLib (s.rows i) event = .ok (s'.rows i, work) ∧
      s' = { s with rows := Function.update s.rows i (s'.rows i) }) ∨
    (∃ t, e = .setPsrThreshold t ∧ s.setting = [] ∧ o = .python ∧
      s' = { s with psrThreshold := ensureSafeThreshold t, setting := [0, 1, 2] }) ∨
    (∃ i setting, e = .setNext ∧ s.setting = i :: setting ∧
      o = .row i (.pss (.setPsrThreshold (lib.toFloat s.psrThreshold)) [] foreign_nil)
        (.pss none none) ∧
      s' = { s with
        setting := setting
        rows := Function.update s.rows i { s.rows i with
          pss := (s.rows i).pss.setPsrThreshold (lib.toFloat s.psrThreshold) } }) := by
  have hrow {i : Fin 3} {event : RowEvent F S} (h : stepRow lib s i event = .ok (s', o)) :
      ∃ work, o = .row i event work ∧
        Row.step lib.toChainLib (s.rows i) event = .ok (s'.rows i, work) ∧
        s' = { s with rows := Function.update s.rows i (s'.rows i) } := by
    rw [stepRow] at h
    cases hstep : Row.step lib.toChainLib (s.rows i) event with
    | error err => simp [hstep, Except.map] at h
    | ok r =>
      obtain ⟨row, work⟩ := r
      simp only [hstep, Except.map, Except.ok.injEq, Prod.mk.injEq] at h
      obtain ⟨rfl, rfl⟩ := h
      exact ⟨work, rfl, by simp, by simp⟩
  cases e with
  | pss i call tags foreign => exact .inl ⟨i, _, (hrow h).imp fun _ hw => ⟨rfl, hw⟩⟩
  | sss i stale => exact .inl ⟨i, _, (hrow h).imp fun _ hw => ⟨rfl, hw⟩⟩
  | mib i more now fresh => exact .inl ⟨i, _, (hrow h).imp fun _ hw => ⟨rfl, hw⟩⟩
  | setPsrThreshold t =>
    right; left
    simp only [step] at h
    split at h
    · rename_i hsetting
      obtain ⟨rfl, rfl⟩ := Prod.mk.inj (Except.ok.inj h)
      exact ⟨t, rfl, hsetting, rfl, rfl⟩
    · cases h
  | setNext =>
    right; right
    simp only [step] at h
    split at h
    · cases h
    · rename_i i setting hsetting
      refine ⟨i, setting, rfl, hsetting, ?_⟩
      simp only [stepRow, Row.step, PssImpl.step, Except.map, Option.bind_none, Option.map_none,
        Option.toList_none, List.append_nil, Except.ok.injEq, Prod.mk.injEq] at h
      exact ⟨h.2.symm, h.1.symm⟩

/-- What a transition is to the row `i`. -/
def rowPart (i : Fin 3) (t : Transition D F S Det Tab Sync Dec) :
    Option (Row.Transition F S Det Tab Sync Dec) :=
  match t.output with
  | .row j event work => if j = i then some ⟨t.pre.rows i, event, work, t.post.rows i⟩ else none
  | .python => none

omit [GnuRadio] [FloatOps D] [FloatOps F] in
theorem rowPart_eq_some {i : Fin 3} {t : Transition D F S Det Tab Sync Dec}
    {u : Row.Transition F S Det Tab Sync Dec} :
    rowPart i t = some u ↔ t.output = .row i u.input u.output ∧ t.pre.rows i = u.pre ∧
      t.post.rows i = u.post := by
  obtain ⟨pre, input, output, post⟩ := u
  rw [rowPart]
  split
  · rename_i j event work ho
    by_cases hj : j = i
    · subst hj
      simp only [↓reduceIte, Option.some.injEq, Machine.Transition.mk.injEq, ho,
        TriggerWork.row.injEq, true_and]
      tauto
    · simp [ho, hj]
  · rename_i ho
    simp [ho]

/-- Each row is a part of the block. -/
theorem isPart_row (lib : TriggerLib D F S Det Tab Sync Dec) (i : Fin 3) :
    Machine.IsPart (step lib) (Row.step lib.toChainLib) (fun s => s.rows i) (rowPart i) := by
  intro t hstep
  rcases step_cases hstep with
    ⟨j, event, work, -, ho, hrow, hs⟩ | ⟨_, -, -, ho, hs⟩ | ⟨j, setting, -, -, ho, hs⟩
  · by_cases hj : j = i
    · subst hj
      exact .inr ⟨⟨t.pre.rows j, event, work, t.post.rows j⟩, by simp [rowPart, ho], rfl, rfl, hrow⟩
    · -- the other rows stay as they are
      refine .inl ⟨by simp [rowPart, ho, hj], ?_⟩
      rw [hs]
      exact Function.update_of_ne (Ne.symm hj) _ _
  · exact .inl ⟨by simp [rowPart, ho], by rw [hs]⟩
  · by_cases hj : j = i
    · subst hj
      refine .inr ⟨⟨t.pre.rows j, .pss (.setPsrThreshold (lib.toFloat t.pre.psrThreshold)) []
        foreign_nil, .pss none none, t.post.rows j⟩, by simp [rowPart, ho], rfl, rfl, ?_⟩
      rw [hs]
      simp [Row.step, PssImpl.step]
    · refine .inl ⟨by simp [rowPart, ho, hj], ?_⟩
      rw [hs]
      exact Function.update_of_ne (Ne.symm hj) _ _

end Steps

end DownlinkTrigger

/-! ### A trigger over an srsLTE that plays back -/

/-- An srsLTE that finds the cell group `nId1` in every half-frame. What it works on is `N_id_2`
and `N_id_1`. -/
def SssLib.ofNId1 (S : Type) (nId1 : ℤ) : SssLib S (ℤ × ℤ) where
  syncInit _ _ _ := some (0, 0)
  syncSetNId2 sync nId2 := if 0 ≤ nId2 ∧ nId2 < 3 then some (nId2, sync.2) else none
  sssSetNId2 sync nId2 := if 0 ≤ nId2 ∧ nId2 < 3 then some sync else none
  syncReset sync := sync
  syncDetectCp sync _ _ := (.norm, sync)
  syncSetCp sync _ := sync
  cpLen _ := 9
  sssM0m1Partial sync _ _ := sync
  sssNId1 _ := nId1
  setNId1 sync nId1 := (sync.1, nId1)
  syncGetCellId sync := 3 * sync.2 + sync.1
  cp _ := .norm

/-- An srsLTE whose correlations are the given ones in every row, and which finds the cell group
`nId1`. Numbers are integers. -/
def TriggerLib.playback (S : Type) (correlations : List (ℕ × ℤ)) (nId1 : ℤ) :
    TriggerLib ℤ ℤ S (List (ℕ × ℤ)) Unit (ℤ × ℤ) (List Bool) where
  pss := .playback S correlations
  sss := .ofNId1 S nId1
  mib := .playback S
  toFloat := id

/-- The same srsLTE with a channel estimation that fails. -/
def TriggerLib.failing (S : Type) (correlations : List (ℕ × ℤ)) (nId1 : ℤ) :
    TriggerLib ℤ ℤ S (List (ℕ × ℤ)) Unit (ℤ × ℤ) (List Bool) where
  pss := { PssLib.playback S correlations with pssChest := fun _ _ => srslteError }
  sss := .ofNId1 S nId1
  mib := .playback S
  toFloat := id

/-- A row over such an srsLTE, as constructed: its decoder has the given outcomes left. -/
def Row.playback (S : Type) (correlations : List (ℕ × ℤ)) (psrThreshold : ℤ)
    (exitOnSuccess : Bool) (outcomes : List Bool) (nId2 : ℤ) :
    Row ℤ S (List (ℕ × ℤ)) Unit (ℤ × ℤ) (List Bool) :=
  .ofBlocks
    { PssImpl.playback correlations psrThreshold defaultTrackAfter defaultTrackEvery with
      nId2 := nId2 }
    ⟨(nId2, 0), nId2, -1⟩ (.playback S outcomes exitOnSuccess)

/-- A trigger over such an srsLTE, as constructed. -/
def DownlinkTrigger.playback (S : Type) (correlations : List (ℕ × ℤ)) (psrThreshold : ℤ)
    (exitOnSuccess : Bool) (outcomes : List Bool) :
    DownlinkTrigger ℤ ℤ S (List (ℕ × ℤ)) Unit (ℤ × ℤ) (List Bool) where
  psrThreshold := ensureSafeThreshold psrThreshold
  rows :=
    let row := Row.playback S correlations (ensureSafeThreshold psrThreshold) exitOnSuccess outcomes
    ![row 0, row 1, row 2]
  setting := []

theorem DownlinkTrigger.make_playback (S : Type) (correlations : List (ℕ × ℤ)) (nId1 : ℤ)
    (psrThreshold : ℤ) (exitOnSuccess : Bool) (outcomes : List Bool) :
    make (.playback S correlations nId1) psrThreshold exitOnSuccess
        (fun _ => ⟨true :: outcomes, .norm, .r16, 0⟩) =
      .ok (.playback S correlations psrThreshold exitOnSuccess outcomes) := rfl

theorem DownlinkTrigger.make_failing (S : Type) (correlations : List (ℕ × ℤ)) (nId1 : ℤ)
    (psrThreshold : ℤ) (exitOnSuccess : Bool) (outcomes : List Bool) :
    make (.failing S correlations nId1) psrThreshold exitOnSuccess
        (fun _ => ⟨true :: outcomes, .norm, .r16, 0⟩) =
      .ok (.playback S correlations psrThreshold exitOnSuccess outcomes) := rfl

end LteTrigger
