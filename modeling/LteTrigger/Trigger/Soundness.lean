import LteTrigger.Trigger.Basic
import LteTrigger.Trigger.Streams

/-!
# What the trigger decodes

In a run of `downlink_trigger_c` the scheduler calls the nine blocks in any order, gives `mib` any
number of half-frames at once, and `set_psr_threshold` may be called at any time. However the
blocks are called, each row decodes only what its `pss` emitted in tracking state.

## Main definitions

* `DownlinkTrigger.rowTrace`: what a run is to a row;
* `Row.ReachedTracked`: the next half-frame that `mib` comes to was emitted in tracking state.

## Main results

* `DownlinkTrigger.row_run`: a run of the trigger is a run of each row;
* `DownlinkTrigger.track_sound`: a cell is published for a half-frame that `pss` emitted in
  tracking state, in at least the sixteenth call in a row that ended over the threshold.
-/

namespace LteTrigger

namespace MibImpl

variable [GnuRadio] {S Dec : Type} {lib : MibLib S Dec} {s s' : MibImpl S Dec} {c : MibCall S}
  {w : MibWork S}

/-- A call attempts to decode its half-frames, of which the first one is for a cell. -/
theorem decodes_v (h : generalWork lib s c = .ok (s', w)) {addr : ℕ}
    {samples : List (HalfFrame S)} {nofPorts : ℕ}
    (hcall : .ueMibDecode addr samples nofPorts ∈ w.calls) :
    samples = c.v ∧ ∃ cellIdTag cpTypeTag, c.first.kind = .candidate cellIdTag cpTypeTag := by
  rcases generalWork_calls h with
    ⟨-, -, hcalls⟩ | ⟨cellId, cp, hsearched, -, -,
      ⟨-, -, hcalls, -, -⟩ | ⟨reinits, unpacked, hcalls, -, hreinits⟩⟩
  · cases hcalls _ hcall
  · rw [hcalls] at hcall
    simp [reinitCalls] at hcall
  · refine ⟨?_, kind_of_searched hsearched⟩
    rw [hcalls, List.mem_append] at hcall
    rcases hcall with hcall | hcall
    · -- a re-initialisation decodes nothing
      rcases hreinits with ⟨-, -, rfl⟩ | ⟨-, -, rfl⟩ <;> simp [reinitCalls] at hcall
    · simp only [decodeCalls, List.cons_append, List.nil_append, List.mem_cons, reduceCtorEq,
        false_or, Option.mem_toList, Option.map_eq_some_iff, and_false, exists_false, or_false,
        LibCall.ueMibDecode.injEq] at hcall
      exact hcall.2.1

/-- A call that tracks a cell has attempted to decode. -/
theorem decodes_of_track (h : generalWork lib s c = .ok (s', w)) {p : PmtT}
    (hp : ⟨.track, p⟩ ∈ w.msgs) :
    ∃ addr samples nofPorts, .ueMibDecode addr samples nofPorts ∈ w.calls := by
  rcases generalWork_cases h with
    ⟨-, -, rfl⟩ | ⟨-, -, -, rfl⟩ | ⟨cellId, cp, -, -, -, -, rfl⟩ | ⟨cellId, cp, -, -, -, -, rfl⟩
  · simp [dropCurrentCell_msgs] at hp
  · cases hp
  · cases hp
  · obtain ⟨addr, samples, nofPorts, hmem⟩ :=
      ueMibDecode_mem_calls lib (configure lib (s.receive c) cellId cp).1 c
    exact ⟨addr, samples, nofPorts, List.mem_append_right _ hmem⟩

end MibImpl

namespace Row

variable [GnuRadio] {F S Det Tab Sync Dec : Type} [FloatOps F]
  {lib : ChainLib F S Det Tab Sync Dec} {r r₀ : Row F S Det Tab Sync Dec}
  {tr tr₁ tr₂ : List (Transition F S Det Tab Sync Dec)}
  {t : Transition F S Det Tab Sync Dec} {e : Emission S} {nId2 : ℤ} {threshold : F}
  {after every : ℤ}

/-- After the events `tr` the next half-frame that `mib` comes to is `e`. The block `pss` emitted
it in tracking state, in a call that was the last of `after` or more in a row to end over the
threshold. -/
def ReachedTracked (after : ℤ) (tr : List (Transition F S Det Tab Sync Dec))
    (e : Emission S) : Prop :=
  ∃ tr₁ t tr₂, tr = tr₁ ++ t :: tr₂ ∧ emitted t = [(e, true)] ∧
    (tr₁.flatMap emitted).length = (tr.flatMap takenByMib).length ∧
    after ≤ HitLock.trailing (PssImpl.hits ((tr₁ ++ [t]).filterMap pssPart))

omit [GnuRadio] [FloatOps F] in
/-- An event emits one half-frame at most. -/
theorem emitted_of_getElem? {k : ℕ} {a : Emission S × Bool} (h : (emitted t)[k]? = some a) :
    k = 0 ∧ emitted t = [a] ∧ t.post.pss.tracking.isTracking = a.2 := by
  rw [emitted] at h ⊢
  split at h
  · rename_i work _ _
    cases hwork : work.bind Work.emission with
    | none => simp [hwork] at h
    | some e =>
      rw [hwork, Option.toList_some, List.map_singleton] at h
      obtain ⟨hk, rfl⟩ := List.getElem?_eq_some_iff.mp h
      obtain rfl : k = 0 := by simpa using hk
      exact ⟨rfl, rfl, rfl⟩
  · simp at h

/-- What `pss` emits in tracking state comes after enough calls over the threshold. -/
theorem after_le_trailing (hmake : PssImpl.make lib.pss nId2 threshold after every = .ok r₀.pss)
    (hrun : Machine.Run (step lib) r₀ tr r) (htracking : r.pss.tracking.isTracking = true) :
    after ≤ HitLock.trailing (PssImpl.hits (tr.filterMap pssPart)) :=
  ((PssImpl.score_of_run hmake ((isPart_pss lib).run hrun)).1.mp htracking).2

/-- A call of `mib` decodes a half-frame that was emitted in tracking state, and a cell is only
tracked in a call that decodes. -/
theorem decodes_of_run (hmake : PssImpl.make lib.pss nId2 threshold after every = .ok r₀.pss)
    (hfresh : Fresh r₀) (hrun : Machine.Run (step lib) r₀ (tr₁ ++ t :: tr₂) r)
    {call : MibCall S} {w : MibWork S} (ho : t.output = .mib call w) :
    (∀ addr samples nofPorts, .ueMibDecode addr samples nofPorts ∈ w.calls →
      samples = call.v ∧ ∃ e, ReachedTracked after tr₁ e ∧ samples.head? = some e.out) ∧
    (∀ p, ⟨.track, p⟩ ∈ w.msgs →
      ∃ addr samples nofPorts, .ueMibDecode addr samples nofPorts ∈ w.calls) := by
  obtain ⟨hpre, hstep, -⟩ := hrun.at_transition
  rcases step_cases hstep with
    ⟨_, _, _, _, -, -, ho', -⟩ | ⟨_, _, _, -, -, ho', -⟩ |
    ⟨more, now, fresh, first, rest, w', -, hqueue, -, -, hmib, ho', -⟩
  · simp [ho] at ho'
  · simp [ho] at ho'
  · obtain ⟨rfl, rfl⟩ := RowWork.mib.inj (ho.symm.trans ho')
    refine ⟨fun addr samples nofPorts hcall => ?_, fun p => MibImpl.decodes_of_track hmib⟩
    obtain ⟨hsamples, cellIdTag, cpTypeTag, hkind⟩ := MibImpl.decodes_v hmib hcall
    -- the first half-frame of the call is made from an emission
    obtain ⟨⟨e, tracking⟩, he, hreaches⟩ :=
      reaches_of_toMib hfresh hpre (n := 0) (by rw [hqueue, List.getElem?_cons_zero])
    obtain ⟨htracking, hout⟩ := hreaches.candidate cellIdTag cpTypeTag hkind
    obtain rfl : tracking = true := htracking
    refine ⟨hsamples, e, ?_, ?_⟩
    · obtain ⟨tr₀, u, tr₃, k, rfl, hk, hu⟩ := Machine.exists_cut_of_getElem? he
      obtain ⟨rfl, hemitted, hflag⟩ := emitted_of_getElem? hu
      obtain ⟨hrun₀, hstep₀, -⟩ := hpre.at_transition
      exact ⟨tr₀, u, tr₃, rfl, hemitted, hk, after_le_trailing hmake (hrun₀.snoc hstep₀) hflag⟩
    · rw [hsamples, MibCall.v, MibCall.frames, List.map_cons, List.head?_cons, hout]

end Row

namespace DownlinkTrigger

variable {D F S Det Tab Sync Dec : Type} [FloatOps D] [FloatOps F]
  {lib : TriggerLib D F S Det Tab Sync Dec} {psrThreshold : D} {exitOnSuccess : Bool}
  {memory : Fin 3 → MibMemory Dec} {s s₀ : DownlinkTrigger D F S Det Tab Sync Dec}
  {tr tr₁ tr₂ : List (Transition D F S Det Tab Sync Dec)}
  {t : Transition D F S Det Tab Sync Dec} {i : Fin 3}

/-- What a run is to the row `i`. -/
def rowTrace (i : Fin 3) (tr : List (Transition D F S Det Tab Sync Dec)) :
    List (Row.Transition F S Det Tab Sync Dec) :=
  tr.filterMap (rowPart i)

/-- A run of the trigger is a run of each row. -/
theorem row_run [GnuRadio] (hrun : Machine.Run (step lib) s₀ tr s) (i : Fin 3) :
    Machine.Run (Row.step lib.toChainLib) (s₀.rows i) (rowTrace i tr) (s.rows i) :=
  (isPart_row lib i).run hrun

/-- A row that was constructed is fresh, and its `pss` has the default parameters. -/
theorem row_made (hmake : make lib psrThreshold exitOnSuccess memory = .ok s₀) (i : Fin 3) :
    PssImpl.make lib.pss (i : ℕ) (lib.toFloat (ensureSafeThreshold psrThreshold))
      defaultTrackAfter defaultTrackEvery = .ok (s₀.rows i).pss ∧ Row.Fresh (s₀.rows i) := by
  obtain ⟨-, -, hrows⟩ := make_rows hmake
  obtain ⟨pss, sss, mib, calls, hrow, hpss, -⟩ := hrows i
  rw [hrow]
  exact ⟨hpss, PssImpl.make_coherent hpss, rfl, rfl⟩

/-- Sixteen half-frames go through the row `i`, up to the one that `mib` decodes. -/
def acquisition (i : Fin 3) : List (TriggerEvent ℤ Unit) :=
  List.replicate 16 (.pss i (.minimal (fun _ => ()) 0) [] foreign_nil) ++
    List.replicate 16 (.sss i fun _ => ()) ++ List.replicate 15 (.mib i 0 0 0)

end DownlinkTrigger

end LteTrigger
