import LteTrigger.Trigger.Row

/-!
# The half-frames of a row

The half-frames of a row keep their order, also when `mib` is given several in a call, so the
`n`-th half-frame that `mib` consumes or has before it is made from the `n`-th one that `pss`
emitted.

## Main definitions

* `Row.emitted`, `Row.sentToSss`, `Row.takenBySss`, `Row.sentToMib`, `Row.takenByMib`: the
  half-frames of a transition at each point of the row;
* `Reaches`: what a half-frame before `mib` tells about the emission it is made from.

## Main results

* `Row.streams_of_run`: the two buffers of a row are queues;
* `Row.reaches_of_run`: the half-frames before `mib` are made from the emissions, in order;
* `Row.reaches_of_toMib`: the same for those that `mib` has not consumed yet.
-/

namespace LteTrigger

/-- What a half-frame before `mib` tells about the emission it is made from: one of a block that
was not tracking is lost, and one for a cell has the samples that were emitted in tracking
state. -/
structure Reaches [GnuRadio] {S : Type} (e : Emission S × Bool) (frame : Frame S) : Prop where
  lost : e.2 = false → frame.kind = .lost
  candidate : ∀ cellIdTag cpTypeTag, frame.kind = .candidate cellIdTag cpTypeTag →
    e.2 = true ∧ frame.samples = e.1.out

/-- A half-frame that `sss` passed on reaches `mib` from its emission. -/
theorem Reaches.of_carries [GnuRadio] {S : Type} {e : Emission S × Bool} {taken given : Frame S}
    (hcarries : Carries e taken) (hpassed : PassedOn taken given) : Reaches e given where
  lost hlost := hpassed.lost (hcarries.lost.mpr hlost)
  candidate cellIdTag cpTypeTag hkind := by
    obtain ⟨hkept, hsamples⟩ := hpassed.candidate hcarries.noCellId cellIdTag cpTypeTag hkind
    rw [ne_eq, hcarries.lost, Bool.not_eq_false] at hkept
    exact ⟨hkept, hsamples.trans hcarries.samples⟩

namespace Row

variable {F S Det Tab Sync Dec : Type}

section Streams

variable (t : Transition F S Det Tab Sync Dec)

/-- The half-frames that `pss` emitted in an event, each with whether the block was tracking
afterwards. -/
def emitted : List (Emission S × Bool) :=
  match t.output with
  | .pss work _ => (work.bind Work.emission).toList.map fun e =>
      (e, t.post.pss.tracking.isTracking)
  | _ => []

/-- The half-frames that `pss` put on its output stream. -/
def sentToSss : List (Frame S) :=
  match t.output with
  | .pss _ frame => frame.toList
  | _ => []

/-- The half-frames that `sss` took. -/
def takenBySss : List (Frame S) :=
  match t.output with
  | .sss taken _ => [taken]
  | _ => []

/-- The half-frames that `sss` put on its output stream. -/
def sentToMib : List (Frame S) :=
  match t.output with
  | .sss _ given => [given]
  | _ => []

/-- The half-frames that `mib` consumed. -/
def takenByMib : List (Frame S) :=
  match t.output with
  | .mib call work => call.taken work
  | _ => []

end Streams

variable [GnuRadio] [FloatOps F] {lib : ChainLib F S Det Tab Sync Dec}
  {r r' r₀ : Row F S Det Tab Sync Dec} {e : RowEvent F S} {o : RowWork S}

/-- The streams in one event: what each of the first two blocks takes is related to what it
gives, and the two buffers are queues. -/
structure Streams (t : Transition F S Det Tab Sync Dec) : Prop where
  carries : List.Forall₂ Carries (emitted t) (sentToSss t)
  passedOn : List.Forall₂ PassedOn (takenBySss t) (sentToMib t)
  toSss : t.pre.toSss ++ sentToSss t = takenBySss t ++ t.post.toSss
  toMib : t.pre.toMib ++ sentToMib t = takenByMib t ++ t.post.toMib

/-- The streams in an event of a row whose `pss` is coherent. -/
theorem step_streams (h : r.pss.Coherent) (hstep : step lib r e = .ok (r', o)) :
    Streams ⟨r, e, o, r'⟩ := by
  rcases step_cases hstep with
    ⟨event, tags, foreign, work, -, hpss, rfl, hr⟩ | ⟨stale, frame, toSss, -, hqueue, rfl, hr⟩ |
    ⟨more, now, fresh, first, rest, w, -, hqueue, -, hmore, hmib, rfl, hr⟩
  · -- the relation is that of a chain
    have hcarries := @Chain.carries_work F S Det Tab Sync Dec _ lib _ _ _ _ _ _ h hpss foreign
    exact
      { carries := hcarries
        passedOn := .nil
        toSss := (congrArg (fun r => r.toSss) hr).symm
        toMib := (List.append_nil _).trans (congrArg (fun r => r.toMib) hr).symm }
  · exact
      { carries := .nil
        passedOn := .cons (passedOn_work lib.sss r.sss frame stale) .nil
        toSss := by
          rw [hr, hqueue]
          exact List.append_nil _
        toMib := (congrArg (fun r => r.toMib) hr).symm }
  · exact
      { carries := .nil
        passedOn := .nil
        toSss := (List.append_nil _).trans (congrArg (fun r => r.toSss) hr).symm
        toMib := by
          rw [hr]
          exact (List.append_nil _).trans (toMib_eq_taken_append hqueue hmore hmib) }

/-- Every event keeps `pss` coherent. -/
theorem step_coherent (h : r.pss.Coherent) (hstep : step lib r e = .ok (r', o)) :
    r'.pss.Coherent := by
  rcases step_cases hstep with
    ⟨event, tags, foreign, work, -, hpss, -, -⟩ | ⟨stale, frame, toSss, -, -, -, hr⟩ |
    ⟨more, now, fresh, first, rest, w, -, -, -, -, -, -, hr⟩
  · exact PssImpl.step_coherent h hpss
  · rw [hr]
    exact h
  · rw [hr]
    exact h

section Runs

variable {tr : List (Transition F S Det Tab Sync Dec)}

/-- The states of a row before the first event: nothing is between the blocks. -/
structure Fresh (r : Row F S Det Tab Sync Dec) : Prop where
  coherent : r.pss.Coherent
  toSss : r.toSss = []
  toMib : r.toMib = []

/-- The two buffers hold what was put into them and not taken out yet, in order. -/
theorem streams_of_run (h : Fresh r₀) (hrun : Machine.Run (step lib) r₀ tr r) :
    List.Forall₂ Carries (tr.flatMap emitted) (tr.flatMap sentToSss) ∧
    tr.flatMap sentToSss = tr.flatMap takenBySss ++ r.toSss ∧
    List.Forall₂ PassedOn (tr.flatMap takenBySss) (tr.flatMap sentToMib) ∧
    tr.flatMap sentToMib = tr.flatMap takenByMib ++ r.toMib := by
  let I (r : Row F S Det Tab Sync Dec) := r.pss.Coherent
  have hinit : I r₀ := h.coherent
  have hinv : ∀ r e r' o, I r → step lib r e = .ok (r', o) → I r' :=
    fun _ _ _ _ => step_coherent
  exact ⟨hrun.trace_forall₂ hinit hinv fun _ hc ht => (step_streams hc ht).carries,
    hrun.fifo (Q := fun r => r.toSss) hinit hinv (fun _ hc ht => (step_streams hc ht).toSss)
      h.toSss,
    hrun.trace_forall₂ hinit hinv fun _ hc ht => (step_streams hc ht).passedOn,
    hrun.fifo (Q := fun r => r.toMib) hinit hinv (fun _ hc ht => (step_streams hc ht).toMib)
      h.toMib⟩

/-- The `n`-th half-frame that `sss` puts on its output stream is made from the `n`-th one that
`pss` emitted. -/
theorem reaches_of_run (h : Fresh r₀) (hrun : Machine.Run (step lib) r₀ tr r) {n : ℕ}
    {frame : Frame S} (hframe : (tr.flatMap sentToMib)[n]? = some frame) :
    ∃ e, (tr.flatMap emitted)[n]? = some e ∧ Reaches e frame := by
  obtain ⟨hcarries, hqueue, hpassed, -⟩ := streams_of_run h hrun
  -- from `sss` back to `pss`
  obtain ⟨taken, htaken, hpass⟩ := Machine.forall₂_getElem? hpassed hframe
  obtain ⟨e, he, hcarry⟩ := Machine.forall₂_getElem? hcarries (n := n) (b := taken) (by
    rw [hqueue, List.getElem?_append_left (List.getElem?_eq_some_iff.mp htaken).1, htaken])
  exact ⟨e, he, .of_carries hcarry hpass⟩

/-- When nothing is before `sss`, it has put one half-frame on its output stream for each that `pss`
has emitted. -/
theorem length_sentToMib (h : Fresh r₀) (hrun : Machine.Run (step lib) r₀ tr r)
    (htoSss : r.toSss = []) : (tr.flatMap sentToMib).length = (tr.flatMap emitted).length := by
  obtain ⟨hcarries, hqueue, hpassed, -⟩ := streams_of_run h hrun
  rw [hcarries.length_eq, hqueue, htoSss, List.append_nil, hpassed.length_eq]

/-- The half-frames before `mib` are made from the emissions that come after those it has
consumed. -/
theorem reaches_of_toMib (h : Fresh r₀) (hrun : Machine.Run (step lib) r₀ tr r) {n : ℕ}
    {frame : Frame S} (hframe : r.toMib[n]? = some frame) :
    ∃ e, (tr.flatMap emitted)[(tr.flatMap takenByMib).length + n]? = some e ∧
      Reaches e frame := by
  refine reaches_of_run h hrun ?_
  rw [(streams_of_run h hrun).2.2.2, List.getElem?_append_right (Nat.le_add_right _ _),
    Nat.add_sub_cancel_left, hframe]

end Runs

end Row

end LteTrigger
