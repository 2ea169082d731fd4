import LteTrigger.Machine.Run

/-!
# Parts of a machine

A machine made of several parts does, seen from one of them, steps of that part and steps in
which the part does nothing. `IsPart` says so for a part with a step function of its own, a
view of the whole state and, for every transition of the whole, the transition of the part in
it, if there is one. A run of the whole is then a run of the part.

## Main results

* `IsPart.run`: what the transitions of a run are to the part is a run of the part;
* `IsPart.comp`: a part of a part is a part.
-/

namespace Machine

variable {σ τ υ ι ι' ι'' ο ο' ο'' ε ε' ε'' : Type*}

/-- Every step of the whole is a step of the part, or leaves the part as it is. -/
def IsPart (step : σ → ι → Except ε (σ × ο)) (step' : τ → ι' → Except ε' (τ × ο'))
    (view : σ → τ) (part : Transition σ ι ο → Option (Transition τ ι' ο')) : Prop :=
  ∀ t : Transition σ ι ο, step t.pre t.input = .ok (t.post, t.output) →
    (part t = none ∧ view t.post = view t.pre) ∨
    ∃ u, part t = some u ∧ u.pre = view t.pre ∧ u.post = view t.post ∧
      step' u.pre u.input = .ok (u.post, u.output)

namespace IsPart

variable {step : σ → ι → Except ε (σ × ο)} {step' : τ → ι' → Except ε' (τ × ο')}
  {step'' : υ → ι'' → Except ε'' (υ × ο'')} {view : σ → τ} {view' : τ → υ}
  {part : Transition σ ι ο → Option (Transition τ ι' ο')}
  {part' : Transition τ ι' ο' → Option (Transition υ ι'' ο'')} {s₀ s : σ}
  {tr : List (Transition σ ι ο)} {t : Transition σ ι ο} {u : Transition τ ι' ο'}

/-- A run of the whole is a run of the part. -/
theorem run (h : IsPart step step' view part) (hrun : Run step s₀ tr s) :
    Run step' (view s₀) (tr.filterMap part) (view s) := by
  induction hrun with
  | nil => exact .nil
  | @snoc tr s s' i o _ hs ih =>
    rw [List.filterMap_append]
    rcases h ⟨s, i, o, s'⟩ hs with
      ⟨hnone, hview⟩ | ⟨⟨pre, i', o', post⟩, hsome, hpre, hpost, hstep⟩
    · -- the part does nothing
      rw [List.filterMap_cons_none hnone, List.filterMap_nil, List.append_nil]
      exact hview ▸ ih
    · obtain rfl : pre = view s := hpre
      obtain rfl : post = view s' := hpost
      rw [List.filterMap_cons_some hsome, List.filterMap_nil]
      exact ih.snoc hstep

/-- The transition of a part in one of the whole starts and ends where the part does. -/
theorem of_eq_some (h : IsPart step step' view part)
    (hstep : step t.pre t.input = .ok (t.post, t.output)) (hu : part t = some u) :
    u.pre = view t.pre ∧ u.post = view t.post ∧
      step' u.pre u.input = .ok (u.post, u.output) := by
  rcases h t hstep with ⟨hnone, -⟩ | ⟨v, hsome, hv⟩
  · rw [hu] at hnone
    cases hnone
  · obtain rfl : u = v := Option.some.inj (hu.symm.trans hsome)
    exact hv

/-- A part of a part is a part. -/
theorem comp (h' : IsPart step' step'' view' part') (h : IsPart step step' view part) :
    IsPart step step'' (fun s => view' (view s)) fun t => (part t).bind part' := by
  intro t hstep
  rcases h t hstep with ⟨hnone, hview⟩ | ⟨u, hsome, hpre, hpost, hs⟩
  · exact .inl ⟨by simp [hnone], congrArg view' hview⟩
  · rcases h' u hs with ⟨hnone, hview⟩ | ⟨v, hsome', hpre', hpost', hs'⟩
    · exact .inl ⟨by simp [hsome, hnone], by simpa only [hpre, hpost] using hview⟩
    · exact .inr ⟨v, by simp [hsome, hsome'], hpre'.trans (congrArg view' hpre),
        hpost'.trans (congrArg view' hpost), hs'⟩

end IsPart

end Machine
