import Mathlib.Algebra.Order.Ring.Nat
import Mathlib.Data.List.Forall2
import Mathlib.Data.List.Induction
import Mathlib.Tactic.Common

/-!
# Runs of a fallible machine

A machine is a step function `step : σ → ι → Except ε (σ × ο)`. On an input it either
moves to a next state with an output, or throws. `Run step s₀ tr s` is a finite run from
`s₀` to `s`. Its trace `tr` lists the transitions in the order they were taken. A step
that throws ends the run before it, so it contributes no transition.

`exec` computes the run over given inputs.
`AtEach Q tr` says that `Q` holds of every transition of a trace, given those before it.

## Main results

* `Run.invariant` and `Run.invariant_trace`: an invariant kept by every step holds of the
  last state and of both ends of every transition;
* `Run.split` and `Run.at_transition`: a run is cut at any point of its trace;
* `Run.lockstep`: a step-by-step simulation carries a run of one machine to a run of the
  other over the same inputs;
* `Run.fifo`: a queue that every step takes from the front and adds to the back holds what
  was sent and not yet received, in order;
* `Run.foldl`: a part of the state that every step folds its log into is the fold of the
  whole log;
* `Run.trace_forall₂`: item by item, what the steps of a run take is related to what they
  give when that holds for every step;
* `Run.potential`: what the steps of a run cost is paid for by a potential;
* `Run.atEach_iff`: two properties hold of all transitions of the same runs when the first
  transition that breaks the one breaks the other.
-/

namespace Machine

variable {σ τ ι ο ο' ε : Type*}

/-- One step of a run: the state before, the input, the output and the state after. -/
structure Transition (σ ι ο : Type*) where
  /-- The state before the step. -/
  pre : σ
  /-- The input of the step. -/
  input : ι
  /-- The output of the step. -/
  output : ο
  /-- The state after the step. -/
  post : σ

/-- `Run step s₀ tr s`: the transitions `tr` lead from `s₀` to `s`, each of them a
successful step. -/
inductive Run (step : σ → ι → Except ε (σ × ο)) (s₀ : σ) :
    List (Transition σ ι ο) → σ → Prop
  | nil : Run step s₀ [] s₀
  | snoc {tr : List (Transition σ ι ο)} {s s' : σ} {i : ι} {o : ο} :
      Run step s₀ tr s → step s i = .ok (s', o) → Run step s₀ (tr ++ [⟨s, i, o, s'⟩]) s'

/-- The run over a list of inputs, unless a step throws. -/
def exec (step : σ → ι → Except ε (σ × ο)) (s : σ) :
    List ι → Option (List (Transition σ ι ο) × σ)
  | [] => some ([], s)
  | i :: is =>
    match step s i with
    | .error _ => none
    | .ok (s', o) => (exec step s' is).map fun (tr, s'') => (⟨s, i, o, s'⟩ :: tr, s'')

section Exec

variable {step : σ → ι → Except ε (σ × ο)} {s s' : σ} {tr : List (Transition σ ι ο)}
  {is : List ι}

/-- A step that never throws is executed on any inputs. -/
theorem exists_exec (htotal : ∀ s i, ∃ s' o, step s i = .ok (s', o)) (s : σ) (is : List ι) :
    ∃ tr s', exec step s is = some (tr, s') := by
  induction is generalizing s with
  | nil => exact ⟨[], s, rfl⟩
  | cons i is ih =>
    obtain ⟨s₁, o, hstep⟩ := htotal s i
    obtain ⟨tr, s', hexec⟩ := ih s₁
    exact ⟨⟨s, i, o, s₁⟩ :: tr, s', by simp [exec, hstep, hexec]⟩

/-- The inputs of what is executed are those it was given. -/
theorem inputs_of_exec (h : exec step s is = some (tr, s')) : tr.map Transition.input = is := by
  induction is generalizing s tr with
  | nil =>
    obtain ⟨rfl, -⟩ := Prod.mk.inj (Option.some.inj h)
    rfl
  | cons i is ih =>
    rw [exec] at h
    split at h
    · cases h
    · obtain ⟨⟨tr', s₁⟩, hexec, heq⟩ := Option.map_eq_some_iff.mp h
      obtain ⟨rfl, rfl⟩ := Prod.mk.inj heq
      rw [List.map_cons, ih hexec]

end Exec

namespace Run

variable {step : σ → ι → Except ε (σ × ο)} {s₀ s s₁ : σ}
  {tr tr₁ tr₂ : List (Transition σ ι ο)} {t : Transition σ ι ο}

/-- The last transition of a run is a step from the state the rest of the run reaches. -/
theorem last (h : Run step s₀ (tr ++ [t]) s) :
    Run step s₀ tr t.pre ∧ step t.pre t.input = .ok (t.post, t.output) ∧ t.post = s := by
  generalize htr : tr ++ [t] = tr' at h
  cases h with
  | nil => simp at htr
  | snoc hrun hstep =>
    obtain ⟨rfl, ht⟩ := List.append_inj' htr rfl
    obtain rfl := List.singleton_inj.mp ht
    exact ⟨hrun, hstep, rfl⟩

/-- A run may be extended at its start. -/
theorem cons {i : ι} {o : ο} (hstep : step s₀ i = .ok (s₁, o)) (h : Run step s₁ tr s) :
    Run step s₀ (⟨s₀, i, o, s₁⟩ :: tr) s := by
  induction h with
  | nil => exact .snoc .nil hstep
  | snoc _ hs ih => exact .snoc ih hs

/-- What is executed is a run. -/
theorem of_exec {is : List ι} (h : exec step s₀ is = some (tr, s)) : Run step s₀ tr s := by
  induction is generalizing s₀ tr with
  | nil =>
    obtain ⟨rfl, rfl⟩ := Prod.mk.inj (Option.some.inj h)
    exact .nil
  | cons i is ih =>
    rw [exec] at h
    split at h
    · cases h
    · rename_i s₁ o hstep
      obtain ⟨⟨tr', s'⟩, hexec, heq⟩ := Option.map_eq_some_iff.mp h
      obtain ⟨rfl, rfl⟩ := Prod.mk.inj heq
      exact cons hstep (ih hexec)

/-- A run goes on from where another one has ended. -/
theorem append (h₁ : Run step s₀ tr₁ s₁) (h₂ : Run step s₁ tr₂ s) :
    Run step s₀ (tr₁ ++ tr₂) s := by
  induction h₂ with
  | nil => rwa [List.append_nil]
  | snoc _ hs ih =>
    rw [← List.append_assoc]
    exact ih.snoc hs

/-- A run is cut at any point of its trace. -/
theorem split (h : Run step s₀ (tr₁ ++ tr₂) s) :
    ∃ s₁, Run step s₀ tr₁ s₁ ∧ Run step s₁ tr₂ s := by
  induction tr₂ using List.reverseRecOn generalizing s with
  | nil => exact ⟨s, by simpa using h, .nil⟩
  | append_singleton tr₂ t ih =>
    -- take the last step off and cut what is left
    rw [← List.append_assoc] at h
    obtain ⟨hinit, hstep, rfl⟩ := last h
    obtain ⟨s₁, h₁, h₂⟩ := ih hinit
    exact ⟨s₁, h₁, .snoc h₂ hstep⟩

/-- Around a transition of its trace a run is a run to the state before it, a step, and a
run from the state after it. -/
theorem at_transition (h : Run step s₀ (tr₁ ++ t :: tr₂) s) :
    Run step s₀ tr₁ t.pre ∧ step t.pre t.input = .ok (t.post, t.output) ∧
      Run step t.post tr₂ s := by
  rw [List.append_cons] at h
  obtain ⟨s₁, h₁, h₂⟩ := split h
  obtain ⟨hinit, hstep, rfl⟩ := last h₁
  exact ⟨hinit, hstep, h₂⟩

/-- A transition of the trace is a step between two runs, up to it and past it. -/
theorem cut_at_mem (h : Run step s₀ tr s) (ht : t ∈ tr) :
    step t.pre t.input = .ok (t.post, t.output) ∧ ∃ tr₁ tr₂, tr = tr₁ ++ [t] ++ tr₂ ∧
      Run step s₀ tr₁ t.pre ∧ Run step s₀ (tr₁ ++ [t]) t.post := by
  obtain ⟨tr₁, tr₂, rfl⟩ := List.mem_iff_append.mp ht
  obtain ⟨hpre, hstep, -⟩ := at_transition h
  exact ⟨hstep, tr₁, tr₂, List.append_cons _ _ _, hpre, .snoc hpre hstep⟩

/-- A property of the initial state that every successful step keeps holds where the run
ends. -/
theorem invariant {I : σ → Prop} (hinit : I s₀)
    (hstep : ∀ s i s' o, I s → step s i = .ok (s', o) → I s')
    (h : Run step s₀ tr s) : I s := by
  induction h with
  | nil => exact hinit
  | snoc _ hs ih => exact hstep _ _ _ _ ih hs

/-- An invariant holds at both ends of every transition of the trace. -/
theorem invariant_trace {I : σ → Prop} (hinit : I s₀)
    (hstep : ∀ s i s' o, I s → step s i = .ok (s', o) → I s')
    (h : Run step s₀ tr s) (ht : t ∈ tr) :
    I t.pre ∧ step t.pre t.input = .ok (t.post, t.output) ∧ I t.post := by
  obtain ⟨hs, tr₁, tr₂, -, hpre, hpost⟩ := cut_at_mem h ht
  exact ⟨invariant hinit hstep hpre, hs, invariant hinit hstep hpost⟩

/-- Two machines in lockstep. When related states step on the same input to related states,
with transitions related by `Q`, a run of the first machine is matched transition by
transition by a run of the second. -/
theorem lockstep {step' : τ → ι → Except ε (τ × ο')} {R : σ → τ → Prop}
    {Q : Transition σ ι ο → Transition τ ι ο' → Prop} {t₀ : τ}
    (hstep : ∀ s u i s' o, R s u → step s i = .ok (s', o) →
      ∃ u' o', step' u i = .ok (u', o') ∧ R s' u' ∧ Q ⟨s, i, o, s'⟩ ⟨u, i, o', u'⟩)
    (hinit : R s₀ t₀) (h : Run step s₀ tr s) :
    ∃ tr' u, Run step' t₀ tr' u ∧ R s u ∧ List.Forall₂ Q tr tr' := by
  induction h with
  | nil => exact ⟨[], t₀, .nil, hinit, .nil⟩
  | snoc _ hs ih =>
    obtain ⟨tr', u, hrun, hR, hQ⟩ := ih
    obtain ⟨u', o', hs', hR', hq⟩ := hstep _ _ _ _ _ hR hs
    exact ⟨_, u', .snoc hrun hs', hR', List.rel_append hQ (.cons hq .nil)⟩

/-- When the steps of a machine are those steps of another one that have a property, its runs are
the runs of the other one in which all transitions have it. -/
theorem iff_of_step_iff {ε' : Type*} {step' : σ → ι → Except ε' (σ × ο)}
    {P : Transition σ ι ο → Prop}
    (hstep : ∀ t : Transition σ ι ο, step t.pre t.input = .ok (t.post, t.output) ↔
      step' t.pre t.input = .ok (t.post, t.output) ∧ P t) :
    Run step s₀ tr s ↔ Run step' s₀ tr s ∧ ∀ t ∈ tr, P t := by
  constructor
  · intro h
    induction h with
    | nil => exact ⟨.nil, by simp⟩
    | @snoc tr s s' i o _ hs ih =>
      obtain ⟨hs', hP⟩ := (hstep ⟨s, i, o, s'⟩).mp hs
      exact ⟨ih.1.snoc hs', List.forall_mem_append.mpr ⟨ih.2, List.forall_mem_singleton.mpr hP⟩⟩
  · rintro ⟨h, hP⟩
    induction h with
    | nil => exact .nil
    | @snoc tr s s' i o _ hs ih =>
      rw [List.forall_mem_append, List.forall_mem_singleton] at hP
      exact (ih hP.1).snoc ((hstep ⟨s, i, o, s'⟩).mpr ⟨hs, hP.2⟩)

/-- A queue. When every step from a state with the invariant sends to the back of the queue
and receives from its front, all that was received and what is in the queue make up all that
was sent, in order. -/
theorem fifo {α : Type*} {I : σ → Prop} {Q : σ → List α}
    {sent received : Transition σ ι ο → List α}
    (hinit : I s₀) (hinv : ∀ s i s' o, I s → step s i = .ok (s', o) → I s')
    (hstep : ∀ t : Transition σ ι ο, I t.pre → step t.pre t.input = .ok (t.post, t.output) →
      Q t.pre ++ sent t = received t ++ Q t.post)
    (hempty : Q s₀ = []) (h : Run step s₀ tr s) :
    tr.flatMap sent = tr.flatMap received ++ Q s := by
  induction h with
  | nil => simp [hempty]
  | @snoc tr s s' i o hrun hs ih =>
    -- the queue before the step is what was sent and not received
    have ht := hstep ⟨s, i, o, s'⟩ (invariant hinit hinv hrun) hs
    simp only [List.flatMap_append, List.flatMap_singleton, List.append_assoc] at ht ⊢
    rw [ih, List.append_assoc, ht]

/-- A part of the state into which every step from a state with the invariant folds what it
logs is the fold of all that was logged. -/
theorem foldl {α β : Type*} {I : σ → Prop} {f : σ → β} {op : β → α → β}
    {log : Transition σ ι ο → List α}
    (hinit : I s₀) (hinv : ∀ s i s' o, I s → step s i = .ok (s', o) → I s')
    (hstep : ∀ t : Transition σ ι ο, I t.pre → step t.pre t.input = .ok (t.post, t.output) →
      f t.post = (log t).foldl op (f t.pre))
    (h : Run step s₀ tr s) : f s = (tr.flatMap log).foldl op (f s₀) := by
  induction h with
  | nil => rfl
  | @snoc tr s s' i o hrun hs ih =>
    rw [hstep ⟨s, i, o, s'⟩ (invariant hinit hinv hrun) hs, ih, List.flatMap_append,
      List.flatMap_singleton, List.foldl_append]

/-- What the transitions of a run take and what they give are related item by item when this
holds for every step from a state with the invariant. -/
theorem trace_forall₂ {α β : Type*} {R : α → β → Prop} {I : σ → Prop}
    {taken : Transition σ ι ο → List α} {given : Transition σ ι ο → List β}
    (hinit : I s₀) (hinv : ∀ s i s' o, I s → step s i = .ok (s', o) → I s')
    (hstep : ∀ t : Transition σ ι ο, I t.pre → step t.pre t.input = .ok (t.post, t.output) →
      List.Forall₂ R (taken t) (given t))
    (h : Run step s₀ tr s) : List.Forall₂ R (tr.flatMap taken) (tr.flatMap given) := by
  induction h with
  | nil => exact .nil
  | @snoc tr s s' i o hrun hs ih =>
    rw [List.flatMap_append, List.flatMap_append, List.flatMap_singleton,
      List.flatMap_singleton]
    exact List.rel_append ih (hstep ⟨s, i, o, s'⟩ (invariant hinit hinv hrun) hs)

/-- A potential. When every step of a run costs no more than it gains and the potential falls by,
the run costs no more than all it gains and the potential it starts with. -/
theorem potential (Φ : σ → ℕ) (cost gain : Transition σ ι ο → ℕ) (h : Run step s₀ tr s)
    (hstep : ∀ t ∈ tr, step t.pre t.input = .ok (t.post, t.output) →
      cost t + Φ t.post ≤ Φ t.pre + gain t) :
    (tr.map cost).sum + Φ s ≤ Φ s₀ + (tr.map gain).sum := by
  induction h with
  | nil => simp
  | @snoc tr s s' i o _ hs ih =>
    rw [List.forall_mem_append, List.forall_mem_singleton] at hstep
    have hbefore := ih hstep.1
    have hlast : cost _ + Φ s' ≤ Φ s + gain _ := hstep.2 hs
    rw [List.map_append, List.map_append, List.sum_append, List.sum_append, List.map_singleton,
      List.map_singleton, List.sum_singleton, List.sum_singleton]
    omega

end Run

/-- `Q` holds of every transition of a trace, given the transitions before it. -/
def AtEach (Q : List (Transition σ ι ο) → Transition σ ι ο → Prop)
    (tr : List (Transition σ ι ο)) : Prop :=
  ∀ tr₁ t tr₂, tr = tr₁ ++ t :: tr₂ → Q tr₁ t

section AtEach

variable {Q : List (Transition σ ι ο) → Transition σ ι ο → Prop}
  {tr : List (Transition σ ι ο)} {t : Transition σ ι ο}

theorem atEach_nil : AtEach Q [] := by
  intro tr₁ t tr₂ h
  simp at h

/-- The last transition of a trace comes after all the others. -/
theorem atEach_concat : AtEach Q (tr ++ [t]) ↔ AtEach Q tr ∧ Q tr t := by
  constructor
  · intro h
    exact ⟨fun tr₁ u tr₂ htr => h tr₁ u (tr₂ ++ [t]) (by simp [htr]), h tr t [] rfl⟩
  · rintro ⟨hbefore, hlast⟩ tr₁ u tr₂ htr
    -- the transition is the last one or one before
    rcases List.eq_nil_or_concat tr₂ with rfl | ⟨tr₂, v, rfl⟩
    · obtain ⟨rfl, hu⟩ := List.append_inj' htr rfl
      obtain rfl := List.singleton_inj.mp hu
      exact hlast
    · rw [List.concat_eq_append, ← List.cons_append, ← List.append_assoc] at htr
      exact hbefore tr₁ u tr₂ (List.append_inj' htr rfl).1

theorem AtEach.snoc (h : AtEach Q tr) (ht : Q tr t) : AtEach Q (tr ++ [t]) :=
  atEach_concat.mpr ⟨h, ht⟩

/-- A property of all that a trace logs is one of what each transition logs. -/
theorem forall_mem_flatMap_iff_atEach {α : Type*} {log : Transition σ ι ο → List α}
    {P : α → Prop} :
    (∀ a ∈ tr.flatMap log, P a) ↔ AtEach (fun _ t => ∀ a ∈ log t, P a) tr := by
  induction tr using List.reverseRecOn with
  | nil => exact iff_of_true (by simp) atEach_nil
  | append_singleton tr t ih =>
    rw [List.flatMap_append, List.flatMap_singleton, List.forall_mem_append, ih, atEach_concat]

/-- An item of all that a trace logs is logged by a transition. -/
theorem exists_cut_of_getElem? {α : Type*} {log : Transition σ ι ο → List α} {n : ℕ} {a : α}
    (h : (tr.flatMap log)[n]? = some a) :
    ∃ tr₁ t tr₂ k, tr = tr₁ ++ t :: tr₂ ∧ (tr₁.flatMap log).length + k = n ∧
      (log t)[k]? = some a := by
  induction tr generalizing n with
  | nil => simp at h
  | cons t tr ih =>
    rw [List.flatMap_cons, List.getElem?_append] at h
    split at h
    · exact ⟨[], t, tr, n, rfl, Nat.zero_add n, h⟩
    · -- the item is logged later
      rename_i hn
      obtain ⟨tr₁, u, tr₂, k, rfl, hk, hu⟩ := ih h
      refine ⟨t :: tr₁, u, tr₂, k, rfl, ?_, hu⟩
      rw [List.flatMap_cons, List.length_append]
      omega

namespace Run

variable {step : σ → ι → Except ε (σ × ο)} {s₀ s : σ}
  {Q' : List (Transition σ ι ο) → Transition σ ι ο → Prop}

/-- A property of the trace so far and the state it leads to holds where the run ends if every
transition keeps it. -/
theorem invariant_history {I : List (Transition σ ι ο) → σ → Prop} (hinit : I [] s₀)
    (hstep : ∀ tr t, Run step s₀ tr t.pre → step t.pre t.input = .ok (t.post, t.output) →
      I tr t.pre → I (tr ++ [t]) t.post)
    (h : Run step s₀ tr s) : I tr s := by
  induction h with
  | nil => exact hinit
  -- the transition that is added is the last one of the trace
  | snoc hrun hs ih => exact hstep _ ⟨_, _, _, _⟩ hrun hs ih

/-- Two properties hold of the same transitions of a run, up to the first one of which the first
property fails, when that is so for every transition that follows transitions with the first
property. -/
theorem atEach_iff
    (hstep : ∀ tr t, Run step s₀ tr t.pre → step t.pre t.input = .ok (t.post, t.output) →
      AtEach Q tr → (Q tr t ↔ Q' tr t))
    (h : Run step s₀ tr s) : AtEach Q tr ↔ AtEach Q' tr := by
  refine h.invariant_history (I := fun tr _ => AtEach Q tr ↔ AtEach Q' tr)
    (iff_of_true atEach_nil atEach_nil) fun tr t hpre hs ih => ?_
  rw [atEach_concat, atEach_concat, ← ih]
  exact and_congr_right (hstep tr t hpre hs)

end Run

end AtEach

/-- A list has no item with a property, or it has a last one. -/
theorem forall_not_or_exists_last {α : Type*} (P : α → Prop) (l : List α) :
    (∀ a ∈ l, ¬ P a) ∨ ∃ l₁ a l₂, l = l₁ ++ a :: l₂ ∧ P a ∧ ∀ b ∈ l₂, ¬ P b := by
  induction l using List.reverseRecOn with
  | nil => exact .inl (by simp)
  | append_singleton l a ih =>
    by_cases ha : P a
    · exact .inr ⟨l, a, [], rfl, ha, by simp⟩
    · have hconcat {l : List α} (h : ∀ b ∈ l, ¬ P b) : ∀ b ∈ l ++ [a], ¬ P b :=
        List.forall_mem_append.mpr ⟨h, by simpa using ha⟩
      rcases ih with hnone | ⟨l₁, b, l₂, rfl, hb, hlast⟩
      · exact .inl (hconcat hnone)
      · exact .inr ⟨l₁, b, l₂ ++ [a], by simp, hb, hconcat hlast⟩

/-- Counting by a sum. -/
theorem sum_map_ite {α : Type*} (p : α → Prop) [DecidablePred p] (l : List α) :
    (l.map fun a => if p a then 1 else 0).sum = (l.filter p).length := by
  induction l with
  | nil => rfl
  | cons a l ih =>
    rw [List.map_cons, List.sum_cons, ih, List.filter_cons]
    by_cases ha : p a
    · simp [ha, Nat.add_comm]
    · simp [ha]

/-- Items at the same place of two lists related item by item are related. -/
theorem forall₂_getElem? {α β : Type*} {R : α → β → Prop} {l₁ : List α} {l₂ : List β}
    (h : List.Forall₂ R l₁ l₂) {n : ℕ} {b : β} (hb : l₂[n]? = some b) :
    ∃ a, l₁[n]? = some a ∧ R a b := by
  induction h generalizing n with
  | nil => simp at hb
  | @cons a b' l₁ l₂ hR _ ih =>
    cases n with
    | zero =>
      obtain rfl : b' = b := by simpa using hb
      exact ⟨a, by simp, hR⟩
    | succ n => simpa using ih (by simpa using hb)

end Machine
