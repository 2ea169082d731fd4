import LteTrigger.Machine.Run
import Mathlib.Data.List.Sort
import Mathlib.Order.Defs.LinearOrder

/-!
# Runs in which steps change places

The inputs of a machine have ranks. When two steps in a row, of which the second is of lower
rank, may change places (`Swaps`), every run can be sorted: there is a run with the same ends in
which the steps of lower rank come first and the steps of one rank stay in order. So the order
in which steps of different ranks are taken does not matter.

## Main results

* `Run.sort`: a run has the same ends as one that is sorted by rank;
* `Run.confluent`: two runs with the same inputs of each rank, in the same order, end in the
  same state, and their steps do the same.
-/

namespace Machine

variable {σ ι ο ε κ α : Type*}

/-- The input and the output of a transition. -/
def Transition.label (t : Transition σ ι ο) : ι × ο := (t.input, t.output)

/-- Two steps in a row may change places when the second one is of lower rank. -/
def Swaps [LT κ] (step : σ → ι → Except ε (σ × ο)) (rank : ι → κ) : Prop :=
  ∀ s i s₁ o j s₂ o', rank j < rank i → step s i = .ok (s₁, o) → step s₁ j = .ok (s₂, o') →
    ∃ s₁', step s j = .ok (s₁', o') ∧ step s₁' i = .ok (s₂, o)

section Sorting

variable [LinearOrder κ] {rank : α → κ} {l l' : List α} {a : α} {k : κ}

/-- What is inserted in front of all that is not of lower rank comes first of its rank. -/
theorem filter_orderedInsert :
    (l.orderedInsert (rank · ≤ rank ·) a).filter (rank · = k) =
      (a :: l).filter (rank · = k) := by
  induction l with
  | nil => rfl
  | cons b l ih =>
    by_cases hab : rank a ≤ rank b
    · rw [List.orderedInsert_cons, if_pos hab]
    · rw [List.orderedInsert_cons, if_neg hab, List.filter_cons, ih]
      -- `b` is of lower rank than `a`, so one of them is not of rank `k`
      by_cases hb : rank b = k
      · have ha : rank a ≠ k := by
          rintro rfl
          exact hab hb.ge
        simp [ha, hb]
      · simp [List.filter_cons, hb]

/-- Sorting by rank keeps the order of the items of one rank. -/
theorem filter_insertionSort (rank : α → κ) (l : List α) (k : κ) :
    (l.insertionSort (rank · ≤ rank ·)).filter (rank · = k) = l.filter (rank · = k) := by
  induction l with
  | nil => rfl
  | cons a l ih =>
    rw [List.insertionSort_cons, filter_orderedInsert, List.filter_cons, ih, List.filter_cons]

theorem pairwise_insertionSort (rank : α → κ) (l : List α) :
    (l.insertionSort (rank · ≤ rank ·)).Pairwise (rank · ≤ rank ·) := by
  have : Std.Total fun a b => rank a ≤ rank b := ⟨fun _ _ => le_total _ _⟩
  have : IsTrans α fun a b => rank a ≤ rank b := ⟨fun _ _ _ => le_trans⟩
  exact List.pairwise_insertionSort _ _

/-- The first item of a sorted list is of least rank. -/
theorem rank_le_of_filter_eq (h : (a :: l).Pairwise (rank · ≤ rank ·)) {b : α}
    (heq : ∀ k, (a :: l).filter (rank · = k) = (b :: l').filter (rank · = k)) :
    rank a ≤ rank b := by
  have hb : b ∈ (a :: l).filter (rank · = rank b) := by
    rw [heq]
    simp
  rcases List.mem_cons.mp (List.mem_of_mem_filter hb) with rfl | hb
  · exact le_rfl
  · exact (List.pairwise_cons.mp h).1 b hb

/-- Sorted lists with the same items of each rank, in the same order, are equal. -/
theorem eq_of_filter_eq (rank : α → κ) (h : l.Pairwise (rank · ≤ rank ·))
    (h' : l'.Pairwise (rank · ≤ rank ·))
    (heq : ∀ k, l.filter (rank · = k) = l'.filter (rank · = k)) : l = l' := by
  induction l generalizing l' with
  | nil =>
    cases l' with
    | nil => rfl
    | cons b l' => simpa using heq (rank b)
  | cons a l ih =>
    cases l' with
    | nil => simpa using heq (rank a)
    | cons b l' =>
      -- both lists start with their first item of least rank
      have hrank : rank a = rank b :=
        le_antisymm (rank_le_of_filter_eq h heq) (rank_le_of_filter_eq h' fun k => (heq k).symm)
      have hhead : a = b := by
        have hleast := heq (rank a)
        simp only [List.filter_cons, decide_true, ↓reduceIte, hrank] at hleast
        exact (List.cons.inj hleast).1
      subst hhead
      rw [ih h.of_cons h'.of_cons fun k => ?_]
      have hk := heq k
      by_cases ha : rank a = k
      · simpa [List.filter_cons, ha] using hk
      · simpa [List.filter_cons, ha] using hk

end Sorting

namespace Run

variable {step : σ → ι → Except ε (σ × ο)} {s₀ s s' : σ} {tr tr' : List (Transition σ ι ο)}
  {t : Transition σ ι ο} {rank : ι → κ}

/-- A run of no steps ends where it starts. -/
theorem eq_of_nil (h : Run step s₀ [] s) : s = s₀ := by
  generalize htr : ([] : List (Transition σ ι ο)) = tr at h
  cases h with
  | nil => rfl
  | snoc => simp at htr

/-- A run starts with its first transition. -/
theorem uncons (h : Run step s₀ (t :: tr) s) :
    t.pre = s₀ ∧ step s₀ t.input = .ok (t.post, t.output) ∧ Run step t.post tr s := by
  obtain ⟨hnil, hstep, hrest⟩ := at_transition (show Run step s₀ ([] ++ t :: tr) s from h)
  have hpre : t.pre = s₀ := hnil.eq_of_nil
  exact ⟨hpre, hpre ▸ hstep, hrest⟩

/-- The first state and the inputs of a run determine it. -/
theorem eq_of_inputs (h : Run step s₀ tr s) (h' : Run step s₀ tr' s')
    (hinputs : tr.map Transition.input = tr'.map Transition.input) : tr = tr' ∧ s = s' := by
  induction h generalizing tr' s' with
  | nil =>
    obtain rfl := List.map_eq_nil_iff.mp hinputs.symm
    exact ⟨rfl, h'.eq_of_nil.symm⟩
  | @snoc tr u u' i o _ hs ih =>
    rw [List.map_append] at hinputs
    obtain ⟨tr₁, l, rfl, htr₁, hl⟩ := List.map_eq_append_iff.mp hinputs.symm
    obtain ⟨t, rfl, ht⟩ := List.map_eq_singleton_iff.mp hl
    obtain ⟨hpre, hstep, rfl⟩ := h'.last
    obtain ⟨rfl, rfl⟩ := ih hpre htr₁.symm
    obtain ⟨pre, i', o', post⟩ := t
    obtain rfl : i' = i := ht
    obtain ⟨rfl, rfl⟩ := Prod.mk.inj (Except.ok.inj (hs.symm.trans hstep))
    exact ⟨rfl, rfl⟩

variable [LinearOrder κ]

/-- A step may be moved behind all steps of lower rank at the start of a run. -/
theorem orderedInsert (hswap : Swaps step rank) {i : ι} {o : ο} {s₁ : σ}
    (hstep : step s₀ i = .ok (s₁, o)) (h : Run step s₁ tr s) :
    ∃ tr', Run step s₀ tr' s ∧ tr'.map Transition.label =
      (tr.map Transition.label).orderedInsert (rank ·.1 ≤ rank ·.1) (i, o) := by
  induction tr generalizing s₀ s₁ with
  | nil => exact ⟨_, h.cons hstep, rfl⟩
  | cons t tr ih =>
    by_cases hrank : rank i ≤ rank t.input
    · refine ⟨_, h.cons hstep, ?_⟩
      rw [List.map_cons, List.map_cons, List.orderedInsert_cons]
      exact (if_pos hrank).symm
    · -- the first step is of lower rank, so it changes places with the one to be moved
      obtain ⟨-, hfirst, hrest⟩ := h.uncons
      obtain ⟨s₁', hfirst', hstep'⟩ := hswap _ _ _ _ _ _ _ (not_le.mp hrank) hstep hfirst
      obtain ⟨tr', hrun', hlabels⟩ := ih hstep' hrest
      refine ⟨_, hrun'.cons hfirst', ?_⟩
      rw [List.map_cons, List.map_cons, hlabels, List.orderedInsert_cons]
      exact (if_neg hrank).symm

/-- A run may be sorted by rank. -/
theorem sort (hswap : Swaps step rank) (h : Run step s₀ tr s) :
    ∃ tr', Run step s₀ tr' s ∧ tr'.map Transition.label =
      (tr.map Transition.label).insertionSort (rank ·.1 ≤ rank ·.1) := by
  induction tr generalizing s₀ with
  | nil => exact ⟨[], h, rfl⟩
  | cons t tr ih =>
    obtain ⟨-, hstep, hrest⟩ := h.uncons
    obtain ⟨tr₁, hrun, hsorted⟩ := ih hrest
    obtain ⟨tr', hrun', hlabels⟩ := hrun.orderedInsert hswap hstep
    refine ⟨tr', hrun', ?_⟩
    rw [hlabels, hsorted, List.map_cons, List.insertionSort_cons]
    rfl

/-- The inputs of each rank decide where a run ends and what its steps of each rank do. The order
in which steps of different ranks are taken does not matter. -/
theorem confluent (hswap : Swaps step rank) (h : Run step s₀ tr s) (h' : Run step s₀ tr' s')
    (hinputs : ∀ k, (tr.map Transition.input).filter (rank · = k) =
      (tr'.map Transition.input).filter (rank · = k)) :
    s = s' ∧ ∀ k, (tr.map Transition.label).filter (rank ·.1 = k) =
      (tr'.map Transition.label).filter (rank ·.1 = k) := by
  obtain ⟨tr₁, hrun, hlabels⟩ := h.sort hswap
  obtain ⟨tr₁', hrun', hlabels'⟩ := h'.sort hswap
  have hsorted {tr tr₁ : List (Transition σ ι ο)}
      (hlabels : tr₁.map Transition.label =
        (tr.map Transition.label).insertionSort (rank ·.1 ≤ rank ·.1)) :
      tr₁.map Transition.input = (tr.map Transition.input).insertionSort (rank · ≤ rank ·) := by
    have hfst (l : List (Transition σ ι ο)) :
        l.map Transition.input = (l.map Transition.label).map Prod.fst := by
      rw [List.map_map]
      rfl
    rw [hfst, hfst, hlabels]
    exact List.map_insertionSort _ _ _ _ fun _ _ _ _ => Iff.rfl
  -- the sorted runs have the same inputs, so they are the same run
  obtain ⟨rfl, rfl⟩ : tr₁ = tr₁' ∧ s = s' := by
    refine hrun.eq_of_inputs hrun' (eq_of_filter_eq rank ?_ ?_ fun k => ?_)
    · rw [hsorted hlabels]
      exact pairwise_insertionSort rank _
    · rw [hsorted hlabels']
      exact pairwise_insertionSort rank _
    · rw [hsorted hlabels, hsorted hlabels', filter_insertionSort, filter_insertionSort]
      exact hinputs k
  refine ⟨rfl, fun k => ?_⟩
  have hk := filter_insertionSort (fun l : ι × ο => rank l.1) (tr.map Transition.label) k
  have hk' := filter_insertionSort (fun l : ι × ο => rank l.1) (tr'.map Transition.label) k
  rw [← hk, ← hk', ← hlabels, ← hlabels']

end Run

end Machine
