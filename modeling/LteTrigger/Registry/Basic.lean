import Mathlib.Data.List.Induction
import Mathlib.Data.List.Nodup
import Mathlib.Data.List.Perm.Basic
import Mathlib.Tactic.Common

/-!
# Registries

A registry is a list of objects, each with an identity. An object is added at the end. A
removal takes out every object of an identity, and does nothing when there is none. So a
removal only counts for objects added before it, and the contents of a registry depend on the
order of the operations.

## Main definitions

* `run`: the contents of a registry after a list of operations;
* `survivors`: the objects added and not removed afterwards, in the order they were added;
* `RemovesFollow`: every removal comes after an addition of its identity;
* `Accounted`: besides, no identity is added twice or removed twice.

## Main results

* `run_eq_survivors`: a registry holds the survivors;
* `run_eq_filter`: it holds what was added and not removed, if the operations are accounted;
* `reorder_iff`: a reordering of accounted operations gives a registry with the same members
  exactly when in it, too, every removal comes after an addition of its identity.
-/

namespace Registry

variable {α κ : Type*}

/-- An operation. -/
inductive Op (α κ : Type*)
  /-- Add an object. -/
  | add (a : α)
  /-- Remove the objects of an identity. -/
  | remove (k : κ)

/-- The objects that are added. -/
def additions (ops : List (Op α κ)) : List α :=
  ops.filterMap fun
    | .add a => some a
    | .remove _ => none

/-- The identities that are removed. -/
def removals (ops : List (Op α κ)) : List κ :=
  ops.filterMap fun
    | .add _ => none
    | .remove k => some k

section Projections

variable {ops ops' : List (Op α κ)} {a : α} {k : κ}

@[simp]
theorem additions_nil : additions ([] : List (Op α κ)) = [] := rfl

@[simp]
theorem additions_add : additions (.add a :: ops) = a :: additions ops := rfl

@[simp]
theorem additions_remove : additions (.remove k :: ops) = additions ops := rfl

@[simp]
theorem additions_append : additions (ops ++ ops') = additions ops ++ additions ops' :=
  List.filterMap_append

@[simp]
theorem removals_nil : removals ([] : List (Op α κ)) = [] := rfl

@[simp]
theorem removals_add : removals (.add a :: ops) = removals ops := rfl

@[simp]
theorem removals_remove : removals (.remove k :: ops) = k :: removals ops := rfl

@[simp]
theorem removals_append : removals (ops ++ ops') = removals ops ++ removals ops' :=
  List.filterMap_append

/-- An addition stands somewhere among the operations. -/
theorem mem_additions : a ∈ additions ops ↔ .add a ∈ ops := by
  rw [additions, List.mem_filterMap]
  refine ⟨?_, fun h => ⟨_, h, rfl⟩⟩
  rintro ⟨_ | _, hop, heq⟩ <;> cases heq
  exact hop

/-- A removal stands somewhere among the operations. -/
theorem mem_removals : k ∈ removals ops ↔ .remove k ∈ ops := by
  rw [removals, List.mem_filterMap]
  refine ⟨?_, fun h => ⟨_, h, rfl⟩⟩
  rintro ⟨_ | _, hop, heq⟩ <;> cases heq
  exact hop

theorem additions_perm (h : ops.Perm ops') : (additions ops).Perm (additions ops') :=
  h.filterMap _

theorem removals_perm (h : ops.Perm ops') : (removals ops).Perm (removals ops') :=
  h.filterMap _

end Projections

section Accounted

variable (ident : α → κ)

/-- Every removal comes after an addition of its identity. -/
def RemovesFollow (ops : List (Op α κ)) : Prop :=
  ∀ l₁ k l₂, ops = l₁ ++ .remove k :: l₂ → k ∈ (additions l₁).map ident

/-- No identity is added twice or removed twice, and every removal comes after the addition of
its identity. -/
structure Accounted (ops : List (Op α κ)) : Prop where
  added_once : ((additions ops).map ident).Nodup
  removed_once : (removals ops).Nodup
  removesFollow : RemovesFollow ident ops

variable {ident} {ops ops' : List (Op α κ)} {a : α} {k : κ}

/-- The removals of a longer list follow if those of the list do and the last one does. -/
theorem RemovesFollow.concat {op : Op α κ} (h : RemovesFollow ident ops)
    (hop : ∀ k, op = .remove k → k ∈ (additions ops).map ident) :
    RemovesFollow ident (ops ++ [op]) := by
  intro l₁ k l₂ heq
  -- the removal is the last operation or one before
  rcases List.eq_nil_or_concat l₂ with rfl | ⟨l₂, op', rfl⟩
  · obtain ⟨rfl, hlast⟩ := List.append_inj' heq rfl
    exact hop k (List.singleton_inj.mp hlast)
  · rw [List.concat_eq_append, ← List.cons_append, ← List.append_assoc] at heq
    exact h l₁ k l₂ (List.append_inj' heq rfl).1

theorem Accounted.nil : Accounted ident [] where
  added_once := List.nodup_nil
  removed_once := List.nodup_nil
  removesFollow := by
    intro l₁ k l₂ heq
    simp at heq

/-- The first operations of an accounted list are accounted for. -/
theorem Accounted.of_append (h : Accounted ident (ops ++ ops')) : Accounted ident ops where
  added_once := by
    have honce := h.added_once
    rw [additions_append, List.map_append] at honce
    exact (List.nodup_append.mp honce).1
  removed_once := by
    have honce := h.removed_once
    rw [removals_append] at honce
    exact (List.nodup_append.mp honce).1
  removesFollow l₁ k l₂ heq := h.removesFollow l₁ k (l₂ ++ ops') (by simp [heq])

/-- An object with a new identity may be added. -/
theorem Accounted.concat_add (h : Accounted ident ops)
    (hnew : ident a ∉ (additions ops).map ident) : Accounted ident (ops ++ [.add a]) where
  added_once := by
    rw [additions_append, List.map_append]
    exact List.nodup_append.mpr ⟨h.added_once, List.nodup_singleton _, by simpa using hnew⟩
  removed_once := by
    rw [removals_append]
    simpa using h.removed_once
  removesFollow := h.removesFollow.concat fun _ hop => by cases hop

/-- An identity that was added and not yet removed may be removed. -/
theorem Accounted.concat_remove (h : Accounted ident ops)
    (hold : k ∈ (additions ops).map ident) (hnew : k ∉ removals ops) :
    Accounted ident (ops ++ [.remove k]) where
  added_once := by
    rw [additions_append]
    simpa using h.added_once
  removed_once := by
    rw [removals_append]
    refine List.nodup_append.mpr ⟨h.removed_once, List.nodup_singleton _, ?_⟩
    rintro k' hk' _ hmem rfl
    rw [removals_remove, removals_nil, List.mem_singleton] at hmem
    exact hnew (hmem ▸ hk')
  removesFollow := by
    refine h.removesFollow.concat fun k' hop => ?_
    cases hop
    exact hold

/-- No identity is added after it was removed. -/
theorem Accounted.notMem_removals (h : Accounted ident (ops ++ [.add a])) :
    ident a ∉ removals ops := by
  intro hremoved
  obtain ⟨l₁, l₂, rfl⟩ := List.mem_iff_append.mp (mem_removals.mp hremoved)
  -- it would have been added before the removal as well
  have hbefore : ident a ∈ (additions l₁).map ident :=
    h.removesFollow l₁ (ident a) (l₂ ++ [.add a]) (by simp)
  have honce := h.added_once
  simp only [additions_append, additions_add, additions_remove, additions_nil, List.map_append,
    List.map_cons, List.append_assoc] at honce
  exact (List.nodup_append.mp honce).2.2 _ hbefore _ (by simp) rfl

end Accounted

variable [DecidableEq κ] (ident : α → κ)

/-- One operation on a registry. -/
def apply (objects : List α) : Op α κ → List α
  | .add a => objects ++ [a]
  | .remove k => objects.filter (ident · ≠ k)

/-- The contents of a registry after operations on an empty one. -/
def run (ops : List (Op α κ)) : List α := ops.foldl (apply ident) []

/-- The objects added and not removed afterwards. -/
def survivors : List (Op α κ) → List α
  | [] => []
  | .add a :: ops => if ident a ∈ removals ops then survivors ops else a :: survivors ops
  | .remove _ :: ops => survivors ops

variable {ident} {ops ops' : List (Op α κ)} {a : α} {k : κ}

/-! ### What a registry holds -/

/-- Another addition survives. -/
theorem survivors_concat_add :
    survivors ident (ops ++ [.add a]) = survivors ident ops ++ [a] := by
  induction ops with
  | nil => simp [survivors]
  | cons op ops ih =>
    cases op with
    | add b =>
      -- a later addition does not decide about `b`
      rw [List.cons_append, survivors, survivors, ih, removals_append, removals_add,
        removals_nil, List.append_nil]
      split <;> rfl
    | remove k => exact ih

/-- Another removal takes out the survivors of its identity. -/
theorem survivors_concat_remove :
    survivors ident (ops ++ [.remove k]) = (survivors ident ops).filter (ident · ≠ k) := by
  induction ops with
  | nil => rfl
  | cons op ops ih =>
    cases op with
    | add b =>
      -- `b` survives if no removal so far takes it out and its identity is not `k`
      have hmem : ident b ∈ removals (ops ++ [.remove k]) ↔
          ident b ∈ removals ops ∨ ident b = k := by simp
      rw [List.cons_append, survivors, survivors, ih]
      by_cases hremoved : ident b ∈ removals ops
      · rw [if_pos (hmem.mpr (.inl hremoved)), if_pos hremoved]
      · rw [if_neg hremoved, List.filter_cons]
        by_cases hk : ident b = k
        · rw [if_pos (hmem.mpr (.inr hk)), if_neg (by simp [hk])]
        · rw [if_neg (by simp [hremoved, hk]), if_pos (by simp [hk])]
    | remove k' => exact ih

/-- A registry holds the survivors, in the order they were added. -/
theorem run_eq_survivors : run ident ops = survivors ident ops := by
  induction ops using List.reverseRecOn with
  | nil => rfl
  | append_singleton ops op ih =>
    rw [run, List.foldl_append, List.foldl_cons, List.foldl_nil, ← run, ih]
    cases op with
    | add a => rw [survivors_concat_add, apply]
    | remove k => rw [survivors_concat_remove, apply]

/-- A registry from which nothing is removed holds all that was added. -/
theorem run_eq_additions (hkept : removals ops = []) : run ident ops = additions ops := by
  rw [run_eq_survivors]
  fun_induction survivors ident ops with
  | case1 => rfl
  | case2 a ops hremoved ih =>
    rw [removals_add] at hkept
    simp [hkept] at hremoved
  | case3 a ops _ ih => rw [additions_add, ih hkept]
  | case4 k ops ih => simp at hkept

/-- Only objects that are added survive. -/
theorem survivors_sublist : (survivors ident ops).Sublist (additions ops) := by
  fun_induction survivors ident ops with
  | case1 => exact .slnil
  | case2 a ops _ ih => exact ih.cons a
  | case3 a ops _ ih => exact ih.cons_cons a
  | case4 k ops ih => exact ih

/-- An object survives if it is added at some point and not removed from there on. -/
theorem mem_survivors :
    a ∈ survivors ident ops ↔
      ∃ l₁ l₂, ops = l₁ ++ .add a :: l₂ ∧ ident a ∉ removals l₂ := by
  constructor
  · intro h
    fun_induction survivors ident ops with
    | case1 => cases h
    | case2 b ops _ ih =>
      obtain ⟨l₁, l₂, rfl, hkept⟩ := ih h
      exact ⟨.add b :: l₁, l₂, rfl, hkept⟩
    | case3 b ops hkept ih =>
      rcases List.mem_cons.mp h with rfl | h
      · exact ⟨[], ops, rfl, hkept⟩
      · obtain ⟨l₁, l₂, rfl, hkept'⟩ := ih h
        exact ⟨.add b :: l₁, l₂, rfl, hkept'⟩
    | case4 k ops ih =>
      obtain ⟨l₁, l₂, rfl, hkept⟩ := ih h
      exact ⟨.remove k :: l₁, l₂, rfl, hkept⟩
  · rintro ⟨l₁, l₂, rfl, hkept⟩
    induction l₁ with
    | nil => rw [List.nil_append, survivors, if_neg hkept]; exact List.mem_cons_self
    | cons op l₁ ih =>
      cases op with
      | add b =>
        rw [List.cons_append, survivors]
        split
        · exact ih
        · exact List.mem_cons_of_mem b ih
      | remove k => exact ih

/-- Where no identity is added twice, none is held twice. -/
theorem run_nodup (h : ((additions ops).map ident).Nodup) :
    ((run ident ops).map ident).Nodup := by
  rw [run_eq_survivors]
  exact h.sublist (survivors_sublist.map ident)

/-- A registry of accounted operations holds what was added and not removed, in the order it was
added. -/
theorem run_eq_filter (h : Accounted ident ops) :
    run ident ops = (additions ops).filter (ident · ∉ removals ops) := by
  induction ops using List.reverseRecOn with
  | nil => rfl
  | append_singleton ops op ih =>
    have hrun := ih h.of_append
    rw [run, List.foldl_append, List.foldl_cons, List.foldl_nil, ← run, hrun]
    cases op with
    | add a => simp [apply, h.notMem_removals]
    | remove k =>
      rw [apply, List.filter_filter, additions_append, additions_remove, additions_nil,
        List.append_nil, removals_append]
      refine List.filter_congr fun b _ => ?_
      simp [and_comm]

/-! ### Reordered operations -/

/-- Where removals follow, an object is held if it is added and never removed: a removal before
its addition would need an addition of the same identity before it. -/
theorem mem_run_of_removesFollow (honce : ((additions ops).map ident).Nodup)
    (hfollow : RemovesFollow ident ops) :
    a ∈ run ident ops ↔ a ∈ additions ops ∧ ident a ∉ removals ops := by
  rw [run_eq_survivors, mem_survivors]
  constructor
  · rintro ⟨l₁, l₂, rfl, hkept⟩
    refine ⟨by simp, ?_⟩
    rw [removals_append, removals_add, List.mem_append, not_or]
    refine ⟨fun hremoved => ?_, hkept⟩
    obtain ⟨l₃, l₄, rfl⟩ := List.mem_iff_append.mp (mem_removals.mp hremoved)
    -- two additions of one identity
    have hbefore : ident a ∈ (additions l₃).map ident :=
      hfollow l₃ (ident a) (l₄ ++ .add a :: l₂) (by simp)
    simp only [additions_append, additions_add, additions_remove, List.map_append,
      List.map_cons, List.append_assoc] at honce
    exact (List.nodup_append.mp honce).2.2 _ hbefore _ (by simp) rfl
  · rintro ⟨hadded, hkept⟩
    obtain ⟨l₁, l₂, rfl⟩ := List.mem_iff_append.mp (mem_additions.mp hadded)
    refine ⟨l₁, l₂, rfl, fun hremoved => hkept ?_⟩
    rw [removals_append, removals_add]
    exact List.mem_append_right _ hremoved

/-- A reordering of accounted operations gives a registry with the same members exactly when
in it, too, every removal comes after an addition of its identity. -/
theorem reorder_iff (h : Accounted ident ops) (hperm : ops'.Perm ops) :
    (∀ a, a ∈ run ident ops' ↔ a ∈ run ident ops) ↔ RemovesFollow ident ops' := by
  have hadditions := additions_perm hperm
  have hremovals := removals_perm hperm
  have honce : ((additions ops').map ident).Nodup :=
    (hadditions.map ident).nodup_iff.mpr h.added_once
  constructor
  · rintro hmem l₁ k l₂ rfl
    -- the object of the removal is not held after `ops`, hence not after the reordering
    have hremoved : k ∈ removals ops := hremovals.mem_iff.mp (by simp)
    obtain ⟨l₃, l₄, hops⟩ := List.mem_iff_append.mp (mem_removals.mp hremoved)
    obtain ⟨a, ha, rfl⟩ := List.mem_map.mp (h.removesFollow l₃ k l₄ hops)
    have hgone : a ∉ run ident (l₁ ++ .remove (ident a) :: l₂) := by
      rw [hmem, mem_run_of_removesFollow h.added_once h.removesFollow]
      exact fun hheld => hheld.2 hremoved
    have hadded : a ∈ additions (l₁ ++ .remove (ident a) :: l₂) := by
      rw [hadditions.mem_iff, hops, additions_append]
      exact List.mem_append_left _ ha
    rw [additions_append, additions_remove, List.mem_append] at hadded
    rcases hadded with hadded | hadded
    · exact List.mem_map_of_mem hadded
    · -- an addition after the only removal would survive
      obtain ⟨l₅, l₆, rfl⟩ := List.mem_iff_append.mp (mem_additions.mp hadded)
      refine absurd ?_ hgone
      rw [run_eq_survivors, mem_survivors]
      refine ⟨l₁ ++ .remove (ident a) :: l₅, l₆, by simp, fun hafter => ?_⟩
      have honce' := hremovals.nodup_iff.mpr h.removed_once
      rw [removals_append, removals_remove, removals_append, removals_add] at honce'
      have hlast := (List.nodup_cons.mp (List.nodup_append.mp honce').2.1).1
      exact hlast (List.mem_append_right _ hafter)
  · -- in both lists an object is held if it is added and never removed
    intro hfollow a
    rw [mem_run_of_removesFollow honce hfollow,
      mem_run_of_removesFollow h.added_once h.removesFollow, hadditions.mem_iff,
      hremovals.mem_iff]

end Registry
