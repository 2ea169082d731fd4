import Mathlib.Data.List.Induction
import Mathlib.Order.Lattice.Nat

/-!
# Storage that moves when it grows

The storage of a container is kept when new contents fit into it. Otherwise the contents go to
new storage, just large enough for them. Storage is numbered in the order of allocation, so that
no number is used twice: whoever has taken down the number of the storage holds the current one
exactly as long as everything has fitted.

## Main results

* `addr_foldl_fit_eq_iff`: when storage has not moved;
* `le_capacity_foldl_fit_iff`: what fits after a while.
-/

/-- The storage of a container. -/
structure Storage where
  /-- Its number. -/
  addr : ℕ
  /-- The size of the contents it has room for. -/
  capacity : ℕ
  deriving DecidableEq, Repr

namespace Storage

variable {b : Storage} {n : ℕ} {sizes : List ℕ}

/-- The storage after an assignment of contents of size `n`. -/
def fit (b : Storage) (n : ℕ) : Storage := if n ≤ b.capacity then b else ⟨b.addr + 1, n⟩

/-- Storage never shrinks. -/
theorem capacity_fit (b : Storage) (n : ℕ) : (b.fit n).capacity = max b.capacity n := by
  unfold fit
  split
  · exact (max_eq_left ‹_›).symm
  · exact (max_eq_right (Nat.le_of_not_ge ‹_›)).symm

theorem addr_le_addr_fit (b : Storage) (n : ℕ) : b.addr ≤ (b.fit n).addr := by
  unfold fit
  split
  · exact le_rfl
  · exact Nat.le_succ _

theorem addr_fit_eq_iff : (b.fit n).addr = b.addr ↔ n ≤ b.capacity := by
  unfold fit
  split
  · exact iff_of_true rfl ‹_›
  · exact iff_of_false (Nat.succ_ne_self _) ‹_›

theorem addr_le_addr_foldl_fit (b : Storage) (sizes : List ℕ) :
    b.addr ≤ (sizes.foldl fit b).addr := by
  induction sizes using List.reverseRecOn with
  | nil => exact le_rfl
  | append_singleton sizes n ih =>
    rw [List.foldl_concat]
    exact ih.trans (addr_le_addr_fit _ _)

/-- Contents fit after a while if they fitted before, or if others of their size have been
assigned. -/
theorem le_capacity_foldl_fit_iff :
    n ≤ (sizes.foldl fit b).capacity ↔ n ≤ b.capacity ∨ ∃ m ∈ sizes, n ≤ m := by
  induction sizes generalizing b with
  | nil => simp
  | cons m sizes ih =>
    -- the room is the largest size so far
    rw [List.foldl_cons, ih, capacity_fit, le_max_iff, List.exists_mem_cons_iff, or_assoc]

/-- Storage has not moved exactly when everything fitted into what it was at first. -/
theorem addr_foldl_fit_eq_iff :
    (sizes.foldl fit b).addr = b.addr ↔ ∀ n ∈ sizes, n ≤ b.capacity := by
  induction sizes generalizing b with
  | nil => simp
  | cons m sizes ih =>
    rw [List.foldl_cons, List.forall_mem_cons]
    by_cases hm : m ≤ b.capacity
    · have hkept : b.fit m = b := if_pos hm
      rw [hkept, ih, and_iff_right hm]
    · -- storage that has moved does not come back
      have hmoved : b.addr < (b.fit m).addr :=
        lt_of_le_of_ne (addr_le_addr_fit _ _) fun h => hm (addr_fit_eq_iff.mp h.symm)
      have := addr_le_addr_foldl_fit (b.fit m) sizes
      exact iff_of_false (by omega) fun h => hm h.1

end Storage
