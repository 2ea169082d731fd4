import Mathlib.Algebra.Order.Ring.Nat
import Mathlib.Data.Fin.Basic

/-!
# Ring buffers addressed by a free-running counter

A buffer of `n` slots whose write position is a counter taken modulo `n`. The counter is a
machine word of `w` bits that is only ever incremented and reset. As long as it has not
wrapped, the slots below `min count n` are those written since the last reset: the *live*
slots. A reset rewinds the counter and may clear only some of the slots, so the others keep
stale data that is not live.

Two buffers `Agree` when their counters and their live slots are equal. Every operation
keeps agreement, so stale data cannot be told apart through the live slots.
-/

/-- A buffer of `n` slots with a free-running write counter. -/
structure RingBuffer (α : Type*) (n : ℕ) where
  /-- The slots. -/
  data : Fin n → α
  /-- The counter: the number of writes since the last reset, up to word size. -/
  count : ℕ

namespace RingBuffer

variable {α : Type*} {n : ℕ}

/-- A buffer filled with `z` and never written. -/
def init (z : α) : RingBuffer α n := ⟨fun _ => z, 0⟩

/-- Write `a` at the counter modulo `n` and increment the `w`-bit counter. -/
def push [NeZero n] (w : ℕ) (b : RingBuffer α n) (a : α) : RingBuffer α n where
  data := Function.update b.data (Fin.ofNat n b.count) a
  count := (b.count + 1) % 2 ^ w

/-- Rewind the counter and set the first `m` slots to `z`. -/
def reset (m : ℕ) (z : α) (b : RingBuffer α n) : RingBuffer α n where
  data j := if (j : ℕ) < m then z else b.data j
  count := 0

/-- Equal counters and equal live slots. -/
def Agree (b c : RingBuffer α n) : Prop :=
  b.count = c.count ∧ ∀ j : Fin n, (j : ℕ) < b.count → b.data j = c.data j

@[simp]
theorem count_reset (m : ℕ) (z : α) (b : RingBuffer α n) : (b.reset m z).count = 0 := rfl

theorem data_reset (m : ℕ) (z : α) (b : RingBuffer α n) (j : Fin n) :
    (b.reset m z).data j = if (j : ℕ) < m then z else b.data j := rfl

/-- Buffers whose counters are both zero agree: no slot is live. -/
theorem agree_of_count_zero {b c : RingBuffer α n} (hb : b.count = 0) (hc : c.count = 0) :
    b.Agree c :=
  ⟨hb.trans hc.symm, fun j hj => by omega⟩

theorem Agree.symm {b c : RingBuffer α n} (h : b.Agree c) : c.Agree b :=
  ⟨h.1.symm, fun j hj => (h.2 j (h.1 ▸ hj)).symm⟩

/-- Writing the same value keeps agreement. -/
theorem Agree.push [NeZero n] {b c : RingBuffer α n} (h : b.Agree c) (w : ℕ) (a : α) :
    (b.push w a).Agree (c.push w a) := by
  obtain ⟨hcount, hdata⟩ := h
  refine ⟨by simp [RingBuffer.push, hcount], fun j hj => ?_⟩
  simp only [RingBuffer.push, hcount] at hj ⊢
  by_cases hjc : j = Fin.ofNat n c.count
  · simp [hjc]
  · rw [Function.update_of_ne hjc, Function.update_of_ne hjc]
    apply hdata
    -- a slot below the incremented counter other than the one just written was live before
    have hne : (j : ℕ) ≠ c.count % n := fun h => hjc (Fin.ext (by simpa using h))
    have hlt : (j : ℕ) < c.count + 1 := lt_of_lt_of_le hj (Nat.mod_le _ _)
    rcases Nat.lt_or_ge c.count n with hcn | hcn
    · rw [Nat.mod_eq_of_lt hcn] at hne
      omega
    · have := j.isLt
      omega

end RingBuffer
