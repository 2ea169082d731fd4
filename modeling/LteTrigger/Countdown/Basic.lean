import Mathlib.Algebra.Order.Ring.Int
import Mathlib.Logic.Function.Iterate

/-!
# Countdowns

A counter that is decremented until it is zero, and at zero is set to its reload value again.
With reload value `n` it is zero at every `(n + 1)`-th tick, not at every `n`-th one: the tick
that reloads counts as well.
-/

namespace Countdown

/-- One tick: reload at zero, and count down otherwise. -/
def tick (reload counter : ℤ) : ℤ := if counter = 0 then reload else counter - 1

variable {n : ℤ}

/-- From a reload on, the counter runs through the residues. -/
theorem iterate_tick (hn : 0 ≤ n) (k : ℕ) : (tick n)^[k] n = n - k % (n + 1) := by
  induction k with
  | zero => simp
  | succ k ih =>
    have hnonneg : 0 ≤ (k : ℤ) % (n + 1) := Int.emod_nonneg _ (by omega)
    have hlt : (k : ℤ) % (n + 1) < n + 1 := Int.emod_lt_of_pos _ (by omega)
    have hsucc : ((k + 1 : ℕ) : ℤ) % (n + 1) = ((k : ℤ) % (n + 1) + 1) % (n + 1) := by
      rw [Int.emod_add_emod, Nat.cast_succ]
    rw [Function.iterate_succ_apply', ih, hsucc, tick]
    split
    · -- the last residue: the counter is zero and is reloaded
      have hlast : (k : ℤ) % (n + 1) = n := by omega
      rw [hlast, Int.emod_self, sub_zero]
    · rw [Int.emod_eq_of_lt (a := (k : ℤ) % (n + 1) + 1) (by omega) (by omega)]
      omega

/-- The counter is zero before the ticks whose number is a multiple of `n + 1`. -/
theorem iterate_tick_eq_zero_iff (hn : 0 ≤ n) (k : ℕ) :
    (tick n)^[k] n = 0 ↔ n + 1 ∣ ((k + 1 : ℕ) : ℤ) := by
  have hnext := iterate_tick hn (k + 1)
  have hpos : 0 ≤ ((k + 1 : ℕ) : ℤ) % (n + 1) := Int.emod_nonneg _ (by omega)
  rw [Function.iterate_succ_apply', tick] at hnext
  have hbound : (tick n)^[k] n ≤ n := by
    rw [iterate_tick hn]
    have := Int.emod_nonneg (k : ℤ) (show n + 1 ≠ 0 by omega)
    omega
  -- a counter at zero is reloaded, and only then it is full after the tick
  rw [Int.dvd_iff_emod_eq_zero]
  split at hnext <;> omega

end Countdown
