import Mathlib.Data.Int.Notation
import Mathlib.Data.List.Basic
import Mathlib.Data.List.Induction

/-!
# Locking after consecutive hits

A detector that is either searching, with the number of consecutive hits seen so far, or
locked. It locks at the hit that makes the number reach `after`, and the first miss sends it
back to searching with no hits. Every hit and miss gets a verdict:

* `follow`: a hit that finds or makes the detector locked;
* `probe`: a hit while searching that does not lock;
* `lost`: a miss that ends a run of hits or a lock;
* `idle`: a miss while there was nothing to lose.

A `follow` is only ever followed by another `follow` or by `lost`, so the `follow`s between
two other verdicts belong to one lock (`follow_or_lost_of_locked`).

After any hits and misses the detector is locked exactly when at least `after` hits came last,
and otherwise it counts them (`run_eq`).
-/

/-- The state of the detector. -/
inductive HitLock
  /-- Not locked, after so many consecutive hits. -/
  | searching (hits : ℕ)
  /-- Locked. -/
  | locked
  deriving DecidableEq, Repr

namespace HitLock

/-- What a hit or a miss means. -/
inductive Verdict
  /-- A hit in lock. -/
  | follow
  /-- A hit that does not lock yet. -/
  | probe
  /-- A miss that ends a run of hits or a lock. -/
  | lost
  /-- A miss with nothing to lose. -/
  | idle
  deriving DecidableEq, Repr

/-- The state and the verdict after a hit (`true`) or a miss (`false`). -/
def next (after : ℤ) : HitLock → Bool → HitLock × Verdict
  | .locked, true => (.locked, .follow)
  | .searching hits, true =>
    if (hits : ℤ) + 1 = after then (.locked, .follow) else (.searching (hits + 1), .probe)
  | .searching 0, false => (.searching 0, .idle)
  | _, false => (.searching 0, .lost)

/-- A miss leaves no hits. -/
@[simp]
theorem next_miss (after : ℤ) (l : HitLock) : (l.next after false).1 = .searching 0 := by
  rcases l with (_ | hits) | _ <;> rfl

/-- The verdict is `follow` exactly when the detector is locked afterwards. -/
theorem verdict_eq_follow_iff (after : ℤ) (l : HitLock) (hit : Bool) :
    (l.next after hit).2 = .follow ↔ (l.next after hit).1 = .locked := by
  fun_cases next after l hit <;> simp

/-- From a lock the only verdicts are `follow`, which keeps it, and `lost`, which ends it. -/
theorem follow_or_lost_of_locked (after : ℤ) (hit : Bool) :
    (locked.next after hit).2 = .follow ∨ (locked.next after hit).2 = .lost := by
  cases hit <;> simp [next]

/-- A miss is `lost` when there were hits or a lock to lose. -/
theorem verdict_eq_lost_iff (after : ℤ) (l : HitLock) (hit : Bool) :
    (l.next after hit).2 = .lost ↔ hit = false ∧ l ≠ .searching 0 := by
  fun_cases next after l hit <;> simp_all

/-- A miss is `idle` when there was nothing to lose. -/
theorem verdict_eq_idle_iff (after : ℤ) (l : HitLock) (hit : Bool) :
    (l.next after hit).2 = .idle ↔ hit = false ∧ l = .searching 0 := by
  fun_cases next after l hit <;> simp_all

/-! ### Runs of the detector -/

/-- The detector after hits and misses, from searching without hits. -/
def run (after : ℤ) (hits : List Bool) : HitLock :=
  hits.foldl (fun l hit => (l.next after hit).1) (.searching 0)

/-- The number of hits since the last miss. -/
def trailing (hits : List Bool) : ℕ := (hits.reverse.takeWhile id).length

@[simp]
theorem trailing_nil : trailing [] = 0 := rfl

@[simp]
theorem trailing_concat_hit (hits : List Bool) :
    trailing (hits ++ [true]) = trailing hits + 1 := by
  simp [trailing]

@[simp]
theorem trailing_concat_miss (hits : List Bool) : trailing (hits ++ [false]) = 0 := by
  simp [trailing]

/-- A list ends with its trailing hits. -/
theorem exists_append_replicate_trailing (hits : List Bool) :
    ∃ l, hits = l ++ List.replicate (trailing hits) true := by
  induction hits using List.reverseRecOn with
  | nil => exact ⟨[], rfl⟩
  | append_singleton hits hit ih =>
    cases hit with
    | true =>
      -- the hit prolongs the hits that came last
      obtain ⟨l, hl⟩ := ih
      refine ⟨l, ?_⟩
      rw [trailing_concat_hit, List.replicate_succ', ← List.append_assoc, ← hl]
    | false => exact ⟨hits ++ [false], by simp⟩

/-- The detector is locked when at least `after` hits came last, and otherwise counts them. -/
theorem run_eq (after : ℤ) (hits : List Bool) :
    run after hits =
      if 0 < after ∧ after ≤ trailing hits then .locked else .searching (trailing hits) := by
  induction hits using List.reverseRecOn with
  | nil =>
    rw [if_neg (by rw [trailing_nil]; omega)]
    rfl
  | append_singleton hits hit ih =>
    have hlast : run after (hits ++ [hit]) = ((run after hits).next after hit).1 := by
      simp [run]
    rw [hlast]
    cases hit with
    | true =>
      rw [ih, trailing_concat_hit]
      by_cases hlocked : 0 < after ∧ after ≤ trailing hits
      · -- a lock is kept
        rw [if_pos hlocked, if_pos (by omega), next]
      · rw [if_neg hlocked, next]
        -- the hit is the last one needed, or there are still too few
        by_cases hlast : (trailing hits : ℤ) + 1 = after
        · rw [if_pos hlast, if_pos (by omega)]
        · rw [if_neg hlast, if_neg (by omega)]
    | false =>
      -- after a miss there are no trailing hits, and zero of them lock nothing
      rw [next_miss, trailing_concat_miss, if_neg (by omega)]

end HitLock
