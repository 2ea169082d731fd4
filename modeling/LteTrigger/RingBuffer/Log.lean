import LteTrigger.RingBuffer.Basic
import Mathlib.Data.List.Rotate
import Mathlib.Data.List.Induction

/-!
# What a ring buffer holds

The log of a ring buffer is the list of the values pushed since its counter was last zero. The
`i`-th of them went to the slot `slot w n i`, and the last value that went to a slot is in it.
As long as the counter has not wrapped, the live slots together hold the last `n` values of the
log, in some order. A slot that no value of the log went to is *untouched*: it holds what it did
when the counter was zero.

## Main definitions

* `Holds`: the buffer holds a log;
* `Blank`: every untouched slot holds a given value;
* `Clears`: a reset of the first `m` slots leaves nothing of a log.

## Main results

* `Holds.live_perm`: the live slots hold the last values of the log;
* `Blank.push`, `Blank.reset_iff`: a push keeps a buffer blank, and a reset makes it blank
  exactly when it clears the log.
-/

namespace RingBuffer

variable {α : Type*} {n : ℕ} [NeZero n] {w m : ℕ} {z a : α} {b : RingBuffer α n} {log : List α}

/-- The slot that the `i`-th value after a reset goes to. -/
def slot (w n : ℕ) [NeZero n] (i : ℕ) : Fin n := Fin.ofNat n (i % 2 ^ w)

/-- No value goes to a slot past its number. -/
theorem slot_le (w n : ℕ) [NeZero n] (i : ℕ) : (slot w n i : ℕ) ≤ i := by
  rw [slot, Fin.val_ofNat]
  exact (Nat.mod_le _ _).trans (Nat.mod_le _ _)

/-- The buffer is what the values of `log` leave when they are pushed one after the other,
starting with the counter at zero. -/
def Holds (w : ℕ) (b : RingBuffer α n) (log : List α) : Prop :=
  ∃ b₀ : RingBuffer α n, b₀.count = 0 ∧ b = log.foldl (push w) b₀

theorem holds_of_count_zero (w : ℕ) (h : b.count = 0) : b.Holds w [] := ⟨b, h, rfl⟩

theorem Holds.push (h : b.Holds w log) (a : α) : (b.push w a).Holds w (log ++ [a]) := by
  obtain ⟨b₀, hcount, rfl⟩ := h
  exact ⟨b₀, hcount, by simp⟩

/-- Values pushed one after the other are added to the log. -/
theorem Holds.foldl_push (h : b.Holds w log) (l : List α) :
    (l.foldl (RingBuffer.push w) b).Holds w (log ++ l) := by
  induction l generalizing b log with
  | nil => simpa using h
  | cons a l ih =>
    rw [List.foldl_cons, List.append_cons]
    exact ih (h.push a)

/-- The last value of a log was pushed to a buffer that holds the rest. -/
theorem Holds.of_concat (h : b.Holds w (log ++ [a])) :
    ∃ b' : RingBuffer α n, b'.Holds w log ∧ b = b'.push w a := by
  obtain ⟨b₀, hcount, rfl⟩ := h
  exact ⟨log.foldl (RingBuffer.push w) b₀, ⟨b₀, hcount, rfl⟩, by simp⟩

/-- The counter is the length of the log, up to word size. -/
theorem Holds.count (h : b.Holds w log) : b.count = log.length % 2 ^ w := by
  induction log using List.reverseRecOn generalizing b with
  | nil =>
    obtain ⟨b₀, hcount, rfl⟩ := h
    rw [List.length_nil, Nat.zero_mod]
    exact hcount
  | append_singleton log a ih =>
    obtain ⟨b', h', rfl⟩ := h.of_concat
    rw [RingBuffer.push, ih h', List.length_append, List.length_singleton, Nat.mod_add_mod]

/-- A push writes the slot of the next value and no other. -/
theorem Holds.data_push (h : b.Holds w log) (a : α) (j : Fin n) :
    (b.push w a).data j = if j = slot w n log.length then a else b.data j := by
  rw [RingBuffer.push, h.count, slot]
  exact Function.update_apply _ _ _ _

/-- The last value that went to a slot is in it. -/
theorem Holds.data_of_last (h : b.Holds w log) {i : ℕ} (hi : i < log.length)
    (hlast : ∀ k, i < k → k < log.length → slot w n k ≠ slot w n i) :
    b.data (slot w n i) = log[i] := by
  induction log using List.reverseRecOn generalizing b with
  | nil => simp at hi
  | append_singleton log a ih =>
    obtain ⟨b', h', rfl⟩ := h.of_concat
    rw [List.length_append, List.length_singleton] at hi hlast
    rw [h'.data_push]
    rcases Nat.lt_or_eq_of_le (Nat.le_of_lt_succ hi) with hold | rfl
    · -- a value pushed before: the last push went elsewhere
      rw [if_neg (hlast log.length hold (by omega)).symm, List.getElem_append_left hold]
      exact ih h' hold fun k hik hk => hlast k hik (by omega)
    · -- the value pushed last
      rw [if_pos rfl, List.getElem_append_right le_rfl]
      simp

/-! ### The live slots -/

/-- A value among the last `n` of the log is in the slot of its number modulo `n`. -/
theorem Holds.data_live (h : b.Holds w log) (hw : log.length < 2 ^ w) {i : ℕ}
    (hi : i < log.length) (hnear : log.length ≤ i + n) : b.data (Fin.ofNat n i) = log[i] := by
  have hslot {k : ℕ} (hk : k < log.length) : slot w n k = Fin.ofNat n k := by
    rw [slot, Nat.mod_eq_of_lt (hk.trans hw)]
  rw [← hslot hi]
  refine h.data_of_last hi fun k hik hk heq => ?_
  -- numbers less than `n` apart are different modulo `n`
  rw [hslot hi, hslot hk, Fin.ext_iff, Fin.val_ofNat, Fin.val_ofNat] at heq
  have hdvd : n ∣ k - i := Nat.dvd_of_mod_eq_zero (Nat.sub_mod_eq_zero_of_mod_eq heq)
  have := Nat.le_of_dvd (by omega) hdvd
  omega

/-- The first `min log.length n` slots hold the last `n` values of the log, in some order. -/
theorem Holds.live_perm (h : b.Holds w log) (hw : log.length < 2 ^ w) :
    (((List.finRange n).take log.length).map b.data).Perm (log.drop (log.length - n)) := by
  rcases Nat.le_total log.length n with hshort | hlong
  · -- the slots have not been filled yet, and the values stand in their order
    rw [Nat.sub_eq_zero_of_le hshort, List.drop_zero]
    refine List.Perm.of_eq (List.ext_getElem (by simp [hshort]) fun j hj hj' => ?_)
    rw [List.getElem_map, List.getElem_take, List.getElem_finRange, ← h.data_live hw hj' (by omega)]
    congr 1
    rw [Fin.ext_iff, Fin.val_ofNat, Nat.mod_eq_of_lt (by omega)]
    rfl
  · -- all slots are live, and the oldest value stands at `log.length` modulo `n`
    rw [List.take_of_length_le (by simpa using hlong)]
    refine List.Perm.trans (List.Perm.of_eq ?_)
      (List.rotate_perm (log.drop (log.length - n)) (n - log.length % n))
    refine List.ext_getElem (by simp; omega) fun j hj hj' => ?_
    have hjn : j < n := by simpa using hj
    have hlength : (log.drop (log.length - n)).length = n := by
      rw [List.length_drop]
      omega
    simp only [List.getElem_map, List.getElem_finRange, List.getElem_rotate, List.getElem_drop,
      hlength]
    have hi : (j + (n - log.length % n)) % n < n := Nat.mod_lt _ (by omega)
    rw [← h.data_live hw (by omega) (by omega)]
    congr 1
    rw [Fin.ext_iff, Fin.val_ofNat, Nat.add_mod_mod]
    -- the number of the value is `j` up to a multiple of `n`
    have hmod : log.length % n + n * (log.length / n) = log.length := Nat.mod_add_div _ _
    have hlt : log.length % n < n := Nat.mod_lt _ (by omega)
    have hsum : log.length - n + (j + (n - log.length % n)) = j + n * (log.length / n) := by
      omega
    rw [hsum, Nat.add_mul_mod_self_left, Nat.mod_eq_of_lt hjn]
    rfl

/-! ### The untouched slots -/

/-- No value of a log of this length went to the slot. -/
def Untouched (w : ℕ) (log : List α) (j : Fin n) : Prop :=
  ∀ i, i < log.length → slot w n i ≠ j

/-- Unless the counter has wrapped, the slots untouched are those from the counter on. -/
theorem Holds.untouched_iff (h : b.Holds w log) (hw : log.length < 2 ^ w) (j : Fin n) :
    Untouched w log j ↔ b.count ≤ j := by
  rw [h.count, Nat.mod_eq_of_lt hw]
  constructor
  · intro huntouched
    by_contra hj
    -- a slot below the counter was written by the value of its own number
    refine huntouched j (by omega) ?_
    have hword : (j : ℕ) < 2 ^ w := by omega
    rw [slot, Fin.ext_iff, Fin.val_ofNat, Nat.mod_eq_of_lt hword, Nat.mod_eq_of_lt j.isLt]
  · rintro hj i hi rfl
    -- a slot at or past the counter is written by no value, by `slot_le`
    have := slot_le w n i
    omega

/-- Every slot that no value of the log went to holds `z`. -/
def Blank (w : ℕ) (z : α) (b : RingBuffer α n) (log : List α) : Prop :=
  ∀ j, Untouched w log j → b.data j = z

/-- Every value of the log that is last in its slot is `z`, unless it is in one of the first `m`
slots. -/
def Clears (w n m : ℕ) [NeZero n] (z : α) (log : List α) : Prop :=
  ∀ i (hi : i < log.length), m ≤ (slot w n i : ℕ) →
    (∀ k, i < k → k < log.length → slot w n k ≠ slot w n i) → log[i] = z

theorem blank_init (w : ℕ) (z : α) (log : List α) : Blank w z (init z : RingBuffer α n) log :=
  fun _ _ => rfl

/-- Nothing but the first `m` slots is written by a short log. -/
theorem clears_of_length_le (hlog : log.length ≤ m) : Clears w n m z log := by
  intro i hi hm
  have := slot_le w n i
  omega

/-- A push keeps the slots that it leaves untouched. -/
theorem Blank.push (hblank : b.Blank w z log) (h : b.Holds w log) (a : α) :
    (b.push w a).Blank w z (log ++ [a]) := by
  intro j hj
  have hne : j ≠ slot w n log.length := (hj log.length (by simp)).symm
  rw [h.data_push, if_neg hne]
  exact hblank j fun i hi => hj i (by simp; omega)

/-- So do pushes one after the other. -/
theorem Blank.foldl_push (hblank : b.Blank w z log) (h : b.Holds w log) (l : List α) :
    (l.foldl (RingBuffer.push w) b).Blank w z (log ++ l) := by
  induction l generalizing b log with
  | nil => simpa using hblank
  | cons a l ih =>
    rw [List.foldl_cons, List.append_cons]
    exact ih (hblank.push h a) (h.push a)

/-- A slot that is not untouched has a value that came last. -/
theorem exists_last_of_not_untouched {j : Fin n} (hj : ¬ Untouched w log j) :
    ∃ i, i < log.length ∧ slot w n i = j ∧
      ∀ k, i < k → k < log.length → slot w n k ≠ j := by
  induction log using List.reverseRecOn with
  | nil => simp [Untouched] at hj
  | append_singleton log a ih =>
    by_cases hlast : slot w n log.length = j
    · exact ⟨log.length, by simp, hlast, fun k hik hk => by simp at hk; omega⟩
    · have hbefore : ¬ Untouched w log j := by
        intro huntouched
        refine hj fun i hi => ?_
        rw [List.length_append, List.length_singleton] at hi
        rcases Nat.lt_or_eq_of_le (Nat.le_of_lt_succ hi) with hold | rfl
        · exact huntouched i hold
        · exact hlast
      -- the last push went elsewhere, and the value found before is still last
      obtain ⟨i, hi, hslot, hafter⟩ := ih hbefore
      refine ⟨i, by simp; omega, hslot, fun k hik hk => ?_⟩
      rw [List.length_append, List.length_singleton] at hk
      rcases Nat.lt_or_eq_of_le (Nat.le_of_lt_succ hk) with hold | rfl
      · exact hafter k hik hold
      · exact hlast

/-- After a reset of a blank buffer all slots hold `z` exactly when the reset clears the log. -/
theorem Blank.reset_iff (hblank : b.Blank w z log) (h : b.Holds w log) :
    (b.reset m z).Blank w z [] ↔ Clears w n m z log := by
  constructor
  · intro hreset i hi hm hlast
    -- after the reset the log is empty, and every slot has to be `z`
    have hz := hreset (slot w n i) (by simp [Untouched])
    rw [data_reset, if_neg (by omega)] at hz
    rw [← h.data_of_last hi hlast, hz]
  · intro hclears j _
    rw [data_reset]
    split
    · rfl
    · rename_i hj
      -- a slot past the first `m` keeps what it held
      by_cases huntouched : Untouched w log j
      · exact hblank j huntouched
      · obtain ⟨i, hi, rfl, hlast⟩ := exists_last_of_not_untouched huntouched
        rw [h.data_of_last hi hlast]
        exact hclears i hi (by omega) hlast

end RingBuffer
