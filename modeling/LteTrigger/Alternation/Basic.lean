import Mathlib.Data.List.Basic
import Mathlib.Tactic.Common

/-!
# Alternating words

The words of a source that raises and lowers one thing at a time. `word rise fall closed held`
is the word after the elements of `closed` have been raised and lowered in this order and the
element of `held`, if there is one, has been raised and not yet lowered.

A source that only ever raises while it holds nothing and lowers what it holds produces these
words and no others (`word_rise`, `word_fall`). In such a word the letters at even places are
rises, and the letter at an odd place lowers what the letter before it raised
(`getElem?_even`, `getElem?_odd`).
-/

namespace Alternation

variable {α β : Type*} (rise fall : α → β)

/-- Each element of `closed` raised and lowered, then that of `held` raised. -/
def word (closed : List α) (held : Option α) : List β :=
  closed.flatMap (fun a => [rise a, fall a]) ++ held.toList.map rise

variable {rise fall} {closed : List α} {held : Option α}

@[simp]
theorem word_nil_none : word rise fall [] none = [] := rfl

/-- A rise while nothing is held. -/
theorem word_rise (a : α) :
    word rise fall closed none ++ [rise a] = word rise fall closed (some a) := by
  simp [word]

/-- A fall of what is held. -/
theorem word_fall (a : α) :
    word rise fall closed (some a) ++ [fall a] = word rise fall (closed ++ [a]) none := by
  simp [word]

/-- The first element of `closed` makes the first two letters. -/
theorem word_cons (a : α) :
    word rise fall (a :: closed) held = rise a :: fall a :: word rise fall closed held := by
  simp [word]

/-- The letters at even places are rises, of elements that are closed or held. -/
theorem getElem?_even {i : ℕ} {b : β} (h : (word rise fall closed held)[2 * i]? = some b) :
    ∃ a, b = rise a ∧ (a ∈ closed ∨ held = some a) := by
  induction closed generalizing i with
  | nil =>
    cases held with
    | none => simp at h
    | some a =>
      obtain ⟨hi, hb⟩ : 2 * i = 0 ∧ rise a = b := by
        simpa [word, List.getElem?_singleton] using h
      exact ⟨a, hb.symm, .inr rfl⟩
  | cons a closed ih =>
    rw [word_cons] at h
    cases i with
    | zero => exact ⟨a, by simpa using h.symm, .inl (by simp)⟩
    | succ i =>
      obtain ⟨a', hb, hmem⟩ := ih (i := i) (by simpa [Nat.mul_add] using h)
      exact ⟨a', hb, hmem.imp_left (List.mem_cons_of_mem a)⟩

/-- The letter at an odd place lowers what the letter before it raised. -/
theorem getElem?_odd {i : ℕ} {b : β} (h : (word rise fall closed held)[2 * i + 1]? = some b) :
    ∃ a ∈ closed, (word rise fall closed held)[2 * i]? = some (rise a) ∧ b = fall a := by
  induction closed generalizing i with
  | nil =>
    cases held <;> simp [word] at h
  | cons a closed ih =>
    rw [word_cons] at h ⊢
    cases i with
    | zero => exact ⟨a, by simp, by simp, by simpa using h.symm⟩
    | succ i =>
      obtain ⟨a', hmem, heven, hb⟩ := ih (i := i) (by simpa [Nat.mul_add] using h)
      exact ⟨a', List.mem_cons_of_mem a hmem, by simpa [Nat.mul_add] using heven, hb⟩

/-- While something is held, its rise is the last letter. -/
theorem getLast?_some (a : α) : (word rise fall closed (some a)).getLast? = some (rise a) := by
  rw [← word_rise, List.getLast?_concat]

/-- While nothing is held, the last letter, if any, is a fall. -/
theorem getLast?_none {b : β} (h : (word rise fall closed none).getLast? = some b) :
    ∃ a ∈ closed, b = fall a := by
  rcases List.eq_nil_or_concat closed with rfl | ⟨closed, a, rfl⟩
  · simp at h
  · rw [List.concat_eq_append, ← word_fall, List.getLast?_concat] at h
    exact ⟨a, by simp, (Option.some.inj h).symm⟩

end Alternation
