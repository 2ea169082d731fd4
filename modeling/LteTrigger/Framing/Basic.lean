import Mathlib.Data.List.Infix
import Mathlib.Data.List.TakeWhile
import Mathlib.Tactic.Common

/-!
# Texts with their lengths in front

A frame is a text behind its length, which is a decimal number on a line of its own. The text may
contain anything, line breaks and digits too. Frames can be told apart when they are written to a
stream one after the other, and a reader that has only the first part of the stream finds the
frames that are whole, and no others.

## Main definitions

* `frame`, `frames`: a text, and several of them, on a stream;
* `unframe`: the first frame of a stream and what follows it;
* `read`: all frames at the start of a stream, and what is left.

## Main results

* `read_frames`: what was written is read;
* `read_of_part`: a reader that has a part of the stream.
-/

namespace Framing

/-- A text behind its length. -/
def frame (text : List Char) : List Char := Nat.toDigits 10 text.length ++ '\n' :: text

/-- The frames of texts, one after the other. -/
def frames (texts : List (List Char)) : List Char := texts.flatMap frame

/-- The text of the frame that a stream starts with, and what follows it. -/
def unframe (stream : List Char) : Option (List Char × List Char) :=
  match stream.dropWhile Char.isDigit with
  | '\n' :: rest =>
    let length := Nat.ofDigitChars 10 (stream.takeWhile Char.isDigit) 0
    if length ≤ rest.length then some (rest.take length, rest.drop length) else none
  | _ => none

variable {stream text rest : List Char} {texts : List (List Char)}

@[simp]
theorem frames_nil : frames [] = [] := rfl

@[simp]
theorem frames_cons (text : List Char) (texts : List (List Char)) :
    frames (text :: texts) = frame text ++ frames texts := rfl

theorem frames_append (texts texts' : List (List Char)) :
    frames (texts ++ texts') = frames texts ++ frames texts' := List.flatMap_append

/-- A length is written in digits. -/
theorem isDigit_toDigits (n : ℕ) : ∀ c ∈ Nat.toDigits 10 n, c.isDigit = true := fun _ hc =>
  Nat.isDigit_of_mem_toDigits (by decide) (by decide) hc

/-- The length of a stream is read up to the line break. -/
theorem unframe_digits (n : ℕ) (rest : List Char) :
    unframe (Nat.toDigits 10 n ++ '\n' :: rest) =
      if n ≤ rest.length then some (rest.take n, rest.drop n) else none := by
  have hbreak : ¬ ('\n'.isDigit = true) := by decide
  have htake : (Nat.toDigits 10 n ++ '\n' :: rest).takeWhile Char.isDigit = Nat.toDigits 10 n := by
    rw [List.takeWhile_append_of_pos (isDigit_toDigits n), List.takeWhile_cons_of_neg hbreak,
      List.append_nil]
  have hdrop : (Nat.toDigits 10 n ++ '\n' :: rest).dropWhile Char.isDigit = '\n' :: rest := by
    rw [List.dropWhile_append_of_pos (isDigit_toDigits n), List.dropWhile_cons_of_neg hbreak]
  rw [unframe, hdrop, htake]
  simp only [Nat.ofDigitChars_ten_toDigits]

/-- A frame is read back, whatever follows it. -/
theorem unframe_frame_append (text rest : List Char) :
    unframe (frame text ++ rest) = some (text, rest) := by
  rw [frame, List.append_assoc, List.cons_append, unframe_digits]
  simp

/-- What follows a frame is shorter than the stream. -/
theorem length_of_unframe (h : unframe stream = some (text, rest)) :
    rest.length < stream.length := by
  unfold unframe at h
  split at h
  · rename_i tail hdrop
    dsimp only at h
    split at h
    · obtain ⟨-, rfl⟩ := Prod.mk.inj (Option.some.inj h)
      have hlength := (List.dropWhile_suffix Char.isDigit (l := stream)).length_le
      rw [hdrop, List.length_cons] at hlength
      rw [List.length_drop]
      omega
    · cases h
  · cases h

/-- Without a line break nothing is read. -/
theorem unframe_of_isDigit (h : ∀ c ∈ stream, c.isDigit = true) : unframe stream = none := by
  rw [unframe, List.dropWhile_eq_nil_iff.mpr h]

/-- A frame that is not whole is not read. -/
theorem unframe_of_part (h : stream <+: frame text) (hne : stream ≠ frame text) :
    unframe stream = none := by
  have hdigits := isDigit_toDigits text.length
  rcases List.prefix_or_prefix_of_prefix h (List.prefix_append _ _) with hpart | ⟨tail, rfl⟩
  · exact unframe_of_isDigit fun c hc => hdigits c (hpart.subset hc)
  · rw [frame, List.prefix_append_right_inj] at h
    cases tail with
    | nil =>
      rw [List.append_nil]
      exact unframe_of_isDigit hdigits
    | cons c tail =>
      obtain ⟨rfl, htail⟩ := List.cons_prefix_cons.mp h
      -- the text is not complete
      rw [unframe_digits, if_neg]
      intro hlength
      exact hne (by rw [frame, htail.eq_of_length_le hlength])

/-- All frames at the start of a stream, and what is left. -/
def read (stream : List Char) : List (List Char) × List Char :=
  match _h : unframe stream with
  | none => ([], stream)
  | some (text, rest) => ((text :: (read rest).1), (read rest).2)
termination_by stream.length
decreasing_by all_goals exact length_of_unframe _h

theorem read_of_unframe_eq_none (h : unframe stream = none) : read stream = ([], stream) := by
  rw [read]
  split
  · rfl
  · rename_i hsome
    rw [h] at hsome
    cases hsome

theorem read_of_unframe_eq_some (h : unframe stream = some (text, rest)) :
    read stream = (text :: (read rest).1, (read rest).2) := by
  rw [read]
  split
  · rename_i hnone
    rw [h] at hnone
    cases hnone
  · rename_i hsome
    rw [h] at hsome
    obtain ⟨rfl, rfl⟩ := Prod.mk.inj (Option.some.inj hsome)
    rfl

/-- Frames are read back, whatever follows them. -/
theorem read_frames_append (texts : List (List Char)) (rest : List Char) :
    read (frames texts ++ rest) = (texts ++ (read rest).1, (read rest).2) := by
  induction texts with
  | nil => rfl
  | cons text texts ih =>
    rw [frames_cons, List.append_assoc, read_of_unframe_eq_some (unframe_frame_append _ _), ih,
      List.cons_append]

/-- What was written is read. -/
theorem read_frames (texts : List (List Char)) : read (frames texts) = (texts, []) := by
  have hnil : read [] = ([], []) := read_of_unframe_eq_none rfl
  have hread := read_frames_append texts []
  rwa [List.append_nil, hnil, List.append_nil] at hread

/-- A part of a stream is whole frames and a part of the next one. -/
theorem exists_of_part (h : stream <+: frames texts) :
    ∃ whole rest later, texts = whole ++ later ∧ stream = frames whole ++ rest ∧
      ((rest = [] ∧ later = []) ∨
      ∃ text later', later = text :: later' ∧ rest <+: frame text ∧ rest ≠ frame text) := by
  induction texts generalizing stream with
  | nil => exact ⟨[], stream, [], rfl, rfl, .inl ⟨List.prefix_nil.mp h, rfl⟩⟩
  | cons text texts ih =>
    by_cases hwhole : frame text <+: stream
    · -- the first frame is whole
      obtain ⟨stream, rfl⟩ := hwhole
      rw [frames_cons, List.prefix_append_right_inj] at h
      obtain ⟨whole, rest, later, rfl, rfl, hlater⟩ := ih h
      exact ⟨text :: whole, rest, later, rfl, by rw [frames_cons, List.append_assoc], hlater⟩
    · refine ⟨[], stream, text :: texts, rfl, rfl, .inr ⟨text, texts, rfl, ?_, ?_⟩⟩
      · exact (List.prefix_or_prefix_of_prefix h (List.prefix_append _ _)).resolve_right hwhole
      · rintro rfl
        exact hwhole List.prefix_rfl

/-- A reader that has a part of a stream reads the frames of it that are whole, and leaves the
rest. -/
theorem read_of_part (h : stream <+: frames texts) :
    (read stream).1 <+: texts ∧ frames (read stream).1 ++ (read stream).2 = stream ∧
      ∀ whole, whole <+: texts → frames whole <+: stream → whole <+: (read stream).1 := by
  obtain ⟨whole, rest, later, rfl, rfl, hlater⟩ := exists_of_part h
  have hrest : read rest = ([], rest) := by
    refine read_of_unframe_eq_none ?_
    rcases hlater with ⟨rfl, -⟩ | ⟨text, later', -, hpart, hne⟩
    · rfl
    · exact unframe_of_part hpart hne
  rw [read_frames_append, hrest, List.append_nil]
  refine ⟨List.prefix_append _ _, rfl, fun whole' hwhole' hframes => ?_⟩
  rcases List.prefix_or_prefix_of_prefix hwhole' (List.prefix_append whole later) with
    hle | ⟨more, rfl⟩
  · exact hle
  · -- no more than the whole frames fit in
    rw [List.prefix_append_right_inj] at hwhole'
    rw [frames_append, List.prefix_append_right_inj] at hframes
    cases more with
    | nil => rw [List.append_nil]
    | cons text more =>
      exfalso
      rcases hlater with ⟨-, rfl⟩ | ⟨text', later', rfl, hpart, hne⟩
      · cases List.prefix_nil.mp hwhole'
      · obtain ⟨rfl, -⟩ := List.cons_prefix_cons.mp hwhole'
        have hframe : frame text <+: rest := (List.prefix_append _ _).trans hframes
        exact hne (hpart.eq_of_length_le hframe.length_le)

end Framing
