import LteTrigger.Alternation.Basic
import LteTrigger.Machine.Run
import LteTrigger.Mib.Step

/-!
# The messages of the `mib` block

The block publishes a cell on its port `track` and later the same object on its port `drop`,
one cell at a time. `MibImpl.held` is the cell that is published and not yet dropped, and the
messages of a run are the alternating word of the cells dropped so far and the held one.

## Main results

* `generalWork_msgs`: what one call publishes, in terms of the held cell;
* `published_word`: the messages of a run are an alternating word;
* `published_alternates`: the same, message by message.
-/

namespace LteTrigger

namespace MibImpl

variable {S Dec : Type} {lib : MibLib S Dec} {s s' s₀ : MibImpl S Dec} {c : MibCall S}
  {w : MibWork S}

/-- The cell that is published and not yet dropped. -/
def held (s : MibImpl S Dec) : Option PmtT :=
  if s.cellPublished then some s.currentTrackingCell else none

/-- A block that has no cell published points to `PMT_NIL`. -/
def Settled (s : MibImpl S Dec) : Prop :=
  s.cellPublished = false → s.currentTrackingCell = .nil

@[simp]
theorem held_receive : (s.receive c).held = s.held := by
  rw [held, held, receive_cellPublished, receive_currentTrackingCell]

/-- A lost cell is dropped if it is held. -/
theorem dropCurrentCell_msgs (lib : MibLib S Dec) (s : MibImpl S Dec) :
    (dropCurrentCell lib s).2.msgs = s.held.toList.map (Message.mk .drop) := by
  rw [dropCurrentCell, held]
  split <;> rfl

/-- The messages of a call: none, a drop of the held cell, or a new cell while none is
held. -/
theorem generalWork_msgs [GnuRadio] (h : generalWork lib s c = .ok (s', w)) (hsettled : s.Settled) :
    s'.Settled ∧
    ((w.msgs = [] ∧ s'.held = s.held) ∨
    (∃ p, s.held = some p ∧ w.msgs = [⟨.drop, p⟩] ∧ s'.held = none) ∨
    (∃ p : PmtT, s.held = none ∧ w.msgs = [⟨.track, p⟩] ∧ s'.held = some p ∧
      p.ref = c.fresh ∧ p.val ≠ .nil)) := by
  rcases generalWork_cases h with
    ⟨-, rfl, rfl⟩ | ⟨-, -, rfl, rfl⟩ | ⟨cellId, cp, hidle, -, -, rfl, rfl⟩ |
    ⟨cellId, cp, hidle, -, -, rfl, rfl⟩
  · -- a lost cell
    refine ⟨fun _ => rfl, ?_⟩
    cases hpublished : s.cellPublished with
    | true => exact .inr (.inl ⟨s.currentTrackingCell, by simp [dropCurrentCell, held, hpublished]⟩)
    | false => exact .inl (by simp [dropCurrentCell, held, hpublished])
  · -- a half-frame that is skipped
    refine ⟨?_, .inl ⟨rfl, held_receive⟩⟩
    rw [Settled, receive_cellPublished, receive_currentTrackingCell]
    exact hsettled
  · -- a decoder that could not be initialised
    refine ⟨fun _ => ?_, .inl ⟨rfl, ?_⟩⟩
    · rw [configure_currentTrackingCell, receive_currentTrackingCell, hsettled hidle]
    · rw [held, configure_cellPublished, configure_currentTrackingCell, ← held, held_receive]
  · -- a decoding attempt
    have hnone : s.held = none := by rw [held, hidle, if_neg (by simp)]
    rcases decode_msgs lib (configure lib (s.receive c) cellId cp).1 c with
      ⟨hmsgs, hpublished, hcurrent⟩ | ⟨p, hmsgs, hfresh, hval, hpublished, hcurrent⟩
    · rw [configure_cellPublished, receive_cellPublished, hidle] at hpublished
      rw [configure_currentTrackingCell, receive_currentTrackingCell, hsettled hidle] at hcurrent
      refine ⟨fun _ => hcurrent, .inl ⟨hmsgs, ?_⟩⟩
      rw [hnone, held, hpublished, if_neg (by simp)]
    · refine ⟨fun hno => by simp [hpublished] at hno, .inr (.inr ⟨p, hnone, hmsgs, ?_, hfresh,
        hval⟩)⟩
      rw [held, hpublished, hcurrent, if_pos rfl]

/-- A constructed block holds nothing. -/
theorem make_held {exitOnSuccess : Bool} {mib : Dec} {phichLength : PhichLength}
    {phichResources : PhichResources} {sfnOffset : ℤ} {calls : List (LibCall S)}
    (hmake : make lib exitOnSuccess mib phichLength phichResources sfnOffset = .ok (s, calls)) :
    s.held = none ∧ s.Settled := by
  obtain ⟨rfl, -⟩ := make_eq hmake
  exact ⟨rfl, fun _ => rfl⟩

section Runs

variable {tr tr' : List (Machine.Transition (MibImpl S Dec) (MibCall S) (MibWork S))}

/-- The messages of a trace, in the order they were published. -/
def published (tr : List (Machine.Transition (MibImpl S Dec) (MibCall S) (MibWork S))) :
    List Message :=
  tr.flatMap fun t => t.output.msgs

@[simp]
theorem published_append : published (tr ++ tr') = published tr ++ published tr' := by
  simp [published]

/-- The alternating word of cells published and dropped one after the other, and one that is
held. -/
def messages (dropped : List PmtT) (held : Option PmtT) : List Message :=
  Alternation.word (Message.mk .track) (Message.mk .drop) dropped held

/-- From a block that holds nothing, the messages of a run are the alternating word of the
cells dropped so far and the one held at the end. -/
theorem published_word [GnuRadio] (hinit : s₀.held = none ∧ s₀.Settled)
    (hrun : Machine.Run (generalWork lib) s₀ tr s) :
    s.Settled ∧ ∃ dropped, published tr = messages dropped s.held ∧
      ∀ p ∈ dropped ++ s.held.toList, p.val ≠ .nil := by
  -- by induction on the run: a drop closes the held cell, a track opens the next one
  induction hrun with
  | nil => exact ⟨hinit.2, [], by simp [published, messages, hinit.1]⟩
  | @snoc tr u u' c w _ hstep ih =>
    obtain ⟨hsettled, dropped, hword, hvals⟩ := ih
    obtain ⟨hsettled', hmsgs⟩ := generalWork_msgs hstep hsettled
    refine ⟨hsettled', ?_⟩
    rw [published_append, hword]
    rcases hmsgs with ⟨hnone, hheld⟩ | ⟨p, hheld, hdrop, hnone⟩ | ⟨p, hnone, htrack, hheld, -, hval⟩
    · exact ⟨dropped, by simp [published, hnone, hheld], by rwa [hheld]⟩
    · refine ⟨dropped ++ [p], ?_, by simpa [hheld, hnone] using hvals⟩
      rw [hheld, hnone, messages, messages, ← Alternation.word_fall]
      simp [published, hdrop]
    · refine ⟨dropped, ?_, ?_⟩
      · rw [hnone, hheld, messages, messages, ← Alternation.word_rise]
        simp [published, htrack]
      · intro q hq
        rw [hheld, Option.toList_some, List.mem_append, List.mem_singleton] at hq
        rcases hq with hq | rfl
        · exact hvals q (List.mem_append_left _ hq)
        · exact hval

/-- The messages of a block alternate between `track` and `drop`, starting with `track`. A
`drop` carries the object of the `track` before it, which is never `PMT_NIL`. The flag
`d_cell_published` is set exactly when the last message is a `track`, and then the block
points to its payload; otherwise it points to `PMT_NIL`. -/
theorem published_alternates [GnuRadio] {exitOnSuccess : Bool} {mib : Dec}
    {phichLength : PhichLength} {phichResources : PhichResources} {sfnOffset : ℤ}
    {calls : List (LibCall S)}
    (hmake : make lib exitOnSuccess mib phichLength phichResources sfnOffset = .ok (s₀, calls))
    (hrun : Machine.Run (generalWork lib) s₀ tr s) :
    (∀ i m, (published tr)[2 * i]? = some m → m.port = .track ∧ m.payload.val ≠ .nil) ∧
    (∀ i m, (published tr)[2 * i + 1]? = some m →
      m.port = .drop ∧ m.payload.val ≠ .nil ∧
        (published tr)[2 * i]? = some ⟨.track, m.payload⟩) ∧
    (s.cellPublished = true ↔ ∃ m, (published tr).getLast? = some m ∧ m.port = .track) ∧
    (∀ m, (published tr).getLast? = some m → m.port = .track →
      s.currentTrackingCell = m.payload) ∧
    (s.cellPublished = false → s.currentTrackingCell = .nil) := by
  obtain ⟨hsettled, dropped, hword, hvals⟩ := published_word (make_held hmake) hrun
  rw [hword, messages]
  -- each part is a fact about alternating words
  refine ⟨fun i m hm => ?_, fun i m hm => ?_, ?_, ?_, hsettled⟩
  · obtain ⟨p, rfl, hp⟩ := Alternation.getElem?_even hm
    exact ⟨rfl, hvals p (by simpa using hp)⟩
  · obtain ⟨p, hp, heven, rfl⟩ := Alternation.getElem?_odd hm
    exact ⟨rfl, hvals p (by simp [hp]), heven⟩
  · cases hpublished : s.cellPublished with
    | true =>
      have hheld : s.held = some s.currentTrackingCell := by rw [held, hpublished, if_pos rfl]
      rw [hheld, Alternation.getLast?_some]
      exact iff_of_true rfl ⟨_, rfl, rfl⟩
    | false =>
      have hheld : s.held = none := by rw [held, hpublished, if_neg (by simp)]
      rw [hheld]
      refine iff_of_false (by simp) ?_
      rintro ⟨m, hm, hport⟩
      obtain ⟨p, -, rfl⟩ := Alternation.getLast?_none hm
      cases hport
  · intro m hm hport
    cases hpublished : s.cellPublished with
    | true =>
      rw [held, hpublished, if_pos rfl, Alternation.getLast?_some] at hm
      rw [← Option.some.inj hm]
    | false =>
      rw [held, hpublished, if_neg (by simp)] at hm
      obtain ⟨p, -, rfl⟩ := Alternation.getLast?_none hm
      cases hport

/-- A cell that is found and then lost is dropped as the object it was tracked as. -/
theorem published_alternates_playback :
    ∃ tr s, Machine.Run (generalWork (.playback Unit)) (.playback Unit [true, true] false) tr s ∧
      (published tr).length = 2 ∧
      ∀ i m, (published tr)[2 * i + 1]? = some m →
        m.port = .drop ∧ m.payload.val ≠ .nil ∧
          (published tr)[2 * i]? = some ⟨.track, m.payload⟩ := by
  let found : MibCall Unit := ⟨.ofCell (fun _ => ()) 1 true, [], 0, 1⟩
  let lost : MibCall Unit := ⟨.trackingLost fun _ => (), [], 0, 2⟩
  have hrun : Machine.Run (generalWork (.playback Unit)) (.playback Unit [true, true] false) _ _ :=
    .snoc (i := lost) (.snoc (i := found) .nil rfl) rfl
  exact ⟨_, _, hrun, rfl, (published_alternates (make_playback Unit _ _) hrun).2.1⟩

end Runs

end MibImpl

end LteTrigger
