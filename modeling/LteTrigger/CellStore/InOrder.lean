import LteTrigger.CellStore.Calls
import LteTrigger.CellStore.Delivery
import Mathlib.Data.Fintype.Card

/-!
# Messages handled in the order they were published

When the messages of three `mib` blocks go to the store through one queue for both ports, it
handles them in the order they were published. A block holds one cell at a time and drops it
before it tracks another, so the store, which takes whatever it is sent, never holds two cells of
one block.

`CellSearch.advance` differs from `CellSearch.step` in what a handler that throws does. It does not
end the store here: its message is gone, and the store is left as it was. So in a run of `advance`
the queues may become empty although a cell was refused, as in `refused_cell`. Apart from that the
two are the same: the runs of `step` are those runs of `advance` in which no handler throws
(`run_iff_advance`), and what is shown here of runs of `advance` holds in those of `step`.

## Main definitions

* `CellSearch.advance`: an event, also when the handler of a message throws;
* `CellSearch.undropped`: the cells that were tracked and not dropped;
* `CellSearch.TrackedBy`: a block has tracked a cell;
* `CellSearch.TagsPartitioned`: the cell identities that block `i` is told are `i` modulo three.

## Main results

* `CellSearch.run_iff_advance`: which runs of `advance` are runs of `step`;
* `CellSearch.store_run`: the store of the system is called for the messages in turn;
* `CellSearch.cells_run_advance`: the store is a registry of what it did not refuse;
* `CellSearch.in_order_cells`: what the store holds when messages are handled in order.
-/

namespace LteTrigger

namespace CellStore

variable [GnuRadio]

/-- The store after a message, also when its handler throws. -/
def receive (s : CellStore) (msg : Message) : CellStore :=
  match s.handle msg with
  | .ok s' => s'
  | .error _ => s

/-- The store that a message leaves is the one that the call of its handler leaves. -/
theorem call_receive (s : CellStore) (msg : Message) :
    ∃ o, call s msg = .ok (s.receive msg, o) := by
  rw [call, CellStoreM.handle_run, receive]
  cases s.handle msg with
  | error e => exact ⟨.error e, rfl⟩
  | ok s' => exact ⟨.ok (), rfl⟩

theorem receive_drop (s : CellStore) (p : PmtT) : s.receive ⟨.drop, p⟩ = s.dropCell p := rfl

/-- A cell is stored unless its identity is that of `badCellIdVal`. -/
theorem receive_track (s : CellStore) {p : PmtT} {n : ℤ} (h : p.cellId = .ok n) :
    (s.receive ⟨.track, p⟩).cells = s.cells ++ [p].filter (·.cellId ≠ .ok 1000) := by
  simp only [receive, handle, trackCell_eq, h]
  by_cases hn : n = 1000
  · simp [hn, h]
  · simp [hn, h]

/-- A store that is a registry of what it did not refuse stays one. -/
theorem receive_cells {s : CellStore} {objects : List PmtT} {msg : Message}
    (h : s.cells = objects.filter (·.cellId ≠ .ok 1000))
    (hid : msg.port = .track → ∃ n, msg.payload.cellId = .ok n) :
    (s.receive msg).cells =
      (Registry.apply PmtT.ref objects msg.op).filter (·.cellId ≠ .ok 1000) := by
  obtain ⟨port, p⟩ := msg
  cases port with
  | track =>
    obtain ⟨n, hn⟩ := hid rfl
    rw [receive_track s hn, h, ← List.filter_append]
    rfl
  | drop =>
    -- removing by identity and filtering commute
    rw [receive_drop, dropCell, h, List.filter_comm]
    rfl

end CellStore

namespace MibImpl

variable [GnuRadio] {S Dec : Type} {lib : MibLib S Dec} {s s' : MibImpl S Dec} {c : MibCall S}
  {w : MibWork S} {p : PmtT}

/-- A cell that is published has the identity it was looked for under. -/
theorem decode_payload (lib : MibLib S Dec) (s : MibImpl S Dec) (c : MibCall S)
    (h : ⟨.track, p⟩ ∈ (decode lib s c).2.msgs) :
    ∃ cell sfn, p.val = packCell cell sfn c.now ∧ cell.id = s.cell.id := by
  unfold decode at h
  dsimp only at h
  split at h
  · split at h <;>
    · obtain rfl := (Message.mk.inj (List.mem_singleton.mp h)).2
      exact ⟨_, _, rfl, rfl⟩
  · cases h

/-- A cell that a call publishes has the identity of the half-frame's `cell_id` tag. -/
theorem cellId_of_track (h : generalWork lib s c = .ok (s', w)) (hp : ⟨.track, p⟩ ∈ w.msgs) :
    ∃ tag ∈ getTagsInWindow c.first.tags cellIdTagKey, ∃ cellId : ℕ,
      tagCellId tag = .ok cellId ∧ p.cellId = .ok (cellId : ℤ) := by
  rcases generalWork_cases h with
    ⟨-, -, rfl⟩ | ⟨-, -, -, rfl⟩ | ⟨cellId, cp, -, -, -, -, rfl⟩ |
    ⟨cellId, cp, hidle, hsearched, -, -, rfl⟩
  · rw [dropCurrentCell_msgs, List.mem_map] at hp
    obtain ⟨_, -, hport⟩ := hp
    cases hport
  · cases hp
  · cases hp
  · -- only a decoding attempt tracks, and it packs the identity of the configured cell
    obtain ⟨cell, sfn, hval, hid⟩ := decode_payload lib _ c hp
    rw [configure_cell, receive_cell] at hid
    obtain ⟨cellIdTag, cpTypeTag, hkind⟩ := kind_of_searched hsearched
    rw [searched, hkind] at hsearched
    simp only [hidle, Bool.false_eq_true, ↓reduceIte] at hsearched
    refine ⟨cellIdTag, by simp [(Frame.kind_eq_candidate hkind).2], cellId, ?_, ?_⟩
    · cases htag : tagCellId cellIdTag with
      | error e => simp [htag, Except.toOption] at hsearched
      | ok n =>
        simp only [htag, Except.toOption, Option.map_some, Option.some.injEq,
          Prod.mk.injEq] at hsearched
        rw [hsearched.1]
    · rw [PmtT.cellId, hval, CellStore.packCell_cellId, hid, toLong_fromLong]

end MibImpl

namespace CellSearch

variable {S Dec : Type}

/-- One event. Unlike in `step`, a message whose handler throws is taken from its queue as well,
and the store goes on. -/
def advance [GnuRadio] (lib : MibLib S Dec) (s : CellSearch S Dec) :
    CellSearchEvent S → Except CellSearchError (CellSearch S Dec × CellSearchWork S)
  | .mib i call => step lib s (.mib i call)
  | .deliver port =>
    match s.queue port with
    | [] => .error .starved
    | payload :: queue =>
      .ok ({ s with
          store := s.store.receive ⟨port, payload⟩
          queue := Function.update s.queue port queue },
        .deliver ⟨port, payload⟩)

/-- The cells that were tracked and not dropped, in the order they were tracked. -/
def undropped (msgs : List Message) : List PmtT :=
  (messagesOn .track msgs).filter fun p => p.ref ∉ (messagesOn .drop msgs).map PmtT.ref

/-- The block `i` has tracked the cell `p`. -/
def TrackedBy (tr : List (Transition S Dec)) (i : Fin 3) (p : PmtT) : Prop :=
  ∃ t ∈ tr, (∃ call, t.input = .mib i call) ∧ ⟨.track, p⟩ ∈ publishedIn t

/-- What the `sss` block with `N_id_2` zero, one or two tells the `mib` block it feeds: cell
identities that are `N_id_2` modulo three. -/
def TagsPartitioned [GnuRadio] (tr : List (Transition S Dec)) : Prop :=
  ∀ t ∈ tr, ∀ (i : Fin 3) call, t.input = .mib i call →
    ∀ tag ∈ getTagsInWindow call.first.tags cellIdTagKey,
      ∀ cellId, MibImpl.tagCellId tag = .ok cellId → cellId % 3 = (i : ℕ)

section Steps

variable {lib : MibLib S Dec} {s s' : CellSearch S Dec} {e : CellSearchEvent S}
  {o : CellSearchWork S} {t : Transition S Dec} {tr tr' : List (Transition S Dec)} {i : Fin 3}
  {p : PmtT}

/-- A call of a block is as in `step`, and the handling of a message always succeeds. -/
theorem advance_cases [GnuRadio] (h : advance lib s e = .ok (s', o)) :
    (∃ n call, e = .mib n call ∧ step lib s e = .ok (s', o) ∧ s'.store = s.store ∧
      ∃ w, o = .mib w) ∨
    (∃ port payload queue, e = .deliver port ∧ s.queue port = payload :: queue ∧
      o = .deliver ⟨port, payload⟩ ∧
      s' = { s with
        store := s.store.receive ⟨port, payload⟩
        queue := Function.update s.queue port queue }) := by
  cases e with
  | mib n call =>
    left
    have hstep : step lib s (.mib n call) = .ok (s', o) := h
    rcases step_cases hstep with ⟨_, _, w, -, -, ho, hs⟩ | ⟨_, _, _, hevent, -⟩
    · exact ⟨n, call, rfl, hstep, by rw [hs], w, ho⟩
    · cases hevent
  | deliver port =>
    right
    simp only [advance] at h
    split at h
    · cases h
    · rename_i payload queue hqueue
      obtain ⟨rfl, rfl⟩ := Prod.mk.inj (Except.ok.inj h)
      exact ⟨port, payload, queue, rfl, hqueue, rfl, rfl⟩

/-- The events of `step` are those of `advance` in which no handler throws. -/
theorem step_iff_advance [GnuRadio] :
    step lib s e = .ok (s', o) ↔ advance lib s e = .ok (s', o) ∧
      ∀ msg ∈ handledIn ⟨s, e, o, s'⟩, ∃ store, s.store.handle msg = .ok store := by
  constructor
  · intro hstep
    rcases step_cases hstep with
      ⟨n, call, w, rfl, -, rfl, -⟩ | ⟨port, payload, queue, rfl, hqueue, hstore, rfl, hs⟩
    · exact ⟨hstep, by simp [handledIn]⟩
    · have hreceive : s.store.receive ⟨port, payload⟩ = s'.store := by
        rw [CellStore.receive, hstore]
      refine ⟨?_, fun msg hmsg => ⟨s'.store, by rwa [List.mem_singleton.mp hmsg]⟩⟩
      rw [advance, hqueue]
      dsimp only
      rw [hreceive, ← hs]
  · rintro ⟨hadvance, hhandle⟩
    rcases advance_cases hadvance with
      ⟨n, call, -, hstep, -⟩ | ⟨port, payload, queue, rfl, hqueue, rfl, rfl⟩
    · exact hstep
    · obtain ⟨store, hstore⟩ := hhandle _ (List.mem_singleton_self _)
      simp only [step, hqueue, hstore, CellStore.receive]

/-- The runs of `step` are those of `advance` in which no handler throws. -/
theorem run_iff_advance [GnuRadio] {s₀ : CellSearch S Dec} :
    Machine.Run (step lib) s₀ tr s ↔ Machine.Run (advance lib) s₀ tr s ∧
      ∀ t ∈ tr, ∀ msg ∈ handledIn t, ∃ store, t.pre.store.handle msg = .ok store :=
  Machine.Run.iff_of_step_iff fun _ => step_iff_advance

/-- What holds in runs in which handlers may throw holds in those in which none does. -/
theorem advance_run [GnuRadio] {s₀ : CellSearch S Dec} (hrun : Machine.Run (step lib) s₀ tr s) :
    Machine.Run (advance lib) s₀ tr s := (run_iff_advance.mp hrun).1

theorem trackedBy_concat : TrackedBy (tr ++ [t]) i p ↔
    TrackedBy tr i p ∨ (∃ call, t.input = .mib i call) ∧ ⟨.track, p⟩ ∈ publishedIn t := by
  simp only [TrackedBy, List.mem_append, List.mem_singleton, or_and_right, exists_or,
    exists_eq_left]

theorem TrackedBy.append (h : TrackedBy tr i p) : TrackedBy (tr ++ tr') i p := by
  obtain ⟨t, ht, hinput, hp⟩ := h
  exact ⟨t, List.mem_append_left _ ht, hinput, hp⟩

/-- What a block tracked was published. -/
theorem TrackedBy.mem (h : TrackedBy tr i p) : ⟨.track, p⟩ ∈ published tr := by
  obtain ⟨t, ht, -, hp⟩ := h
  exact List.mem_flatMap.mpr ⟨t, ht, hp⟩

theorem mem_undropped {msgs : List Message} : p ∈ undropped msgs ↔
    ⟨.track, p⟩ ∈ msgs ∧ p.ref ∉ (messagesOn .drop msgs).map PmtT.ref := by
  rw [undropped, List.mem_filter, mem_messagesOn, decide_eq_true_eq]

theorem published_concat : published (tr ++ [t]) = published tr ++ publishedIn t := by
  simp [published]

/-! ### What the blocks hold -/

/-- The accounts of a run, by block: every cell was tracked by one block, which holds it until it
drops it. -/
structure Sourced (tr : List (Transition S Dec)) (s : CellSearch S Dec) : Prop where
  settled : ∀ i, (s.mibs i).Settled
  accounting : Accounting s.held s.nextRef (published tr)
  tracked : ∀ p, ⟨.track, p⟩ ∈ published tr → ∃ i, TrackedBy tr i p
  one : ∀ i j p q, TrackedBy tr i p → TrackedBy tr j q → p.ref = q.ref → i = j
  holds : ∀ i p, TrackedBy tr i p → p.ref ∉ (messagesOn .drop (published tr)).map PmtT.ref →
    s.held i = some p

/-- An event in which nothing is published keeps the accounts by block. -/
theorem Sourced.silent (h : Sourced tr t.pre) (hnone : publishedIn t = [])
    (hsettled : ∀ i, (t.post.mibs i).Settled) (hheld : t.post.held = t.pre.held)
    (haccounting : Accounting t.post.held t.post.nextRef (published (tr ++ [t]))) :
    Sourced (tr ++ [t]) t.post := by
  have hsame (i : Fin 3) (p : PmtT) : TrackedBy (tr ++ [t]) i p ↔ TrackedBy tr i p := by
    simp [trackedBy_concat, hnone]
  refine ⟨hsettled, haccounting, ?_, ?_, ?_⟩ <;>
    simp only [hsame, hheld, published_concat, hnone, List.append_nil]
  · exact h.tracked
  · exact h.one
  · exact h.holds

/-- A block that drops its cell holds none, and the others hold what they did. -/
theorem Sourced.drop (h : Sourced tr t.pre) (hheld : t.pre.held i = some p)
    (hdrop : publishedIn t = [⟨.drop, p⟩]) (hsettled : ∀ i, (t.post.mibs i).Settled)
    (hpost : t.post.held = Function.update t.pre.held i none)
    (haccounting : Accounting t.post.held t.post.nextRef (published (tr ++ [t]))) :
    Sourced (tr ++ [t]) t.post := by
  have hsame (j : Fin 3) (q : PmtT) : TrackedBy (tr ++ [t]) j q ↔ TrackedBy tr j q := by
    simp [trackedBy_concat, hdrop]
  refine ⟨hsettled, haccounting, ?_, ?_, ?_⟩ <;> simp only [hsame, published_concat, hdrop]
  · simpa using h.tracked
  · exact h.one
  · intro j q hq hkept
    rw [messagesOn_append, List.map_append, List.mem_append, not_or] at hkept
    have hholds := h.holds j q hq hkept.1
    by_cases hj : j = i
    · -- the cell is the one that is dropped
      rw [hj, hheld] at hholds
      obtain rfl := Option.some.inj hholds
      exact absurd (List.mem_singleton_self _) hkept.2
    · rw [hpost, Function.update_of_ne hj]
      exact hholds

/-- A block that tracks a new cell held none before. -/
theorem Sourced.track (h : Sourced tr t.pre) (hinput : ∃ call, t.input = .mib i call)
    (hnone : t.pre.held i = none) (htrack : publishedIn t = [⟨.track, p⟩])
    (href : p.ref = t.pre.nextRef) (hsettled : ∀ i, (t.post.mibs i).Settled)
    (hpost : t.post.held = Function.update t.pre.held i (some p))
    (haccounting : Accounting t.post.held t.post.nextRef (published (tr ++ [t]))) :
    Sourced (tr ++ [t]) t.post := by
  have hnew (j : Fin 3) (q : PmtT) : TrackedBy (tr ++ [t]) j q ↔
      TrackedBy tr j q ∨ j = i ∧ q = p := by
    obtain ⟨call, hinput⟩ := hinput
    simp [trackedBy_concat, htrack, hinput, eq_comm]
  -- the cells tracked before are older
  have hold {j : Fin 3} {q : PmtT} (hq : TrackedBy tr j q) : q.ref ≠ p.ref := by
    have hlt : q.ref < t.pre.nextRef := h.accounting.old _ hq.mem
    omega
  refine ⟨hsettled, haccounting, fun q hq => ?_, fun j k q r hq hr heq => ?_,
    fun j q hq hkept => ?_⟩
  · rw [published_concat, htrack, List.mem_append, List.mem_singleton] at hq
    rcases hq with hq | hq
    · obtain ⟨j, hj⟩ := h.tracked q hq
      exact ⟨j, hj.append⟩
    · exact ⟨i, (hnew i q).mpr (.inr ⟨rfl, (Message.mk.inj hq).2⟩)⟩
  · -- two cells of one identity are the same old cell or both the new one
    rcases (hnew j q).mp hq with hq | ⟨rfl, rfl⟩ <;>
      rcases (hnew k r).mp hr with hr | ⟨rfl, rfl⟩
    · exact h.one j k q r hq hr heq
    · exact absurd heq (hold hq)
    · exact absurd heq.symm (hold hr)
    · rfl
  · rw [published_concat, htrack] at hkept
    rcases (hnew j q).mp hq with hq | ⟨rfl, rfl⟩
    · have hholds := h.holds j q hq (by simpa using hkept)
      -- an old cell that is not dropped is held by another block, for this one held none
      have hj : j ≠ i := by
        rintro rfl
        rw [hnone] at hholds
        cases hholds
      rw [hpost, Function.update_of_ne hj]
      exact hholds
    · rw [hpost, Function.update_self]

/-- An event keeps the accounts by block, and at most one message is published in it. -/
theorem Sourced.advance [GnuRadio] (h : Sourced tr t.pre)
    (hstep : advance lib t.pre t.input = .ok (t.post, t.output)) :
    Sourced (tr ++ [t]) t.post ∧ (publishedIn t = [] ∨ ∃ m, publishedIn t = [m]) := by
  rcases advance_cases hstep with ⟨n, call, hinput, hstep, -⟩ | ⟨port, payload, queue, -, -, ho, hs⟩
  · have haccounting := accounting_mib h.settled h.accounting hinput hstep
    rw [← published_concat] at haccounting
    obtain ⟨hsettled, -, hcases⟩ := mib_step h.settled hinput hstep
    rcases hcases with ⟨hnone, hheld⟩ | ⟨p, hp, hdrop, hheld⟩ | ⟨p, hp, htrack, hheld, href⟩
    · exact ⟨h.silent hnone hsettled hheld haccounting, .inl hnone⟩
    · exact ⟨h.drop hp hdrop hsettled hheld haccounting, .inr ⟨_, hdrop⟩⟩
    · exact ⟨h.track ⟨call, hinput⟩ hp htrack href hsettled hheld haccounting, .inr ⟨_, htrack⟩⟩
  · -- the store does not touch the blocks
    have hnone : publishedIn t = [] := by rw [publishedIn, ho]
    have hmibs : t.post.mibs = t.pre.mibs := by rw [hs]
    have hnext : t.post.nextRef = t.pre.nextRef := by rw [hs]
    have hheld := held_of_mibs hmibs
    refine ⟨h.silent hnone (by rw [hmibs]; exact h.settled) hheld ?_, .inl hnone⟩
    rw [hheld, hnext, published_concat, hnone, List.append_nil]
    exact h.accounting

/-- Cells that were tracked up to some event and not dropped were tracked by different blocks. -/
theorem Sourced.pairwise {tr₁ tr₂ : List (Transition S Dec)} (h : Sourced (tr₁ ++ tr₂) s)
    (h₁ : Sourced tr₁ s') : (undropped (published tr₁)).Pairwise fun p q =>
      ∀ i, TrackedBy (tr₁ ++ tr₂) i p → ¬ TrackedBy (tr₁ ++ tr₂) i q := by
  have honce := h₁.accounting.accounted.added_once
  rw [additions_op, List.Nodup, List.pairwise_map] at honce
  refine (honce.sublist List.filter_sublist).imp_of_mem ?_
  intro p q hp hq hne i hip hiq
  -- the block that tracked a cell holds it at that time
  have hheld {r : PmtT} (hr : r ∈ undropped (published tr₁)) (hir : TrackedBy (tr₁ ++ tr₂) i r) :
      s'.held i = some r := by
    obtain ⟨htrack, hkept⟩ := mem_undropped.mp hr
    obtain ⟨j, hj⟩ := h₁.tracked r htrack
    obtain rfl := h.one i j r r hir hj.append rfl
    exact h₁.holds i r hj hkept
  have heq := (hheld hp hip).symm.trans (hheld hq hiq)
  exact hne (congrArg PmtT.ref (Option.some.inj heq))

end Steps

/-- Items from different sources are no more than there are sources. -/
theorem length_le_card_of_pairwise {α ι : Type} [Fintype ι] [Nonempty ι] {R : ι → α → Prop}
    {l : List α} (hsource : ∀ a ∈ l, ∃ i, R i a)
    (hpairwise : l.Pairwise fun a b => ∀ i, R i a → ¬ R i b) : l.length ≤ Fintype.card ι := by
  have htotal : ∀ a, ∃ i, a ∈ l → R i a := by
    intro a
    by_cases ha : a ∈ l
    · obtain ⟨i, hi⟩ := hsource a ha
      exact ⟨i, fun _ => hi⟩
    · exact ⟨Classical.arbitrary ι, fun h => absurd h ha⟩
  -- so the sources of the items are all different
  choose source hsource using htotal
  have hnodup : (l.map source).Nodup := by
    rw [List.Nodup, List.pairwise_map]
    refine hpairwise.imp_of_mem fun {a b} ha hb hne heq => ?_
    exact hne (source a) (hsource a ha) (heq ▸ hsource b hb)
  simpa using hnodup.length_le_card

section Runs

variable {lib : MibLib S Dec} {s : CellSearch S Dec} {tr : List (Transition S Dec)}
  {mibs : Fin 3 → MibImpl S Dec} {msgs : List Message} {i : Fin 3} {p : PmtT}

/-- The accounts by block of a run. -/
theorem sourced_run [GnuRadio] (hinit : ∀ i, (mibs i).held = none ∧ (mibs i).Settled)
    (hrun : Machine.Run (advance lib) (make mibs) tr s) : Sourced tr s := by
  induction hrun with
  | nil =>
    have hstart : Machine.Run (step lib) (make mibs) [] (make mibs) := .nil
    obtain ⟨hsettled, haccounting⟩ := accounted_run hinit hstart
    refine ⟨hsettled, haccounting, by simp [published], ?_, ?_⟩ <;> simp [TrackedBy]
  | @snoc tr s s' e o _ hstep ih => exact (Sourced.advance (t := ⟨s, e, o, s'⟩) ih hstep).1

/-- What was published up to some message was published up to some event. -/
theorem exists_run_of_prefix [GnuRadio]
    (hinit : ∀ i, (mibs i).held = none ∧ (mibs i).Settled)
    (hrun : Machine.Run (advance lib) (make mibs) tr s) (h : msgs <+: published tr) :
    ∃ tr₁ tr₂ u, tr = tr₁ ++ tr₂ ∧ Machine.Run (advance lib) (make mibs) tr₁ u ∧
      msgs = published tr₁ := by
  induction hrun with
  | nil => exact ⟨[], [], _, rfl, .nil, List.prefix_nil.mp h⟩
  | @snoc tr s s' e o hpre hstep ih =>
    -- a step publishes one message at most, so no prefix ends inside a step
    have hone := ((sourced_run hinit hpre).advance (t := ⟨s, e, o, s'⟩) hstep).2
    have hwhole (heq : msgs = published (tr ++ [⟨s, e, o, s'⟩])) :
        ∃ tr₁ tr₂ u, tr ++ [⟨s, e, o, s'⟩] = tr₁ ++ tr₂ ∧
          Machine.Run (advance lib) (make mibs) tr₁ u ∧ msgs = published tr₁ :=
      ⟨_, [], s', (List.append_nil _).symm, .snoc hpre hstep, heq⟩
    have hbefore (h : msgs <+: published tr) :
        ∃ tr₁ tr₂ u, tr ++ [⟨s, e, o, s'⟩] = tr₁ ++ tr₂ ∧
          Machine.Run (advance lib) (make mibs) tr₁ u ∧ msgs = published tr₁ := by
      obtain ⟨tr₁, tr₂, u, rfl, hrun, heq⟩ := ih h
      exact ⟨tr₁, tr₂ ++ [_], u, List.append_assoc _ _ _, hrun, heq⟩
    rw [published_concat] at h hwhole
    rcases hone with hnone | ⟨m, hm⟩
    · rw [hnone, List.append_nil] at h
      exact hbefore h
    · rw [hm] at h hwhole
      rcases List.prefix_concat_iff.mp h with heq | h
      · exact hwhole heq
      · exact hbefore h

/-- A tracked cell has the identity of a `cell_id` tag that the block was given. -/
theorem TrackedBy.cellId [GnuRadio] (hrun : Machine.Run (advance lib) (make mibs) tr s)
    (h : TrackedBy tr i p) :
    ∃ t ∈ tr, ∃ call, t.input = .mib i call ∧
      ∃ tag ∈ getTagsInWindow call.first.tags cellIdTagKey, ∃ cellId : ℕ,
        MibImpl.tagCellId tag = .ok cellId ∧ p.cellId = .ok (cellId : ℤ) := by
  obtain ⟨t, ht, ⟨call, hinput⟩, hp⟩ := h
  obtain ⟨hstep, -⟩ := hrun.cut_at_mem ht
  refine ⟨t, ht, call, hinput, ?_⟩
  rcases advance_cases hstep with ⟨_, _, -, hstep, -⟩ | ⟨_, _, _, hevent, -⟩
  · rcases step_cases hstep with ⟨n, call', w, hevent, hmib, ho, -⟩ | ⟨_, _, _, hevent, -⟩
    · obtain ⟨rfl, rfl⟩ : i = n ∧ call = call' := by simpa [hinput] using hevent
      rw [publishedIn, ho] at hp
      obtain ⟨tag, htag, hcellId⟩ := MibImpl.cellId_of_track hmib hp
      exact ⟨tag, htag, hcellId⟩
    · rw [hinput] at hevent
      cases hevent
  · rw [hinput] at hevent
    cases hevent

/-- Where the tags are partitioned, the identity of a cell tells which block has tracked it. -/
theorem TrackedBy.cellId_mod [GnuRadio] (hrun : Machine.Run (advance lib) (make mibs) tr s)
    (htags : TagsPartitioned tr) (h : TrackedBy tr i p) :
    ∃ n : ℕ, p.cellId = .ok (n : ℤ) ∧ n % 3 = (i : ℕ) := by
  obtain ⟨t, ht, call, hinput, tag, htag, n, hn, hp⟩ := h.cellId hrun
  exact ⟨n, hp, htags t ht i call hinput tag htag n hn⟩

/-- The store of a run is one that is called for the messages handled, one after the other. -/
theorem store_run [GnuRadio] (hrun : Machine.Run (advance lib) (make mibs) tr s) :
    ∃ calls, Machine.Run CellStore.call .make calls s.store ∧
      calls.map Machine.Transition.input = handled tr := by
  induction hrun with
  | nil => exact ⟨[], .nil, rfl⟩
  | @snoc tr s s' e o _ hstep ih =>
    obtain ⟨calls, hcalls, hinputs⟩ := ih
    rw [handled, List.flatMap_append, List.flatMap_singleton, ← handled]
    rcases advance_cases hstep with
      ⟨n, call, -, -, hstore, w, rfl⟩ | ⟨port, payload, queue, -, -, rfl, rfl⟩
    · -- a call of a block does not touch the store
      exact ⟨calls, by rwa [hstore], by rw [hinputs, handledIn, List.append_nil]⟩
    · obtain ⟨o, hcall⟩ := CellStore.call_receive s.store ⟨port, payload⟩
      exact ⟨_, hcalls.snoc hcall, by rw [List.map_append, hinputs]; rfl⟩

/-- The store is a registry of the cells it has handled, without those it has refused. -/
theorem cells_run_advance [GnuRadio] (hrun : Machine.Run (advance lib) (make mibs) tr s)
    (hid : ∀ p, ⟨.track, p⟩ ∈ handled tr → ∃ n, p.cellId = .ok n) :
    s.store.cells =
      (Registry.run PmtT.ref ((handled tr).map Message.op)).filter (·.cellId ≠ .ok 1000) := by
  induction hrun with
  | nil => rfl
  | @snoc tr s s' e o _ hstep ih =>
    have hhandled : handled (tr ++ [⟨s, e, o, s'⟩]) = handled tr ++ handledIn ⟨s, e, o, s'⟩ := by
      simp [handled]
    rw [hhandled] at hid ⊢
    have hcells := ih fun p hp => hid p (List.mem_append_left _ hp)
    rcases advance_cases hstep with
      ⟨n, call, -, -, hstore, w, rfl⟩ | ⟨port, payload, queue, -, -, rfl, rfl⟩
    · rw [hstore, hcells, handledIn, List.append_nil]
    · rw [handledIn, List.map_append, Registry.run, List.foldl_append, ← Registry.run]
      refine CellStore.receive_cells hcells fun htrack => hid payload ?_
      obtain rfl : port = .track := htrack
      simp [handledIn]

/-- When messages are handled in the order they were published, the store holds the cells that
were tracked and not dropped among those messages, in this order, except those with the identity
1000, which it refuses. There are at most three of them: they were tracked by different blocks.
If block `i` is only told cell identities that are `i` modulo three, their identities differ
modulo three. The latest cell is the last of them, and the store is tracking if there is one. -/
theorem in_order_cells [GnuRadio] {exitOnSuccess : Bool}
    (hmake : ∀ i, ∃ mib phichLength phichResources sfnOffset calls,
      MibImpl.make lib exitOnSuccess mib phichLength phichResources sfnOffset =
        .ok (mibs i, calls))
    (hrun : Machine.Run (advance lib) (make mibs) tr s) (horder : handled tr <+: published tr) :
    s.store.cells = (undropped (handled tr)).filter (·.cellId ≠ .ok 1000) ∧
    s.store.cells.length ≤ 3 ∧
    (∀ p ∈ s.store.cells, ∃ i, TrackedBy tr i p) ∧
    s.store.cells.Pairwise (fun p q => ∀ i, TrackedBy tr i p → ¬ TrackedBy tr i q) ∧
    (TagsPartitioned tr → s.store.cells.Pairwise fun p q =>
      ∃ m n : ℤ, p.cellId = .ok m ∧ q.cellId = .ok n ∧ m % 3 ≠ n % 3) ∧
    s.store.latestCell =
      ((undropped (handled tr)).filter (·.cellId ≠ .ok 1000)).getLast?.getD .nil ∧
    (s.store.tracking = true ↔
      ∃ p, p ∈ (undropped (handled tr)).filter (·.cellId ≠ .ok 1000)) := by
  have hinit := mibs_held hmake
  have hsourced := sourced_run hinit hrun
  -- the store is what it would be if all messages published up to some event were handled
  obtain ⟨tr₁, tr₂, u, rfl, hrun₁, hhandled⟩ := exists_run_of_prefix hinit hrun horder
  have hsourced₁ := sourced_run hinit hrun₁
  have hid (p : PmtT) (hp : ⟨.track, p⟩ ∈ handled (tr₁ ++ tr₂)) : ∃ n, p.cellId = .ok n := by
    obtain ⟨i, hi⟩ := hsourced.tracked p (horder.subset hp)
    obtain ⟨_, _, _, _, _, _, n, -, hn⟩ := hi.cellId hrun
    exact ⟨n, hn⟩
  have hcells : s.store.cells =
      (undropped (handled (tr₁ ++ tr₂))).filter (·.cellId ≠ .ok 1000) := by
    -- every drop comes after its track, so the registry is a filter of the tracked cells
    have haccounted := hsourced₁.accounting.accounted
    rw [← hhandled] at haccounted
    rw [cells_run_advance hrun hid, Registry.run_eq_filter haccounted, additions_op, removals_op,
      undropped]
  -- each of them was held by its block when `tr₁` ended
  have hsub : s.store.cells.Sublist (undropped (published tr₁)) := by
    rw [hcells, hhandled]
    exact List.filter_sublist
  have hsource : ∀ p ∈ s.store.cells, ∃ i, TrackedBy (tr₁ ++ tr₂) i p := by
    intro p hp
    obtain ⟨i, hi⟩ := hsourced₁.tracked p (mem_undropped.mp (hsub.subset hp)).1
    exact ⟨i, hi.append⟩
  have hpairwise := (hsourced.pairwise hsourced₁).sublist hsub
  refine ⟨hcells, ?_, hsource, hpairwise, fun htags => ?_, by rw [← hcells, CellStore.latestCell],
    ?_⟩
  · simpa using length_le_card_of_pairwise hsource hpairwise
  · -- cells whose identities agree modulo three were tracked by the same block
    refine hpairwise.imp_of_mem fun {p q} hp hq hne => ?_
    obtain ⟨i, hi⟩ := hsource p hp
    obtain ⟨j, hj⟩ := hsource q hq
    obtain ⟨m, hm, hmi⟩ := hi.cellId_mod hrun htags
    obtain ⟨n, hn, hnj⟩ := hj.cellId_mod hrun htags
    refine ⟨m, n, hm, hn, fun heq => hne i hi ?_⟩
    have hij : i = j := Fin.ext (by omega)
    rwa [hij]
  · rw [← hcells, CellStore.tracking, Bool.not_eq_true', List.isEmpty_eq_false_iff]
    constructor
    · exact List.exists_mem_of_ne_nil _
    · rintro ⟨p, hp⟩
      exact List.ne_nil_of_mem hp

/-- Two blocks track cell 1 and cell 3, and the store handles the messages as they come. -/
theorem in_order_cells_playback :
    ∃ tr s, Machine.Run (advance (.playback Unit))
        (make fun _ => .playback Unit [true, true] false) tr s ∧
      (handled tr).length = 2 ∧ s.store.cells.Pairwise fun p q =>
        ∃ m n : ℤ, p.cellId = .ok m ∧ q.cellId = .ok n ∧ m % 3 ≠ n % 3 := by
  have hfirst : Machine.Run (advance (.playback Unit))
      (make fun _ => .playback Unit [true, true] false) _ _ :=
    .snoc (i := .mib 1 ⟨.ofCell (fun _ => ()) 1 true, [], 0, 0⟩) .nil rfl
  have hsecond := Machine.Run.snoc (i := .mib 0 ⟨.ofCell (fun _ => ()) 3 true, [], 0, 0⟩)
    hfirst rfl
  have hthird := Machine.Run.snoc (i := .deliver .track) hsecond rfl
  have hrun := Machine.Run.snoc (i := .deliver .track) hthird rfl
  have hcells := in_order_cells
    (fun _ => ⟨_, _, _, _, _, MibImpl.make_playback Unit [true, true] false⟩) hrun ⟨[], rfl⟩
  refine ⟨_, _, hrun, rfl, hcells.2.2.2.2.1 fun t ht i call hinput tag htag cellId hcellId => ?_⟩
  -- each block is given one tag
  simp only [List.nil_append, List.cons_append, List.mem_cons, List.not_mem_nil, or_false] at ht
  rcases ht with rfl | rfl | rfl | rfl <;> cases hinput
  all_goals
    obtain rfl := List.mem_singleton.mp htag
    obtain rfl := Except.ok.inj hcellId
    rfl

/-- A cell with the identity 1000 is published and handled, and the store does not hold it. -/
theorem refused_cell :
    ¬ ∀ (outcomes : List Bool) tr s, Machine.Run (advance (.playback Unit))
        (make fun _ => .playback Unit outcomes false) tr s →
      handled tr <+: published tr → TagsPartitioned tr →
        s.store.cells = undropped (handled tr) := by
  intro h
  have hfound : Machine.Run (advance (.playback Unit))
      (make fun _ => .playback Unit [true, true] false) _ _ :=
    .snoc (i := .mib 1 ⟨.ofCell (fun _ => ()) 1000 true, [], 0, 0⟩) .nil rfl
  have hrun := Machine.Run.snoc (i := .deliver .track) hfound rfl
  have hcells := h _ _ _ hrun ⟨[], rfl⟩ fun t ht i call hinput tag htag cellId hcellId => by
    simp only [List.nil_append, List.cons_append, List.mem_cons, List.not_mem_nil, or_false] at ht
    rcases ht with rfl | rfl <;> cases hinput
    obtain rfl := List.mem_singleton.mp htag
    obtain rfl := Except.ok.inj hcellId
    rfl
  cases hcells

end Runs

end CellSearch

end LteTrigger
