import LteTrigger.Handle.Basic
import LteTrigger.Mib.Configured

/-!
# The contexts of the MIB decoder

`srslte_ue_mib_init` allocates a decoder context in `d_mib` and `srslte_ue_mib_free` frees it.
The destructor frees one, and nothing else does: the call that initialises the decoder for
another cell resets it before, but does not free it. So nothing leaks only as long as every cell
is the one that the constructor has filled in.

## Main definitions

* `lifetime`: what is done to `d_mib` from the constructor to the destructor;
* `OnlyFirstCell`: every cell looked for is the constructor's.

## Main result

* `contexts_paired_iff`: when no context leaks.
-/

namespace LteTrigger

/-- What a library call does to the context, if anything. -/
def LibCall.handleOp {S : Type} : LibCall S → Option HandleOp
  | .ueMibInit _ _ ok => some (.acquire ok)
  | _ => none

namespace MibImpl

variable {S Dec : Type} {lib : MibLib S Dec} {s s' s₀ : MibImpl S Dec} {c : MibCall S}
  {w : MibWork S} {tr : List (Machine.Transition (MibImpl S Dec) (MibCall S) (MibWork S))}
  {exitOnSuccess : Bool} {mib : Dec} {phichLength : PhichLength}
  {phichResources : PhichResources} {sfnOffset : ℤ} {calls : List (LibCall S)}

/-- The destructor `mib_impl::~mib_impl`: it calls `srslte_ue_mib_free`. -/
def destroy : List HandleOp := [.release]

/-- All that is done to the context of a block that is constructed, run and destroyed. The log
`calls` is that of the constructor. -/
def lifetime (calls : List (LibCall S))
    (tr : List (Machine.Transition (MibImpl S Dec) (MibCall S) (MibWork S))) : List HandleOp :=
  (calls ++ libCalls tr).filterMap LibCall.handleOp ++ destroy

/-- Every half-frame that is checked against the cached cell is for cell 0 with normal CP. -/
def OnlyFirstCell [GnuRadio]
    (tr : List (Machine.Transition (MibImpl S Dec) (MibCall S) (MibWork S))) : Prop :=
  Machine.AtEach (fun _ t => ∀ cell, searched t.pre t.input = some cell → cell = (0, .norm)) tr

/-- No call frees the context. -/
theorem release_notMem (calls : List (LibCall S)) :
    .release ∉ calls.filterMap LibCall.handleOp := by
  intro h
  obtain ⟨e, -, he⟩ := List.mem_filterMap.mp h
  cases e <;> cases he

/-- A call leaves the context alone exactly when it does not ask for another cell than the cached
one, and then it leaves the cached cell as well. -/
theorem generalWork_handleOps [GnuRadio] (h : generalWork lib s c = .ok (s', w)) :
    (w.calls.filterMap LibCall.handleOp = [] ↔ ¬ Reinits s c) ∧
    (¬ Reinits s c → s'.cell.id = s.cell.id ∧ s'.cell.cp = s.cell.cp) := by
  rcases generalWork_calls h with
    ⟨hnone, hcell, hcalls⟩ |
    ⟨cellId, cp, hsearched, hid, hcp,
      ⟨hchanged, -, hcalls, -, -⟩ | ⟨reinits, unpacked, hcalls, -, hreinits⟩⟩
  · have hkept := not_reinits_of_not_searched hnone
    refine ⟨iff_of_true (List.filterMap_eq_nil_iff.mpr fun e he => ?_) hkept, fun _ => ?_⟩
    · rw [hcalls e he]
      rfl
    · rw [hcell]
      exact ⟨rfl, rfl⟩
  · -- also an initialisation that fails is one
    have hreinit := (reinits_iff_of_searched hsearched).mpr hchanged
    simp [hreinit, hcalls, reinitCalls, LibCall.handleOp]
  · rcases hreinits with ⟨rfl, rfl, rfl⟩ | ⟨hchanged, -, rfl⟩
    · -- the cached cell is decoded without a new context
      have hkept : ¬ Reinits s c := by
        rw [reinits_iff_of_searched hsearched]
        exact fun hchanged => hchanged.elim (· rfl) (· rfl)
      refine ⟨iff_of_true ?_ hkept, fun _ => ⟨hid, hcp⟩⟩
      rw [hcalls]
      cases unpacked <;> rfl
    · have hreinit := (reinits_iff_of_searched hsearched).mpr hchanged
      simp [hreinit, hcalls, reinitCalls, LibCall.handleOp]

/-- While no call asks for another cell, the cached cell is the constructor's. -/
theorem cell_of_run [GnuRadio] (hrun : Machine.Run (generalWork lib) s₀ tr s)
    (hnone : Machine.AtEach (fun _ t => ¬ Reinits t.pre t.input) tr) :
    s.cell.id = s₀.cell.id ∧ s.cell.cp = s₀.cell.cp := by
  induction hrun with
  | nil => exact ⟨rfl, rfl⟩
  | snoc _ hstep ih =>
    obtain ⟨hbefore, hlast⟩ := Machine.atEach_concat.mp hnone
    obtain ⟨hid, hcp⟩ := (generalWork_handleOps hstep).2 hlast
    rw [hid, hcp]
    exact ih hbefore

/-- The context is left alone exactly when no call asks for another cell. -/
theorem handleOps_eq_nil_iff [GnuRadio] (hrun : Machine.Run (generalWork lib) s₀ tr s) :
    (libCalls tr).filterMap LibCall.handleOp = [] ↔
      Machine.AtEach (fun _ t => ¬ Reinits t.pre t.input) tr := by
  induction hrun with
  | nil => exact iff_of_true rfl Machine.atEach_nil
  | snoc _ hstep ih =>
    rw [libCalls_append, List.filterMap_append, List.append_eq_nil_iff, ih, Machine.atEach_concat]
    refine and_congr_right fun _ => ?_
    simpa [libCalls] using (generalWork_handleOps hstep).1

/-- Calls that never ask for another cell are those that ask for the constructor's only. -/
theorem onlyFirstCell_iff [GnuRadio] (hid : s₀.cell.id = 0) (hcp : s₀.cell.cp = .norm)
    (hrun : Machine.Run (generalWork lib) s₀ tr s) :
    Machine.AtEach (fun _ t => ¬ Reinits t.pre t.input) tr ↔ OnlyFirstCell tr := by
  refine hrun.atEach_iff fun tr t hpre _ hbefore => ?_
  obtain ⟨hid', hcp'⟩ := cell_of_run hpre hbefore
  rw [hid] at hid'
  rw [hcp] at hcp'
  -- so far the cached cell is cell 0 with normal CP
  simp only [Reinits, hid', hcp', not_exists, not_and, not_or, not_not, Prod.forall,
    Prod.mk.injEq]

/-- No context leaks from the construction to the destruction of a block exactly when every
half-frame that is checked against the cached cell is for cell 0 with normal CP. -/
theorem contexts_paired_iff [GnuRadio]
    (hmake : make lib exitOnSuccess mib phichLength phichResources sfnOffset = .ok (s₀, calls))
    (hrun : Machine.Run (generalWork lib) s₀ tr s) :
    HandleOp.Paired (lifetime calls tr) ↔ OnlyFirstCell tr := by
  obtain ⟨-, -, hid, hcp, addr, rfl⟩ := make_cell hmake
  rw [← onlyFirstCell_iff hid hcp hrun, ← handleOps_eq_nil_iff hrun]
  exact HandleOp.paired_iff_nil (release_notMem _)

/-- The cell that the constructor has filled in is found, lost and found again. -/
theorem contexts_paired_playback :
    ∃ tr s, Machine.Run (generalWork (.playback Unit)) (.playback Unit [true, true] false) tr s ∧
      tr.length = 3 ∧ s.mib = [] ∧ s.cellPublished = true ∧
      HandleOp.Paired (lifetime [.ueMibInit 0 srslteUeMibNofPrb true] tr) := by
  let search (ref : ℕ) : MibCall Unit := ⟨.ofCell (fun _ => ()) 0 true, [], 0, ref⟩
  let lost : MibCall Unit := ⟨.trackingLost fun _ => (), [], 0, 2⟩
  have hrun : Machine.Run (generalWork (.playback Unit)) (.playback Unit [true, true] false) _ _ :=
    .snoc (i := search 3) (.snoc (i := lost) (.snoc (i := search 1) .nil rfl) rfl) rfl
  refine ⟨_, _, hrun, rfl, rfl, rfl, (contexts_paired_iff (make_playback Unit _ _) hrun).mpr
    (((Machine.atEach_nil.snoc ?_).snoc ?_).snoc ?_)⟩
  · exact fun cell hcell => (Option.some.inj hcell).symm
  · exact fun cell hcell => nomatch hcell
  · exact fun cell hcell => (Option.some.inj hcell).symm

/-- The context of the constructor is still there when the decoder is initialised for cell 1. -/
theorem reinit_leaks :
    ¬ ∀ (outcomes : List Bool) tr s, Machine.Run (generalWork (.playback Unit))
      (.playback Unit outcomes false) tr s →
        HandleOp.Paired (lifetime [.ueMibInit 0 srslteUeMibNofPrb true] tr) := by
  intro h
  have hrun : Machine.Run (generalWork (.playback Unit)) (.playback Unit [true] false) _ _ :=
    .snoc (i := ⟨.ofCell (fun _ => ()) 1 true, [], 0, 1⟩) .nil rfl
  have hbalanced := (h _ _ _ hrun).balanced
  revert hbalanced
  decide +kernel

end MibImpl

end LteTrigger
