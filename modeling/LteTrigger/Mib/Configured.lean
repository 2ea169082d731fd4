import LteTrigger.Mib.Search

/-!
# The cell the MIB decoder is set up for

`general_work` re-initialises the decoder only when a half-frame names another cell than
`d_cell`, so `d_cell` is a cache for the cell the decoder is set up for. The cache starts
with cell 0 and normal CP, for which no `srslte_ue_mib_set_cell` was made, and it is updated
before an initialisation that may fail. `unset` follows the log of a run and names the entry
that is not backed by the decoder, if there is one.

## Main results

* `cache_of_run`: the cache is right but for the entry `unset` names;
* `decodes_configured_iff`: when every decoding attempt of a run finds the decoder set up;
* `first_cell_never_set`: cell 0 with normal CP is decoded without `srslte_ue_mib_set_cell`.
-/

namespace LteTrigger

/-- What a log says about the decoder. -/
inductive Configuration
  /-- There was no initialisation, or the last one failed. -/
  | failed
  /-- The last initialisation succeeded and no cell was set since. -/
  | unset
  /-- The last initialisation succeeded and the cell set last since has this identity and
  CP. -/
  | set (cellId : ℕ) (cp : Cp)
  deriving DecidableEq, Repr

section LibCall

variable {S : Type}

/-- The effect of a call on the configuration. -/
def LibCall.configure : Configuration → LibCall S → Configuration
  | _, .ueMibInit _ _ ok => if ok then .unset else .failed
  | .failed, .ueMibSetCell _ => .failed
  | _, .ueMibSetCell cell => .set cell.id cell.cp
  | conf, _ => conf

/-- The configuration after a log. -/
def configuration (calls : List (LibCall S)) : Configuration :=
  calls.foldl LibCall.configure .failed

/-- The configuration at each `srslte_ue_mib_decode` of a log that starts in a given one. -/
def decodeConfigurations : Configuration → List (LibCall S) → List Configuration
  | _, [] => []
  | conf, .ueMibDecode _ _ _ :: calls => conf :: decodeConfigurations conf calls
  | conf, e :: calls => decodeConfigurations (e.configure conf) calls

theorem configuration_append (calls calls' : List (LibCall S)) :
    configuration (calls ++ calls') = calls'.foldl LibCall.configure (configuration calls) := by
  rw [configuration, List.foldl_append, configuration]

/-- Resets leave the configuration and decode nothing. -/
theorem foldl_configure_of_resets {calls : List (LibCall S)}
    (h : ∀ e ∈ calls, e = .ueMibReset) (conf : Configuration) :
    calls.foldl LibCall.configure conf = conf ∧ decodeConfigurations conf calls = [] := by
  induction calls with
  | nil => exact ⟨rfl, rfl⟩
  | cons e calls ih =>
    rw [h e (by simp)]
    exact ih fun e' he' => h e' (by simp [he'])

end LibCall

namespace MibImpl

variable {S Dec : Type} {lib : MibLib S Dec} {s s' s₀ : MibImpl S Dec} {c : MibCall S}
  {w : MibWork S}

/-- A re-initialisation leaves the decoder set up for its cell, or failed. -/
theorem foldl_reinitCalls (addr nofPrb : ℕ) (cell : SrslteCell) (ok : Bool)
    (conf : Configuration) :
    (reinitCalls (S := S) addr nofPrb cell ok).foldl LibCall.configure conf =
      if ok then .set cell.id cell.cp else .failed := by
  cases ok <;> rfl

/-- A decoding attempt leaves the configuration it finds. -/
theorem foldl_decodeCalls (addr : ℕ) (samples : List (HalfFrame S)) (nofPorts : ℕ)
    (unpacked : Option ℕ) (conf : Configuration) :
    (decodeCalls addr samples nofPorts unpacked).foldl LibCall.configure conf = conf := by
  cases unpacked <;> cases conf <;> rfl

theorem decodeConfigurations_reinitCalls (addr nofPrb : ℕ) (cell : SrslteCell) (ok : Bool)
    (conf : Configuration) (calls : List (LibCall S)) :
    decodeConfigurations conf (reinitCalls addr nofPrb cell ok ++ calls) =
      decodeConfigurations (if ok then .set cell.id cell.cp else .failed) calls := by
  cases ok <;> rfl

theorem decodeConfigurations_decodeCalls (addr : ℕ) (samples : List (HalfFrame S))
    (nofPorts : ℕ) (unpacked : Option ℕ) (conf : Configuration) :
    decodeConfigurations conf (decodeCalls addr samples nofPorts unpacked) = [conf] := by
  cases unpacked <;> cases conf <;> rfl

/-- The entry that is not backed by the decoder after a call that found `entry` unbacked: a
call for another cell than the cached one makes its own entry, which is backed when the
re-initialisation succeeds. -/
def unsetStep [GnuRadio] (lib : MibLib S Dec) (entry : Option (ℕ × Cp)) (s : MibImpl S Dec)
    (c : MibCall S) : Option (ℕ × Cp) :=
  match searched s c with
  | none => entry
  | some cell =>
    if cell = (s.cell.id, s.cell.cp) then entry
    else if InitSucceeds lib s then none
    else some cell

/-- The cache entry is the unbacked one, or the decoder is set up for it. -/
def CacheFor (conf : Configuration) (entry : Option (ℕ × Cp)) (s : MibImpl S Dec) : Prop :=
  match entry with
  | none => conf = .set s.cell.id s.cell.cp
  | some cell => cell = (s.cell.id, s.cell.cp) ∧ ∀ cellId cp, conf ≠ .set cellId cp

/-- Only the identity and the CP of the cell matter. -/
theorem CacheFor.of_cell_eq {conf : Configuration} {entry : Option (ℕ × Cp)}
    (h : CacheFor conf entry s) (hid : s'.cell.id = s.cell.id) (hcp : s'.cell.cp = s.cell.cp) :
    CacheFor conf entry s' := by
  cases entry with
  | none =>
    show conf = _
    rw [hid, hcp]
    exact h
  | some cell =>
    show cell = _ ∧ _
    rw [hid, hcp]
    exact h

/-- A call keeps the cache right but for the unbacked entry, and it decodes in the wrong
configuration exactly when it hits that entry. -/
theorem generalWork_cache [GnuRadio] {conf : Configuration} {entry : Option (ℕ × Cp)}
    (h : generalWork lib s c = .ok (s', w)) (hcache : CacheFor conf entry s) :
    CacheFor (w.calls.foldl LibCall.configure conf) (unsetStep lib entry s c) s' ∧
    ((∀ conf' ∈ decodeConfigurations conf w.calls,
        ∃ cellId cp, searched s c = some (cellId, cp) ∧ conf' = .set cellId cp) ↔
      ∀ cell, searched s c = some cell → entry ≠ some cell) := by
  -- a cell that is not cached is not the unbacked entry, which is cached
  have hmiss {cellId : ℕ} {cp : Cp} (hchanged : cellId ≠ s.cell.id ∨ cp ≠ s.cell.cp) :
      (cellId, cp) ≠ (s.cell.id, s.cell.cp) ∧ entry ≠ some (cellId, cp) := by
    have hne : (cellId, cp) ≠ (s.cell.id, s.cell.cp) := by
      rw [Ne, Prod.mk.injEq, not_and_or]
      exact hchanged
    refine ⟨hne, ?_⟩
    rintro rfl
    exact hne hcache.1
  rcases generalWork_calls h with
    ⟨hnone, hcell, hcalls⟩ |
    ⟨cellId, cp, hsearched, hid, hcp,
      ⟨hchanged, hstatus, hcalls, -, -⟩ | ⟨reinits, unpacked, hcalls, -, hreinits⟩⟩
  · -- no search
    obtain ⟨hconf, hdecodes⟩ := foldl_configure_of_resets hcalls conf
    rw [hconf, hdecodes, unsetStep, hnone]
    exact ⟨hcache.of_cell_eq (by rw [hcell]) (by rw [hcell]), by simp⟩
  · -- a failed re-initialisation makes its cell the unbacked entry, and decodes nothing
    obtain ⟨hne, hentry⟩ := hmiss hchanged
    rw [hcalls, foldl_reinitCalls, ← List.append_nil (reinitCalls _ _ _ _),
      decodeConfigurations_reinitCalls, unsetStep, hsearched]
    simp only [hne, hstatus, ↓reduceIte, Bool.false_eq_true]
    refine ⟨⟨by rw [hid, hcp], by simp⟩, ?_⟩
    simp [decodeConfigurations, hentry]
  · rw [hcalls, List.foldl_append, foldl_decodeCalls]
    rcases hreinits with ⟨rfl, rfl, rfl⟩ | ⟨hchanged, hstatus, rfl⟩
    · -- a hit decodes in the configuration found, which is right unless the entry is unbacked
      rw [List.foldl_nil, List.nil_append, decodeConfigurations_decodeCalls, unsetStep, hsearched]
      simp only [↓reduceIte]
      refine ⟨hcache.of_cell_eq hid hcp, ?_⟩
      cases entry with
      | none =>
        have hset : conf = .set s.cell.id s.cell.cp := hcache
        simp [hset]
      | some cell =>
        obtain ⟨rfl, hunset⟩ := hcache
        simp [hunset]
    · -- a re-initialisation that succeeds backs the entry before the decoding attempt
      obtain ⟨hne, hentry⟩ := hmiss hchanged
      rw [foldl_reinitCalls, decodeConfigurations_reinitCalls, decodeConfigurations_decodeCalls,
        unsetStep, hsearched]
      simp only [hne, hstatus, ↓reduceIte]
      refine ⟨by simp only [CacheFor, hid, hcp], ?_⟩
      simp [hentry]

section Runs

variable {tr : List (Machine.Transition (MibImpl S Dec) (MibCall S) (MibWork S))}

/-- The cache entry that is not backed by the decoder after a trace: the cell of the last
re-initialisation if that failed, cell 0 with normal CP if there was none, and otherwise
nothing. -/
def unset [GnuRadio] (lib : MibLib S Dec)
    (tr : List (Machine.Transition (MibImpl S Dec) (MibCall S) (MibWork S))) :
    Option (ℕ × Cp) :=
  tr.foldl (fun entry t => unsetStep lib entry t.pre t.input) (some (0, .norm))

/-- In a run from construction the cache is right but for the entry that is not backed. -/
theorem cache_of_run [GnuRadio] {calls : List (LibCall S)}
    (hinit : CacheFor (configuration calls) (some (0, .norm)) s₀)
    (hrun : Machine.Run (generalWork lib) s₀ tr s) :
    CacheFor (configuration (calls ++ libCalls tr)) (unset lib tr) s := by
  induction hrun with
  | nil => simpa [libCalls, unset] using hinit
  | @snoc tr u u' c w _ hstep ih =>
    have hcache := (generalWork_cache hstep ih).1
    rw [libCalls_append, ← List.append_assoc, configuration_append, unset, List.foldl_append]
    simpa [libCalls, unset] using hcache

/-- At every `srslte_ue_mib_decode` of the trace, the last initialisation of the decoder
succeeded and was followed by `srslte_ue_mib_set_cell` for the identity and CP that the
half-frame is tagged with. The log `calls` precedes the trace. -/
def DecodesConfigured [GnuRadio] (calls : List (LibCall S))
    (tr : List (Machine.Transition (MibImpl S Dec) (MibCall S) (MibWork S))) : Prop :=
  ∀ tr₁ t tr₂, tr = tr₁ ++ t :: tr₂ →
    ∀ conf ∈ decodeConfigurations (configuration (calls ++ libCalls tr₁)) t.output.calls,
      ∃ cellId cp, searched t.pre t.input = some (cellId, cp) ∧ conf = .set cellId cp

/-- No half-frame that gets as far as the cache names the entry that is not backed. -/
def AvoidsUnset [GnuRadio] (lib : MibLib S Dec)
    (tr : List (Machine.Transition (MibImpl S Dec) (MibCall S) (MibWork S))) : Prop :=
  ∀ tr₁ t tr₂, tr = tr₁ ++ t :: tr₂ → ∀ cell, searched t.pre t.input = some cell →
    unset lib tr₁ ≠ some cell

/-- The decoder is set up for every cell it decodes exactly when no half-frame hits the cache
entry of a failed initialisation or of the constructor. -/
theorem decodes_configured_iff [GnuRadio] {exitOnSuccess : Bool} {mib : Dec}
    {phichLength : PhichLength} {phichResources : PhichResources} {sfnOffset : ℤ}
    {calls : List (LibCall S)}
    (hmake : make lib exitOnSuccess mib phichLength phichResources sfnOffset = .ok (s₀, calls))
    (hrun : Machine.Run (generalWork lib) s₀ tr s) :
    DecodesConfigured calls tr ↔ AvoidsUnset lib tr := by
  obtain ⟨-, -, hid, hcp, addr, rfl⟩ := make_cell hmake
  have hinit : CacheFor (configuration [.ueMibInit (S := S) addr srslteUeMibNofPrb true])
      (some (0, .norm)) s₀ := by
    refine ⟨by rw [hid, hcp], fun cellId cp => ?_⟩
    simp [configuration, LibCall.configure]
  -- both sides speak of one transition at a time
  refine hrun.atEach_iff fun tr t hpre hstep _ => ?_
  exact (generalWork_cache hstep (cache_of_run hinit hpre)).2

/-- A cell other than the constructor's is decoded three times: an attempt that fails, one that
finds it, and one after it was lost. The decoder is initialised once, as the four outcomes say. -/
theorem decodes_configured_playback :
    ∃ tr s, Machine.Run (generalWork (.playback Unit))
        (.playback Unit [true, false, true, true] false) tr s ∧
      decodeConfigurations .unset (libCalls tr) = List.replicate 3 (.set 1 .norm) ∧ s.mib = [] ∧
      DecodesConfigured [.ueMibInit 0 srslteUeMibNofPrb true] tr := by
  let search (ref : ℕ) : MibCall Unit := ⟨.ofCell (fun _ => ()) 1 true, [], 0, ref⟩
  let lost : MibCall Unit := ⟨.trackingLost fun _ => (), [], 0, 3⟩
  have hrun : Machine.Run (generalWork (.playback Unit))
      (.playback Unit [true, false, true, true] false) _ _ :=
    .snoc (i := search 4) (.snoc (i := lost)
      (.snoc (i := search 2) (.snoc (i := search 1) .nil rfl) rfl) rfl) rfl
  refine ⟨_, _, hrun, rfl, rfl, (decodes_configured_iff (make_playback Unit _ _) hrun).mpr
    ((((Machine.atEach_nil.snoc ?_).snoc ?_).snoc ?_).snoc ?_)⟩
  · -- before the first call the unbacked entry is cell 0, and the half-frame is for cell 1
    rintro cell hcell ⟨⟩
    revert hcell
    decide
  -- from then on there is no such entry
  all_goals rintro _ - ⟨⟩

/-- A first half-frame for cell 0 with normal CP is decoded without
`srslte_ue_mib_set_cell`. -/
theorem first_cell_never_set :
    ¬ ∀ (outcomes : List Bool) tr s, Machine.Run (generalWork (.playback Unit))
      (.playback Unit outcomes false) tr s →
        DecodesConfigured [.ueMibInit 0 srslteUeMibNofPrb true] tr := by
  intro h
  let first : MibCall Unit := ⟨.ofCell (fun _ => ()) 0 true, [], 0, 1⟩
  have hrun : Machine.Run (generalWork (.playback Unit)) (.playback Unit [false] false) _ _ :=
    .snoc (i := first) .nil rfl
  obtain ⟨cellId, cp, -, hset⟩ := h _ _ _ hrun [] _ [] rfl .unset (by
    exact List.mem_singleton.mpr rfl)
  cases hset

end Runs

end MibImpl

end LteTrigger
