import LteTrigger.Mib.Configured
import LteTrigger.Storage.Basic

/-!
# The storage the MIB decoder reads

`srslte_ue_mib_init` takes down the address of `d_sf_buffer[0]`, and every call assigns its
samples to that vector, which moves when they do not fit. The constructor makes room for less
than the shortest call brings, so the address it takes down is out of date with the first call.
After that the address is out of date once a call brings more samples than every call up to the
last re-initialisation.

## Main definitions

* `captured`: the address that the decoder has taken down, by the log;
* `DecodesCurrent`: every decoding attempt reads the samples of its call;
* `NotOutgrown`: since the last re-initialisation no call was larger than all up to it.

## Main result

* `decodes_current_iff`: when the decoder reads the samples of the call.
-/

namespace LteTrigger

/-- What one `srslte_ue_mib_decode` reads: the address the decoder has taken down, and where the
buffer is and what it holds at that time. -/
structure DecodeRead (S : Type) where
  /-- The address the decoder reads. -/
  captured : Option ℕ
  /-- The address of the buffer. -/
  addr : ℕ
  /-- The samples in the buffer. -/
  samples : List (HalfFrame S)

section LibCall

variable {S : Type}

/-- The effect of a call on the address the decoder has taken down. Whether an initialisation
succeeds does not matter. -/
def LibCall.capture : Option ℕ → LibCall S → Option ℕ
  | _, .ueMibInit addr _ _ => some addr
  | captured, _ => captured

/-- The address that the decoder has taken down after a log. -/
def captured (calls : List (LibCall S)) : Option ℕ := calls.foldl LibCall.capture none

/-- What is read at each `srslte_ue_mib_decode` of a log that starts with an address taken
down. -/
def decodeReads : Option ℕ → List (LibCall S) → List (DecodeRead S)
  | _, [] => []
  | captured, .ueMibDecode addr samples _ :: calls =>
    ⟨captured, addr, samples⟩ :: decodeReads captured calls
  | captured, e :: calls => decodeReads (e.capture captured) calls

theorem captured_append (calls calls' : List (LibCall S)) :
    captured (calls ++ calls') = calls'.foldl LibCall.capture (captured calls) := by
  rw [captured, List.foldl_append, captured]

/-- Resets take down nothing and read nothing. -/
theorem foldl_capture_of_resets {calls : List (LibCall S)} (h : ∀ e ∈ calls, e = .ueMibReset)
    (addr : Option ℕ) : calls.foldl LibCall.capture addr = addr ∧ decodeReads addr calls = [] := by
  induction calls with
  | nil => exact ⟨rfl, rfl⟩
  | cons e calls ih =>
    rw [h e (by simp)]
    exact ih fun e' he' => h e' (by simp [he'])

end LibCall

/-- The storage of the buffer. -/
def SampleBuffer.storage {S : Type} (b : SampleBuffer S) : Storage := ⟨b.addr, b.capacity⟩

theorem SampleBuffer.storage_assign {S : Type} (b : SampleBuffer S) (v : List (HalfFrame S)) :
    (b.assign v).storage = b.storage.fit (v.length * halfFrameLength) := by
  unfold assign Storage.fit storage
  split <;> rfl

namespace MibImpl

variable {S Dec : Type} {lib : MibLib S Dec} {s s' s₀ : MibImpl S Dec} {c : MibCall S}
  {w : MibWork S}

theorem foldl_capture_reinitCalls (addr nofPrb : ℕ) (cell : SrslteCell) (ok : Bool)
    (captured : Option ℕ) :
    (reinitCalls (S := S) addr nofPrb cell ok).foldl LibCall.capture captured = some addr := by
  cases ok <;> rfl

theorem foldl_capture_decodeCalls (addr : ℕ) (samples : List (HalfFrame S)) (nofPorts : ℕ)
    (unpacked captured : Option ℕ) :
    (decodeCalls addr samples nofPorts unpacked).foldl LibCall.capture captured = captured := by
  cases unpacked <;> rfl

theorem decodeReads_reinitCalls (addr nofPrb : ℕ) (cell : SrslteCell) (ok : Bool)
    (captured : Option ℕ) (calls : List (LibCall S)) :
    decodeReads captured (reinitCalls addr nofPrb cell ok ++ calls) =
      decodeReads (some addr) calls := by
  cases ok <;> rfl

theorem decodeReads_decodeCalls (addr : ℕ) (samples : List (HalfFrame S)) (nofPorts : ℕ)
    (unpacked captured : Option ℕ) :
    decodeReads captured (decodeCalls addr samples nofPorts unpacked) =
      [⟨captured, addr, samples⟩] := by
  cases unpacked <;> rfl

/-- A call that asks for another cell takes down where the buffer is, and no other call takes
down anything. A decoding attempt reads the samples of the call exactly when the address taken
down after the call is that of the buffer. -/
theorem generalWork_captured [GnuRadio] (h : generalWork lib s c = .ok (s', w)) (addr : Option ℕ) :
    (Reinits s c → w.calls.foldl LibCall.capture addr = some s'.sfBuffer.addr) ∧
    (¬ Reinits s c → w.calls.foldl LibCall.capture addr = addr) ∧
    ((∀ r ∈ decodeReads addr w.calls, r.captured = some r.addr ∧ r.samples = c.v) ↔
      ((searched s c).isSome = true →
        w.calls.foldl LibCall.capture addr = some s'.sfBuffer.addr)) := by
  rcases generalWork_calls h with
    ⟨hnone, -, hcalls⟩ |
    ⟨cellId, cp, hsearched, -, -,
      ⟨hchanged, -, hcalls, -, -⟩ | ⟨reinits, unpacked, hcalls, -, hreinits⟩⟩
  · -- no search
    obtain ⟨hcapture, hreads⟩ := foldl_capture_of_resets hcalls addr
    have hkept := not_reinits_of_not_searched hnone
    simp [hcapture, hreads, hkept, hnone]
  · -- a failed re-initialisation takes down the address as well, and nothing is read
    have hreinit := (reinits_iff_of_searched hsearched).mpr hchanged
    have hreads : decodeReads addr w.calls = [] := by
      rw [hcalls, ← List.append_nil (reinitCalls _ _ _ _), decodeReads_reinitCalls]
      rfl
    have hcapture : w.calls.foldl LibCall.capture addr = some s'.sfBuffer.addr := by
      rw [hcalls, foldl_capture_reinitCalls]
    simp [hreinit, hreads, hcapture]
  · rw [hcalls, List.foldl_append, foldl_capture_decodeCalls]
    rcases hreinits with ⟨hid, hcp, rfl⟩ | ⟨hchanged, -, rfl⟩
    · -- the cached cell: the decoder reads from where it was told before
      have hkept : ¬ Reinits s c := by
        rw [reinits_iff_of_searched hsearched]
        exact fun hchanged => hchanged.elim (· hid) (· hcp)
      simp [hkept, hsearched, decodeReads_decodeCalls]
    · have hreinit := (reinits_iff_of_searched hsearched).mpr hchanged
      simp [hreinit, foldl_capture_reinitCalls, decodeReads_reinitCalls, decodeReads_decodeCalls]

section Runs

variable {tr tr₁ tr₂ : List (Machine.Transition (MibImpl S Dec) (MibCall S) (MibWork S))}
  {t : Machine.Transition (MibImpl S Dec) (MibCall S) (MibWork S)}
  {exitOnSuccess : Bool} {mib : Dec} {phichLength : PhichLength}
  {phichResources : PhichResources} {sfnOffset : ℤ} {calls : List (LibCall S)}

/-- At every `srslte_ue_mib_decode` of the trace the address that the decoder has taken down is
that of `d_sf_buffer[0]`, which holds the samples of the call. The log `calls` precedes the
trace. -/
def DecodesCurrent (calls : List (LibCall S))
    (tr : List (Machine.Transition (MibImpl S Dec) (MibCall S) (MibWork S))) : Prop :=
  Machine.AtEach (fun tr₁ t =>
    ∀ r ∈ decodeReads (captured (calls ++ libCalls tr₁)) t.output.calls,
      r.captured = some r.addr ∧ r.samples = t.input.v) tr

/-- Some call asked for another cell than the cached one, and since the last such call none was
larger than all calls up to it. -/
def NotOutgrown [GnuRadio]
    (tr : List (Machine.Transition (MibImpl S Dec) (MibCall S) (MibWork S))) : Prop :=
  ∃ tr₁ t tr₂, tr = tr₁ ++ t :: tr₂ ∧ Reinits t.pre t.input ∧
    ∀ u ∈ tr₂, ¬ Reinits u.pre u.input ∧
      ∃ v ∈ tr₁ ++ [t], u.input.noutputItems ≤ v.input.noutputItems

/-- No call that gets as far as the cache finds that the buffer has outgrown the last
re-initialisation, or outgrows it itself. -/
def SearchesNotOutgrown [GnuRadio]
    (tr : List (Machine.Transition (MibImpl S Dec) (MibCall S) (MibWork S))) : Prop :=
  Machine.AtEach (fun tr₁ t => (searched t.pre t.input).isSome = true →
    NotOutgrown (tr₁ ++ [t])) tr

/-- The sizes of the calls of a trace. -/
def batches (tr : List (Machine.Transition (MibImpl S Dec) (MibCall S) (MibWork S))) : List ℕ :=
  tr.flatMap fun t => [t.input.noutputItems]

theorem mem_batches {n : ℕ} : n ∈ batches tr ↔ ∃ t ∈ tr, n = t.input.noutputItems := by
  simp [batches]

/-- The buffer has been fitted to the calls one after the other. -/
theorem storage_of_run [GnuRadio] (hrun : Machine.Run (generalWork lib) s₀ tr s) :
    s.sfBuffer.storage = (batches tr).foldl Storage.fit s₀.sfBuffer.storage := by
  rw [batches]
  refine hrun.foldl (f := fun s => s.sfBuffer.storage) (I := fun _ => True) trivial
    (fun _ _ _ _ _ _ => trivial) fun t _ hstep => ?_
  -- every branch of a call begins with the assignment
  rw [generalWork_sfBuffer hstep, SampleBuffer.storage_assign]
  simp [MibCall.noutputItems, MibCall.v]

/-- A call is larger than the constructor's buffer. -/
theorem bufferSz_lt_noutputItems (c : MibCall S) : 3 * srslteSfLenPrb < c.noutputItems := by
  -- three subframes of six blocks are less than one half-frame
  have : halfFrameLength ≤ c.noutputItems := Nat.le_mul_of_pos_left _ (by simp [MibCall.frames])
  exact lt_of_lt_of_le (by decide) this

/-- The storage of a constructed block, and what the decoder has taken down. -/
theorem make_storage
    (hmake : make lib exitOnSuccess mib phichLength phichResources sfnOffset = .ok (s₀, calls)) :
    s₀.sfBuffer.storage = ⟨0, 3 * srslteSfLenPrb⟩ ∧ captured calls = some 0 := by
  obtain ⟨rfl, rfl⟩ := make_eq hmake
  exact ⟨rfl, rfl⟩

/-- Calls that do not ask for another cell take down nothing. -/
theorem captured_of_not_reinits [GnuRadio] (hrun : Machine.Run (generalWork lib) s₀ tr s)
    (hnone : ∀ t ∈ tr, ¬ Reinits t.pre t.input) (addr : Option ℕ) :
    (libCalls tr).foldl LibCall.capture addr = addr := by
  induction hrun with
  | nil => rfl
  | @snoc tr u u' i w _ hstep ih =>
    rw [List.forall_mem_append] at hnone
    rw [libCalls_append, List.foldl_append, ih hnone.1]
    simpa [libCalls] using
      (generalWork_captured hstep addr).2.1 (hnone.2 _ (List.mem_singleton.mpr rfl))

/-- After the last call that asked for another cell, the address taken down stays that of the
buffer exactly when no call since was larger than all calls up to it. -/
theorem captured_since [GnuRadio]
    (hcapacity : s₀.sfBuffer.storage.capacity = 3 * srslteSfLenPrb)
    (hrun : Machine.Run (generalWork lib) s₀ (tr₁ ++ t :: tr₂) s)
    (hreinit : Reinits t.pre t.input) (hlast : ∀ u ∈ tr₂, ¬ Reinits u.pre u.input) :
    captured (calls ++ libCalls (tr₁ ++ t :: tr₂)) = some s.sfBuffer.addr ↔
      ∀ u ∈ tr₂, ∃ v ∈ tr₁ ++ [t], u.input.noutputItems ≤ v.input.noutputItems := by
  obtain ⟨hpre, hstep, hpost⟩ := hrun.at_transition
  -- the address was taken down in the call `t`, after its samples were assigned
  have hcaptured : captured (calls ++ libCalls (tr₁ ++ t :: tr₂)) = some t.post.sfBuffer.addr := by
    have hthere := (generalWork_captured hstep (captured (calls ++ libCalls tr₁))).1 hreinit
    rw [List.append_cons, libCalls_append, libCalls_append, ← List.append_assoc,
      ← List.append_assoc, captured_append, captured_of_not_reinits hpost hlast, captured_append]
    simpa [libCalls] using hthere
  have hroom : t.post.sfBuffer.storage = _ := storage_of_run (.snoc hpre hstep)
  -- the buffer has not moved since when all later calls fit into it
  have hkept : s.sfBuffer.addr = t.post.sfBuffer.addr ↔
      ∀ n ∈ batches tr₂, n ≤ t.post.sfBuffer.storage.capacity := by
    rw [← Storage.addr_foldl_fit_eq_iff, ← storage_of_run hpost]
    rfl
  rw [hcaptured, Option.some.injEq, eq_comm, hkept]
  refine ⟨fun h u hu => ?_, fun h n hn => ?_⟩
  · -- what fitted did not fit into the constructor's buffer
    have hfits := h _ (mem_batches.mpr ⟨u, hu, rfl⟩)
    rw [hroom, Storage.le_capacity_foldl_fit_iff, hcapacity] at hfits
    rcases hfits with hsmall | ⟨m, hm, hle⟩
    · exact absurd hsmall (Nat.not_le_of_gt (bufferSz_lt_noutputItems _))
    · obtain ⟨v, hv, rfl⟩ := mem_batches.mp hm
      exact ⟨v, hv, hle⟩
  · obtain ⟨u, hu, rfl⟩ := mem_batches.mp hn
    obtain ⟨v, hv, hle⟩ := h u hu
    rw [hroom, Storage.le_capacity_foldl_fit_iff]
    exact .inr ⟨_, mem_batches.mpr ⟨v, hv, rfl⟩, hle⟩

/-- After a call the decoder has taken down where the buffer is exactly when the buffer has not
outgrown the last re-initialisation. -/
theorem captured_eq_iff [GnuRadio]
    (hmake : make lib exitOnSuccess mib phichLength phichResources sfnOffset = .ok (s₀, calls))
    (hrun : Machine.Run (generalWork lib) s₀ (tr ++ [t]) s) :
    captured (calls ++ libCalls (tr ++ [t])) = some s.sfBuffer.addr ↔ NotOutgrown (tr ++ [t]) := by
  obtain ⟨hstorage, hinit⟩ := make_storage hmake
  have hcapacity : s₀.sfBuffer.storage.capacity = 3 * srslteSfLenPrb := by rw [hstorage]
  constructor
  · intro heq
    -- the address was taken down by the constructor or by the last re-initialisation
    have hlast := Machine.forall_not_or_exists_last
      (fun t : Machine.Transition (MibImpl S Dec) (MibCall S) (MibWork S) =>
        Reinits t.pre t.input) (tr ++ [t])
    rcases hlast with hnone | ⟨tr₁, u, tr₂, htr, hreinit, hlast⟩
    · -- the constructor's storage is left with the first call
      rw [captured_append, captured_of_not_reinits hrun hnone, hinit, Option.some.injEq] at heq
      have hkept : ((batches (tr ++ [t])).foldl Storage.fit s₀.sfBuffer.storage).addr =
          s₀.sfBuffer.storage.addr := by
        rw [← storage_of_run hrun, hstorage]
        exact heq.symm
      rw [Storage.addr_foldl_fit_eq_iff, hcapacity] at hkept
      have hle := hkept _ (mem_batches.mpr ⟨t, by simp, rfl⟩)
      exact absurd hle (Nat.not_le_of_gt (bufferSz_lt_noutputItems _))
    · rw [htr] at hrun heq
      have hfits := (captured_since hcapacity hrun hreinit hlast).mp heq
      exact ⟨tr₁, u, tr₂, htr, hreinit, fun v hv => ⟨hlast v hv, hfits v hv⟩⟩
  · rintro ⟨tr₁, u, tr₂, htr, hreinit, hsince⟩
    rw [htr] at hrun ⊢
    exact (captured_since hcapacity hrun hreinit fun v hv => (hsince v hv).1).mpr
      fun v hv => (hsince v hv).2

/-- Every decoding attempt reads the samples of its call exactly when every call that gets as far
as the cache comes after a re-initialisation, or makes one, that the buffer has not outgrown. -/
theorem decodes_current_iff [GnuRadio]
    (hmake : make lib exitOnSuccess mib phichLength phichResources sfnOffset = .ok (s₀, calls))
    (hrun : Machine.Run (generalWork lib) s₀ tr s) :
    DecodesCurrent calls tr ↔ SearchesNotOutgrown tr := by
  refine hrun.atEach_iff fun tr t hpre hstep _ => ?_
  rw [(generalWork_captured hstep _).2.2, ← captured_eq_iff hmake (.snoc hpre hstep),
    libCalls_append, ← List.append_assoc, captured_append (calls ++ libCalls tr)]
  simp [libCalls]

/-- A call of two half-frames for cell 1, and a shorter one for the same cell. -/
theorem decodes_current_playback :
    ∃ tr s, Machine.Run (generalWork (.playback Unit)) (.playback Unit [true] false) tr s ∧
      batches tr = [19200, 9600] ∧ DecodesCurrent [.ueMibInit 0 srslteUeMibNofPrb true] tr := by
  let frame : Frame Unit := .ofCell (fun _ => ()) 1 true
  have hresult : (Machine.exec (generalWork (.playback Unit)) (.playback Unit [true] false)
      [⟨frame, [frame], 0, 1⟩, ⟨frame, [], 0, 2⟩]).map (fun r =>
        r.1.map fun t => (t.pre.cell, searched t.pre t.input, t.input.noutputItems)) =
      some [(⟨6, 0, 0, .norm, .norm, .r16⟩, some (1, .norm), 19200),
        (⟨6, 0, 1, .norm, .norm, .r16⟩, some (1, .norm), 9600)] := by
    decide +kernel
  obtain ⟨⟨tr, s⟩, hexec, htr⟩ := Option.map_eq_some_iff.mp hresult
  obtain ⟨t, _, rfl, ht, hrest⟩ := List.map_eq_cons_iff.mp htr
  obtain ⟨u, _, rfl, hu, hnil⟩ := List.map_eq_cons_iff.mp hrest
  obtain rfl := List.map_eq_nil_iff.mp hnil
  simp only [Prod.mk.injEq] at ht hu
  have hrun := Machine.Run.of_exec hexec
  refine ⟨_, _, hrun, by simp [batches, ht, hu],
    (decodes_current_iff (make_playback Unit _ _) hrun).mpr ?_⟩
  -- the first call asks for another cell than the constructor's, and the second one is shorter
  have hreinit : Reinits t.pre t.input := ⟨1, .norm, ht.2.1, by simp [ht]⟩
  have hkept : ¬ Reinits u.pre u.input := by
    rintro ⟨cellId, cp, hsearched, hchanged⟩
    rw [hu.2.1] at hsearched
    cases hsearched
    simp [hu] at hchanged
  rw [SearchesNotOutgrown, ← List.singleton_append, Machine.atEach_concat]
  refine ⟨Machine.atEach_nil.snoc fun _ => ?_, fun _ => ?_⟩
  · exact ⟨[], t, [], rfl, hreinit, by simp⟩
  · exact ⟨[], t, [u], rfl, hreinit, by simp [hkept, ht, hu]⟩

/-- The decoder is initialised on a call of one half-frame, and the buffer moves with the next
call, of two. -/
theorem outgrown_buffer_read :
    ¬ ∀ (outcomes : List Bool) tr s, Machine.Run (generalWork (.playback Unit))
      (.playback Unit outcomes false) tr s →
        DecodesCurrent [.ueMibInit 0 srslteUeMibNofPrb true] tr := by
  intro h
  let frame : Frame Unit := .ofCell (fun _ => ()) 1 true
  let calls : List (LibCall Unit) := [.ueMibInit 0 srslteUeMibNofPrb true]
  have hresult : (Machine.exec (generalWork (.playback Unit)) (.playback Unit [true] false)
      [⟨frame, [], 0, 1⟩, ⟨frame, [frame], 0, 2⟩]).bind (fun r =>
        r.1.getLast?.map fun t =>
          (decodeReads (captured (calls ++ libCalls r.1.dropLast)) t.output.calls).map
            fun read => (read.captured, read.addr)) = some [(some 1, 2)] := by
    decide +kernel
  obtain ⟨⟨tr, s⟩, hexec, hlast⟩ := Option.bind_eq_some_iff.mp hresult
  obtain ⟨t, ht, hreads⟩ := Option.map_eq_some_iff.mp hlast
  obtain ⟨tr₁, rfl⟩ := List.getLast?_eq_some_iff.mp ht
  rw [List.dropLast_concat] at hreads
  obtain ⟨read, hmem, hread⟩ := List.mem_map.mp (hreads ▸ List.mem_singleton.mpr rfl)
  obtain ⟨hcaptured, haddr⟩ := Prod.mk.inj hread
  -- the decoder reads storage 1, and the buffer is in storage 2
  have hcurrent := (h _ _ _ (Machine.Run.of_exec hexec) tr₁ t [] rfl read hmem).1
  rw [hcaptured, haddr] at hcurrent
  cases hcurrent

end Runs

end MibImpl

end LteTrigger
