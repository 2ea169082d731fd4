import LteTrigger.Mib.Published

/-!
# Batches of half-frames

The scheduler may hand several half-frames to one `general_work` call. The block looks at the
tags of the first one only, and it consumes one half-frame in every branch but the last: after
a decoding attempt it consumes all it was given. So a batch behaves like its half-frames one
by one when it would ignore those that it skips: they carry no tags that matter, or the attempt
found a cell and they do not tell that it is lost.

`serve` is the block when every call is given one half-frame. It and a batched run pass
through the same states but for the sample buffer, whose contents reach the decoder only
through their first half-frame.

## Main results

* `serve_of_run`: a batched run publishes what `serve` does;
* `batching_independent`: the same in terms of runs over one stream;
* `loss_skipped_in_batch`: a `tracking_lost` tag inside a batch is lost.
-/

namespace LteTrigger

namespace MibImpl

variable {S Dec : Type} {lib : MibLib S Dec} {s s' s₀ : MibImpl S Dec} {c : MibCall S}
  {w : MibWork S} {xs : List (Frame S)} {env : ℕ → ℤ × ℕ}

section Calls

variable [GnuRadio]

/-! ### One call -/

/-- The call gets as far as a decoding attempt. -/
def Decodes (lib : MibLib S Dec) (s : MibImpl S Dec) (c : MibCall S) : Prop :=
  searched s c ≠ none ∧ (s.Reinits c → InitSucceeds lib s)

/-- `srslte_ue_mib_decode` finds the block when `decode` calls it. -/
def Found (lib : MibLib S Dec) (s : MibImpl S Dec) : Prop :=
  (lib.ueMibDecode (lib.pbchDecodeReset s.mib) s.sfBuffer.data s.bchPayload s.cell.nofPorts
    s.sfnOffset).ret = srslteUeMibFound

/-- The decoding attempt of the call finds the block. -/
def Finds (lib : MibLib S Dec) (s : MibImpl S Dec) (c : MibCall S) : Prop :=
  ∃ cellId cp, searched s c = some (cellId, cp) ∧
    Found lib (configure lib (s.receive c) cellId cp).1

/-- The block ignores a half-frame without tags that matter, and one for a cell while a cell is
published. -/
def Ignores (s : MibImpl S Dec) (frame : Frame S) : Prop :=
  frame.kind = .plain ∨ (frame.kind ≠ .lost ∧ s.cellPublished = true)

/-- A cell is published once the block is found. -/
theorem decode_found (h : Found lib s) (c : MibCall S) :
    (decode lib s c).1.cellPublished = true := by
  rw [Found] at h
  unfold decode
  simp only [h, ↓reduceIte]
  split <;> rfl

/-- A call consumes its first half-frame, or all of them after a decoding attempt, which leaves
a cell published if it finds the block. -/
theorem generalWork_nconsume (hexit : s.exitOnSuccess = false)
    (h : generalWork lib s c = .ok (s', w)) :
    w.nconsume = halfFrameLength ∨
      (w.nconsume = c.noutputItems ∧ Decodes lib s c ∧
        (Finds lib s c → s'.cellPublished = true)) := by
  rcases generalWork_cases h with
    ⟨-, -, rfl⟩ | ⟨-, -, -, rfl⟩ | ⟨cellId, cp, -, -, -, -, rfl⟩ |
    ⟨cellId, cp, -, hsearched, hok, rfl, rfl⟩
  · exact .inl rfl
  · exact .inl rfl
  · exact .inl rfl
  · right
    refine ⟨decode_nconsume lib _ c ?_, ⟨by simp [hsearched], ?_⟩, ?_⟩
    · rw [configure_exitOnSuccess, receive_exitOnSuccess, hexit]
    · rintro ⟨cellId', cp', hsearched', hchanged⟩
      rw [hsearched] at hsearched'
      cases hsearched'
      rcases configure_cases lib (s.receive c) cellId cp with ⟨hid, hcp, -⟩ | ⟨-, -, hstatus⟩
      · rw [receive_cell] at hid hcp
        simp [hid, hcp] at hchanged
      · exact initSucceeds_receive.mp (hstatus.mp hok)
    · rintro ⟨cellId', cp', hsearched', hfound⟩
      rw [hsearched] at hsearched'
      cases hsearched'
      exact decode_found hfound c

/-- The block with other samples in its buffer. -/
def withBuffer (s : MibImpl S Dec) (b : SampleBuffer S) : MibImpl S Dec :=
  { s with sfBuffer := b }

omit [GnuRadio] in
/-- The samples do not take part in a re-initialisation. -/
theorem configure_withBuffer (lib : MibLib S Dec) (s : MibImpl S Dec) (b : SampleBuffer S)
    (cellId : ℕ) (cp : Cp) :
    (configure lib (s.withBuffer b) cellId cp).1 =
        (configure lib s cellId cp).1.withBuffer b ∧
      (configure lib (s.withBuffer b) cellId cp).2.2 = (configure lib s cellId cp).2.2 := by
  unfold configure reinit withBuffer
  dsimp only
  split
  · split <;> exact ⟨rfl, rfl⟩
  · exact ⟨rfl, rfl⟩

/-- A decoding attempt only looks at the first half-frame in the buffer. -/
theorem decode_withBuffer
    (hdecode : ∀ mib x rest p n k, lib.ueMibDecode mib (x :: rest) p n k =
      lib.ueMibDecode mib [x] p n k)
    (s : MibImpl S Dec) (c c' : MibCall S) (hnow : c'.now = c.now) (hfresh : c'.fresh = c.fresh)
    {b : SampleBuffer S} {x : HalfFrame S} {rest : List (HalfFrame S)}
    (hs : s.sfBuffer.data = x :: rest) (hb : b.data = [x]) :
    (decode lib (s.withBuffer b) c').1 = (decode lib s c).1.withBuffer b ∧
      (decode lib (s.withBuffer b) c').2.msgs = (decode lib s c).2.msgs := by
  unfold decode withBuffer
  dsimp only
  -- the decoder is given one half-frame in both cases
  rw [hs, hb, hdecode _ x rest, hnow, hfresh]
  split
  · split <;> exact ⟨rfl, rfl⟩
  · exact ⟨rfl, rfl⟩

/-- A call for a batch and a call for its first half-frame do the same but for the sample
buffer and what they consume. -/
theorem generalWork_first
    (hdecode : ∀ mib x rest p n k, lib.ueMibDecode mib (x :: rest) p n k =
      lib.ueMibDecode mib [x] p n k)
    (h : generalWork lib s c = .ok (s', w)) (b : SampleBuffer S) :
    ∃ b' w', generalWork lib (s.withBuffer b) ⟨c.first, [], c.now, c.fresh⟩ =
        .ok (s'.withBuffer b', w') ∧ w'.msgs = w.msgs := by
  let c' : MibCall S := ⟨c.first, [], c.now, c.fresh⟩
  have hreceive : (s.withBuffer b).receive c' =
      (s.receive c).withBuffer ((s.withBuffer b).receive c').sfBuffer := by
    rw [receive, receive, withBuffer, withBuffer]
  have hfirst : ((s.withBuffer b).receive c').sfBuffer.data = [c.first.samples] := by
    rw [receive_sfBuffer_data]
    rfl
  -- from here on only the contents of the buffer matter, not where it came from
  generalize ((s.withBuffer b).receive c').sfBuffer = b' at hreceive hfirst
  rw [generalWork_eq] at h ⊢
  rw [hreceive, show c'.first.kind = c.first.kind from rfl]
  cases hkind : c.first.kind with
  | lost =>
    simp only [hkind, Except.ok.injEq] at h ⊢
    obtain ⟨rfl, rfl⟩ := Prod.mk.inj h
    exact ⟨b', _, rfl, rfl⟩
  | plain =>
    simp only [hkind, Except.ok.injEq] at h ⊢
    obtain ⟨rfl, rfl⟩ := Prod.mk.inj h
    exact ⟨b', _, rfl, rfl⟩
  | candidate cellIdTag cpTypeTag =>
    simp only [hkind, show (s.withBuffer b).cellPublished = s.cellPublished from rfl] at h ⊢
    split at h
    · rename_i hpublished
      rw [if_pos hpublished]
      obtain ⟨rfl, rfl⟩ := Prod.mk.inj (Except.ok.inj h)
      exact ⟨b', _, rfl, rfl⟩
    · rename_i hidle
      rw [if_neg hidle]
      cases hid : tagCellId cellIdTag with
      | error err => simp [hid, Except.map] at h
      | ok cellId =>
        simp only [hid, Except.map, Except.ok.injEq, searchCell_eq] at h ⊢
        -- both re-initialise or neither does, with the same outcome
        obtain ⟨hstate, hok⟩ := configure_withBuffer lib (s.receive c) b' cellId (tagCp cpTypeTag)
        rw [hok, hstate]
        split at h
        · -- both attempt to decode the same first half-frame
          obtain ⟨rfl, rfl⟩ := Prod.mk.inj h
          obtain ⟨hdstate, hdmsgs⟩ := decode_withBuffer hdecode
            (configure lib (s.receive c) cellId (tagCp cpTypeTag)).1 c c' rfl rfl
            (by rw [configure_sfBuffer, receive_sfBuffer_data]; rfl) hfirst
          rw [if_pos ‹_›, hdstate]
          exact ⟨b', _, rfl, hdmsgs⟩
        · obtain ⟨rfl, rfl⟩ := Prod.mk.inj h
          rw [if_neg ‹_›]
          exact ⟨b', _, rfl, rfl⟩

/-- A half-frame that the block ignores changes nothing but the sample buffer. -/
theorem generalWork_ignores (lib : MibLib S Dec) {frame : Frame S} (hignores : s.Ignores frame)
    (now : ℤ) (fresh : ℕ) :
    ∃ b w, generalWork lib s ⟨frame, [], now, fresh⟩ = .ok (s.withBuffer b, w) ∧
      w.msgs = [] := by
  rw [generalWork_eq]
  rcases hignores with hplain | ⟨hkept, hpublished⟩
  · -- neither tagged as lost nor for a cell
    simp only [hplain]
    exact ⟨_, _, rfl, rfl⟩
  · cases hkind : frame.kind with
    | lost => exact absurd hkind hkept
    | plain => exact ⟨_, _, rfl, rfl⟩
    | candidate cellIdTag cpTypeTag =>
      -- for a cell, but one is published already
      simp only [hpublished, ↓reduceIte]
      exact ⟨_, _, rfl, rfl⟩

/-! ### One half-frame at a time -/

/-- The block when each call is given one half-frame, from the `n`-th half-frame of its input
on. The half-frame a call starts with decides what the environment provides. -/
def serve (lib : MibLib S Dec) (env : ℕ → ℤ × ℕ) :
    ℕ → MibImpl S Dec → List (Frame S) → Except Exception (MibImpl S Dec × List Message)
  | _, s, [] => .ok (s, [])
  | n, s, frame :: frames =>
    match generalWork lib s ⟨frame, [], (env n).1, (env n).2⟩ with
    | .error err => .error err
    | .ok (s, w) => (serve lib env (n + 1) s frames).map fun (s, msgs) => (s, w.msgs ++ msgs)

theorem serve_cons {n : ℕ} {frame : Frame S} {frames : List (Frame S)} {u : MibImpl S Dec}
    {msgs : List Message}
    (h : generalWork lib s ⟨frame, [], (env n).1, (env n).2⟩ = .ok (s', w))
    (hrest : serve lib env (n + 1) s' frames = .ok (u, msgs)) :
    serve lib env n s (frame :: frames) = .ok (u, w.msgs ++ msgs) := by
  rw [serve, h]
  simp [hrest, Except.map]

/-- Serving the first half-frame and then the others. -/
theorem serve_cons_cases {n : ℕ} {frame : Frame S} {frames : List (Frame S)}
    {u : MibImpl S Dec} {msgs : List Message}
    (h : serve lib env n s (frame :: frames) = .ok (u, msgs)) :
    ∃ s' w msgs', generalWork lib s ⟨frame, [], (env n).1, (env n).2⟩ = .ok (s', w) ∧
      serve lib env (n + 1) s' frames = .ok (u, msgs') ∧ msgs = w.msgs ++ msgs' := by
  rw [serve] at h
  split at h
  · cases h
  rename_i s' w hfirst
  cases hrest : serve lib env (n + 1) s' frames with
  | error err => simp [hrest, Except.map] at h
  | ok r =>
    rw [hrest] at h
    obtain ⟨rfl, rfl⟩ := Prod.mk.inj (Except.ok.inj h)
    exact ⟨s', w, r.2, hfirst, hrest, rfl⟩

/-- Serving continues where it stopped. -/
theorem serve_append {n : ℕ} {frames frames' : List (Frame S)} {u : MibImpl S Dec}
    {msgs msgs' : List Message} (h : serve lib env n s frames = .ok (s', msgs))
    (h' : serve lib env (n + frames.length) s' frames' = .ok (u, msgs')) :
    serve lib env n s (frames ++ frames') = .ok (u, msgs ++ msgs') := by
  induction frames generalizing n s msgs with
  | nil =>
    rw [serve] at h
    obtain ⟨rfl, rfl⟩ := Prod.mk.inj (Except.ok.inj h)
    exact h'
  | cons frame frames ih =>
    -- induction on the half-frames served first
    obtain ⟨s₁, w₁, msgs₁, hfirst, hrest, rfl⟩ := serve_cons_cases h
    rw [List.cons_append, List.append_assoc]
    refine serve_cons hfirst (ih hrest ?_)
    rwa [List.length_cons, Nat.add_comm frames.length, ← Nat.add_assoc] at h'

/-- Half-frames that the block ignores change nothing but the sample buffer. -/
theorem serve_ignores {frames : List (Frame S)} (hignores : ∀ frame ∈ frames, s.Ignores frame)
    (n : ℕ) (b : SampleBuffer S) :
    ∃ b', serve lib env n (s.withBuffer b) frames = .ok (s.withBuffer b', []) := by
  induction frames generalizing n b with
  | nil => exact ⟨b, rfl⟩
  | cons frame frames ih =>
    have hfirst : (s.withBuffer b).Ignores frame := hignores frame (by simp)
    obtain ⟨b₁, w, hfirst, hmsgs⟩ := generalWork_ignores lib hfirst (env n).1 (env n).2
    obtain ⟨b', hrest⟩ := ih (fun f hf => hignores f (by simp [hf])) (n + 1) b₁
    refine ⟨b', ?_⟩
    have hserve := serve_cons hfirst hrest
    rwa [hmsgs] at hserve

/-! ### Runs over a stream -/

section Runs

variable {tr tr' : List (Machine.Transition (MibImpl S Dec) (MibCall S) (MibWork S))}

/-- The half-frames that a trace consumes. Each call consumes whole half-frames. -/
def halfFramesRead (tr : List (Machine.Transition (MibImpl S Dec) (MibCall S) (MibWork S))) :
    ℕ :=
  (tr.map fun t => t.output.nconsume / halfFrameLength).sum

omit [GnuRadio] in
@[simp]
theorem halfFramesRead_append :
    halfFramesRead (tr ++ tr') = halfFramesRead tr + halfFramesRead tr' := by
  simp [halfFramesRead]

/-- The calls of a trace read on in the stream `xs`: each is given some half-frames from the
first one not yet consumed. The time and the object identity that a call uses are those of
the half-frame it starts with. -/
def ReadsFrames (xs : List (Frame S)) (env : ℕ → ℤ × ℕ)
    (tr : List (Machine.Transition (MibImpl S Dec) (MibCall S) (MibWork S))) : Prop :=
  ∀ tr₁ t tr₂, tr = tr₁ ++ t :: tr₂ →
    t.input.frames <+: xs.drop (halfFramesRead tr₁) ∧
      (t.input.now, t.input.fresh) = env (halfFramesRead tr₁)

/-- Every call is given one half-frame. -/
def OneAtATime (tr : List (Machine.Transition (MibImpl S Dec) (MibCall S) (MibWork S))) :
    Prop :=
  ∀ t ∈ tr, t.input.rest = []

/-- A call that gets as far as a decoding attempt is given nothing after its first half-frame
that carries a `tracking_lost` tag, and, if the attempt does not find the block, nothing that
carries one tag each for the cell identity and the CP. -/
def SkipsIgnored (lib : MibLib S Dec)
    (tr : List (Machine.Transition (MibImpl S Dec) (MibCall S) (MibWork S))) : Prop :=
  ∀ t ∈ tr, Decodes lib t.pre t.input → ∀ frame ∈ t.input.rest,
    frame.kind = .plain ∨ (frame.kind ≠ .lost ∧ Finds lib t.pre t.input)

theorem OneAtATime.skipsIgnored (h : OneAtATime tr) : SkipsIgnored lib tr := by
  intro t ht _ frame hframe
  rw [h t ht] at hframe
  cases hframe

omit [GnuRadio] in
theorem halfFramesRead_singleton
    (t : Machine.Transition (MibImpl S Dec) (MibCall S) (MibWork S)) :
    halfFramesRead [t] = t.output.nconsume / halfFrameLength := by
  simp [halfFramesRead]

/-- What a call consumes, counted in half-frames: its first one, or all of them, of which the
later ones are then skipped. -/
theorem consumed_frames (hexit : s.exitOnSuccess = false)
    (h : generalWork lib s c = .ok (s', w))
    (hskip : Decodes lib s c → ∀ frame ∈ c.rest,
      frame.kind = .plain ∨ (frame.kind ≠ .lost ∧ Finds lib s c)) :
    ∃ skipped, skipped <+: c.rest ∧ (∀ frame ∈ skipped, s'.Ignores frame) ∧
      w.nconsume / halfFrameLength = skipped.length + 1 := by
  have hpos : 0 < halfFrameLength := by decide
  rcases generalWork_nconsume hexit h with hone | ⟨hall, hdecodes, hfinds⟩
  · refine ⟨[], List.nil_prefix, by simp, ?_⟩
    rw [hone, Nat.div_self hpos, List.length_nil]
  · -- after an attempt the rest of the batch is consumed unseen
    refine ⟨c.rest, List.prefix_rfl, fun frame hframe => ?_, ?_⟩
    · exact (hskip hdecodes frame hframe).imp_right
        fun hcell => ⟨hcell.1, hfinds hcell.2⟩
    rw [hall, MibCall.noutputItems, Nat.mul_div_cancel _ hpos, MibCall.frames,
      List.length_cons]

/-- A call for one half-frame consumes it. -/
theorem consumed_one {frame : Frame S} {now : ℤ} {fresh : ℕ} (hexit : s.exitOnSuccess = false)
    (h : generalWork lib s ⟨frame, [], now, fresh⟩ = .ok (s', w)) :
    w.nconsume / halfFrameLength = 1 := by
  obtain ⟨skipped, hskipped, -, hconsumed⟩ := consumed_frames hexit h (by simp)
  rw [hconsumed, List.prefix_nil.mp hskipped, List.length_nil]

theorem exitOnSuccess_of_run (hexit : s₀.exitOnSuccess = false)
    (hrun : Machine.Run (generalWork lib) s₀ tr s) : s.exitOnSuccess = false :=
  hrun.invariant (I := fun u => u.exitOnSuccess = false) hexit
    fun _ _ _ _ hu hstep => (generalWork_exitOnSuccess hstep).trans hu

/-- A batched run whose batches only skip half-frames that the block ignores publishes what
the block publishes one half-frame at a time, and ends in the same state but for the sample
buffer. -/
theorem serve_of_run (hexit : s₀.exitOnSuccess = false)
    (hdecode : ∀ mib x rest p n k, lib.ueMibDecode mib (x :: rest) p n k =
      lib.ueMibDecode mib [x] p n k)
    (hrun : Machine.Run (generalWork lib) s₀ tr s) (hreads : ReadsFrames xs env tr)
    (hskip : SkipsIgnored lib tr) :
    halfFramesRead tr ≤ xs.length ∧
      ∃ b, serve lib env 0 s₀ (xs.take (halfFramesRead tr)) =
        .ok (s.withBuffer b, published tr) := by
  induction hrun with
  | nil => exact ⟨Nat.zero_le _, s₀.sfBuffer, rfl⟩
  | @snoc tr u u' c w hpre hstep ih =>
    obtain ⟨hbefore, hahead, henv⟩ := Machine.atEach_concat.mp hreads
    obtain ⟨hle, b, hserved⟩ := ih hbefore fun t ht => hskip t (List.mem_append_left _ ht)
    obtain ⟨skipped, hskipped, hignores, hconsumed⟩ :=
      consumed_frames (exitOnSuccess_of_run hexit hpre) hstep
        (hskip ⟨u, c, w, u'⟩ (by simp))
    -- the half-frames consumed by this call are the next ones of the stream
    have hnext : c.first :: skipped <+: xs.drop (halfFramesRead tr) :=
      (List.cons_prefix_cons.mpr ⟨rfl, hskipped⟩).trans hahead
    have htake : xs.take (halfFramesRead tr + (skipped.length + 1)) =
        xs.take (halfFramesRead tr) ++ c.first :: skipped := by
      rw [List.take_add, List.prefix_iff_eq_take.mp hnext, List.length_cons]
    have hlength : (xs.take (halfFramesRead tr)).length = halfFramesRead tr := by
      rw [List.length_take, Nat.min_eq_left hle]
    have hread : halfFramesRead (tr ++ [⟨u, c, w, u'⟩]) =
        halfFramesRead tr + (skipped.length + 1) := by
      rw [halfFramesRead_append, halfFramesRead_singleton, hconsumed]
    rw [hread]
    refine ⟨?_, ?_⟩
    · have := hnext.length_le
      rw [List.length_cons, List.length_drop] at this
      omega
    · -- serve the first half-frame like the call, then those it skips
      obtain ⟨b₁, w₁, hfirst, hmsgs⟩ := generalWork_first hdecode hstep b
      obtain ⟨b₂, hrest⟩ := serve_ignores hignores (halfFramesRead tr + 1) b₁
      refine ⟨b₂, ?_⟩
      rw [htake, published_append]
      refine serve_append hserved ?_
      rw [Nat.zero_add, hlength]
      obtain ⟨hnow, hfresh⟩ := Prod.ext_iff.mp henv
      have hserve := serve_cons (by rw [← hnow, ← hfresh]; exact hfirst) hrest
      rwa [hmsgs, List.append_nil, ← List.append_nil w.msgs] at hserve

omit [GnuRadio] in
theorem readsFrames_nil :
    ReadsFrames xs env
      ([] : List (Machine.Transition (MibImpl S Dec) (MibCall S) (MibWork S))) :=
  Machine.atEach_nil

omit [GnuRadio] in
/-- A trace reads the stream when the calls before the last do and the last call reads on. -/
theorem ReadsFrames.snoc {t : Machine.Transition (MibImpl S Dec) (MibCall S) (MibWork S)}
    (h : ReadsFrames xs env tr) (hahead : t.input.frames <+: xs.drop (halfFramesRead tr))
    (henv : (t.input.now, t.input.fresh) = env (halfFramesRead tr)) :
    ReadsFrames xs env (tr ++ [t]) :=
  Machine.AtEach.snoc h ⟨hahead, henv⟩

/-- What is served is a run with calls for one half-frame each. -/
theorem run_of_serve {n : ℕ} {frames : List (Frame S)} {u : MibImpl S Dec}
    {msgs : List Message} (hexit : s₀.exitOnSuccess = false)
    (h : serve lib env n s frames = .ok (u, msgs)) (hxs : frames <+: xs.drop n)
    (hrun : Machine.Run (generalWork lib) s₀ tr s) (hreads : ReadsFrames xs env tr)
    (hone : OneAtATime tr) (hn : halfFramesRead tr = n) :
    ∃ tr', Machine.Run (generalWork lib) s₀ tr' u ∧ ReadsFrames xs env tr' ∧ OneAtATime tr' ∧
      halfFramesRead tr' = n + frames.length := by
  induction frames generalizing n s msgs tr with
  | nil =>
    rw [serve] at h
    obtain ⟨rfl, -⟩ := Prod.mk.inj (Except.ok.inj h)
    exact ⟨tr, hrun, hreads, hone, hn⟩
  | cons frame frames ih =>
    obtain ⟨s₁, w₁, msgs₁, hfirst, hrest, rfl⟩ := serve_cons_cases h
    -- the run so far and one more call, for the next half-frame
    have hone₁ : OneAtATime (tr ++ [⟨s, ⟨frame, [], (env n).1, (env n).2⟩, w₁, s₁⟩]) := by
      intro t ht
      rcases List.mem_append.mp ht with ht | ht
      · exact hone t ht
      · rw [List.mem_singleton.mp ht]
    have htail : frames <+: xs.drop (n + 1) := by
      obtain ⟨rest, hrest⟩ := hxs
      rw [← List.tail_drop, ← hrest]
      exact ⟨rest, rfl⟩
    have hread : halfFramesRead (tr ++ [⟨s, ⟨frame, [], (env n).1, (env n).2⟩, w₁, s₁⟩]) =
        n + 1 := by
      rw [halfFramesRead_append, halfFramesRead_singleton, hn,
        consumed_one (exitOnSuccess_of_run hexit hrun) hfirst]
    obtain ⟨tr', hrun', hreads', hone', hn'⟩ := ih hrest htail (.snoc hrun hfirst)
      (hreads.snoc (by
        rw [hn]
        exact (List.cons_prefix_cons.mpr ⟨rfl, List.nil_prefix⟩).trans hxs) (by rw [hn]))
      hone₁ hread
    refine ⟨tr', hrun', hreads', hone', ?_⟩
    rw [hn', List.length_cons]
    omega

/-- In a batched run whose batches only skip half-frames that the block ignores, every
half-frame with a `tracking_lost` tag that is consumed starts a call that drops the cell. -/
theorem lost_drops (hexit : s₀.exitOnSuccess = false)
    (hrun : Machine.Run (generalWork lib) s₀ tr s) (hreads : ReadsFrames xs env tr)
    (hskip : SkipsIgnored lib tr) {n : ℕ} {frame : Frame S} (hframe : xs[n]? = some frame)
    (hlost : frame.kind = .lost) (hn : n < halfFramesRead tr) :
    ∃ tr₁ t tr₂, tr = tr₁ ++ t :: tr₂ ∧ halfFramesRead tr₁ = n ∧
      t.post.cellPublished = false ∧ .ueMibReset ∈ t.output.calls ∧
        ∀ p, t.pre.held = some p → t.output.msgs = [⟨.drop, p⟩] := by
  induction hrun with
  | nil => simp [halfFramesRead] at hn
  | @snoc tr u u' c w hpre hstep ih =>
    obtain ⟨hreadsBefore, hahead, -⟩ := Machine.atEach_concat.mp hreads
    by_cases hbefore : n < halfFramesRead tr
    · obtain ⟨tr₁, t, tr₂, rfl, hrest⟩ := ih hreadsBefore
        (fun t ht => hskip t (List.mem_append_left _ ht)) hbefore
      exact ⟨tr₁, t, tr₂ ++ [⟨u, c, w, u'⟩], by simp, hrest⟩
    obtain ⟨skipped, hskipped, hignores, hconsumed⟩ :=
      consumed_frames (exitOnSuccess_of_run hexit hpre) hstep
        (hskip ⟨u, c, w, u'⟩ (by simp))
    rw [halfFramesRead_append, halfFramesRead_singleton, hconsumed] at hn
    obtain ⟨k, rfl⟩ := Nat.exists_eq_add_of_le (Nat.le_of_not_lt hbefore)
    -- the half-frame is the `k`-th one that this call consumes
    obtain ⟨rest, hrest⟩ : c.first :: skipped <+: xs.drop (halfFramesRead tr) :=
      (List.cons_prefix_cons.mpr ⟨rfl, hskipped⟩).trans hahead
    rw [← List.getElem?_drop, ← hrest, List.getElem?_append_left (by
      rw [List.length_cons]
      omega)] at hframe
    cases k with
    | zero =>
      -- the lost half-frame is the one the call looks at
      obtain rfl : c.first = frame := by simpa using hframe
      refine ⟨tr, ⟨u, c, w, u'⟩, [], rfl, by simp, ?_⟩
      rcases generalWork_cases hstep with
        ⟨-, rfl, rfl⟩ | ⟨hkind, -⟩ | ⟨cellId, cp, -, hsearched, -⟩ | ⟨cellId, cp, -, hsearched, -⟩
      · refine ⟨rfl, by simp [dropCurrentCell], fun p hp => ?_⟩
        rw [dropCurrentCell_msgs, held_receive, hp]
        rfl
      · exact absurd hlost hkind
      · simp [searched, hlost] at hsearched
      · simp [searched, hlost] at hsearched
    | succ k =>
      -- no `tracking_lost` tag is skipped
      have hmem : frame ∈ skipped := List.mem_of_getElem? (by simpa using hframe)
      rcases hignores frame hmem with hplain | ⟨hkept, -⟩
      · rw [hplain] at hlost
        cases hlost
      · exact absurd hlost hkept

/-- The way a stream is cut into calls does not show in the messages, as long as a call that
attempts to decode only skips half-frames that it would ignore. There is a run over the stream
with one half-frame for each call that gets as far. Every such run publishes the same
messages. No `tracking_lost` tag is missed. -/
theorem batching_independent {mib : Dec} {phichLength : PhichLength}
    {phichResources : PhichResources} {sfnOffset : ℤ} {calls : List (LibCall S)}
    (hmake : make lib false mib phichLength phichResources sfnOffset = .ok (s₀, calls))
    (hdecode : ∀ mib x rest p n k, lib.ueMibDecode mib (x :: rest) p n k =
      lib.ueMibDecode mib [x] p n k)
    (hrun : Machine.Run (generalWork lib) s₀ tr s) (hreads : ReadsFrames xs env tr)
    (hskip : SkipsIgnored lib tr) :
    (∃ tr' s', Machine.Run (generalWork lib) s₀ tr' s' ∧ ReadsFrames xs env tr' ∧
      OneAtATime tr' ∧ halfFramesRead tr' = halfFramesRead tr) ∧
    (∀ tr' s', Machine.Run (generalWork lib) s₀ tr' s' → ReadsFrames xs env tr' →
      OneAtATime tr' → halfFramesRead tr' = halfFramesRead tr → published tr' = published tr) ∧
    (∀ n frame, xs[n]? = some frame → frame.kind = .lost → n < halfFramesRead tr →
      ∃ tr₁ t tr₂, tr = tr₁ ++ t :: tr₂ ∧ halfFramesRead tr₁ = n ∧
        t.post.cellPublished = false ∧ .ueMibReset ∈ t.output.calls ∧
          ∀ p, t.pre.held = some p → t.output.msgs = [⟨.drop, p⟩]) := by
  have hexit : s₀.exitOnSuccess = false := by
    obtain ⟨rfl, -⟩ := make_eq hmake
    rfl
  obtain ⟨hle, b, hserved⟩ := serve_of_run hexit hdecode hrun hreads hskip
  refine ⟨?_, fun tr' s' hrun' hreads' hone hlength => ?_,
    fun n frame hframe hlost hn => lost_drops hexit hrun hreads hskip hframe hlost hn⟩
  · obtain ⟨tr', hrun', hreads', hone, hlength⟩ := run_of_serve hexit hserved
      (List.take_prefix _ _) .nil readsFrames_nil (fun t ht => by cases ht) rfl
    refine ⟨tr', _, hrun', hreads', hone, ?_⟩
    rw [hlength, List.length_take, Nat.min_eq_left hle, Nat.zero_add]
  · obtain ⟨-, b', hserved'⟩ := serve_of_run hexit hdecode hrun' hreads' hone.skipsIgnored
    rw [hlength, hserved] at hserved'
    exact (Prod.mk.inj (Except.ok.inj hserved')).2.symm

end Runs

end Calls

/-- A batch of two half-frames for a cell that is found publishes what its half-frames publish
one by one. -/
theorem batching_independent_playback :
    ∃ tr s, Machine.Run (generalWork (.playback Unit)) (.playback Unit [true, true] false) tr s ∧
      halfFramesRead tr = 2 ∧ ∀ tr' s', Machine.Run (generalWork (.playback Unit))
        (.playback Unit [true, true] false) tr' s' →
          ReadsFrames [.ofCell (fun _ => ()) 1 true, .ofCell (fun _ => ()) 1 true]
              (fun n => (0, n)) tr' →
            OneAtATime tr' → halfFramesRead tr' = 2 → published tr' = published tr := by
  let frame : Frame Unit := .ofCell (fun _ => ()) 1 true
  let batch : MibCall Unit := ⟨frame, [frame], 0, 0⟩
  obtain ⟨t, hrun, hinput, hpre, hread⟩ : ∃ t, Machine.Run (generalWork (.playback Unit))
      (.playback Unit [true, true] false) [t] t.post ∧ t.input = batch ∧
        t.pre = .playback Unit [true, true] false ∧ halfFramesRead [t] = 2 :=
    ⟨_, .snoc (i := batch) .nil rfl, rfl, rfl, by decide⟩
  obtain ⟨-, hall, -⟩ := batching_independent (make_playback Unit [true, true] false)
    (fun _ _ _ _ _ _ => rfl) hrun
    (readsFrames_nil.snoc (by rw [hinput]; exact List.prefix_rfl) (by rw [hinput]; rfl)) (by
      intro u hu _ skipped hskipped
      rw [List.mem_singleton.mp hu, hinput] at hskipped
      rw [List.mem_singleton.mp hu, hinput, hpre, List.mem_singleton.mp hskipped]
      -- the attempt on the first half-frame finds the block
      exact .inr ⟨by decide, 1, .norm, rfl, rfl⟩)
  exact ⟨_, _, hrun, hread, fun tr' s' hrun' hreads' hone hlength =>
    hall tr' s' hrun' hreads' hone (hlength.trans hread.symm)⟩

/-- A batch whose first half-frame yields a cell hides the `tracking_lost` tag of the second
one, and the cell is never dropped. -/
theorem loss_skipped_in_batch :
    ¬ ∀ (outcomes : List Bool) (xs : List (Frame Unit)) (env : ℕ → ℤ × ℕ) tr s tr' s',
      Machine.Run (generalWork (.playback Unit)) (.playback Unit outcomes false) tr s →
      ReadsFrames xs env tr → halfFramesRead tr = xs.length →
      Machine.Run (generalWork (.playback Unit)) (.playback Unit outcomes false) tr' s' →
      ReadsFrames xs env tr' → OneAtATime tr' → halfFramesRead tr' = xs.length →
      published tr' = published tr := by
  intro h
  let found : Frame Unit := .ofCell (fun _ => ()) 1 true
  let lost : Frame Unit := .trackingLost fun _ => ()
  obtain ⟨b, hbatch, hb, hbmsgs, hbread⟩ : ∃ b, Machine.Run (generalWork (.playback Unit))
      (.playback Unit [true, true] false) [b] b.post ∧ b.input = ⟨found, [lost], 0, 0⟩ ∧
        b.output.msgs.length = 1 ∧ halfFramesRead [b] = 2 :=
    ⟨_, .snoc (i := ⟨found, [lost], 0, 0⟩) .nil rfl, rfl, rfl, by decide⟩
  obtain ⟨t, u, hsingle, ht, hu, hmsgs, htread, hread⟩ :
      ∃ t u, Machine.Run (generalWork (.playback Unit)) (.playback Unit [true, true] false)
        ([t] ++ [u]) u.post ∧ t.input = ⟨found, [], 0, 0⟩ ∧ u.input = ⟨lost, [], 0, 1⟩ ∧
          (published ([t] ++ [u])).length = 2 ∧ halfFramesRead [t] = 1 ∧
            halfFramesRead ([t] ++ [u]) = 2 :=
    ⟨_, _, .snoc (i := ⟨lost, [], 0, 1⟩) (.snoc (i := ⟨found, [], 0, 0⟩) .nil rfl) rfl,
      rfl, rfl, rfl, by decide, by decide⟩
  have heq := h [true, true] [found, lost] (fun n => (0, n)) _ _ _ _ hbatch
    (readsFrames_nil.snoc (by rw [hb]; exact List.prefix_rfl) (by rw [hb]; rfl)) hbread hsingle
    ((readsFrames_nil.snoc (by
      rw [ht]
      exact List.cons_prefix_cons.mpr ⟨rfl, List.nil_prefix⟩) (by rw [ht]; rfl)).snoc (by
        rw [hu, List.nil_append, htread]
        exact List.prefix_rfl) (by rw [hu, List.nil_append, htread]))
    (by simp [OneAtATime, ht, hu]) hread
  -- two messages against one
  have hlength := congrArg List.length heq
  rw [hmsgs] at hlength
  simp [published, hbmsgs] at hlength

end MibImpl

end LteTrigger
