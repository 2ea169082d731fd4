import LteTrigger.Machine.Run
import Mathlib.Logic.Function.Basic

/-!
# Objects behind a mutex

An object whose functions touch its memory under one mutex only. Any number of threads call
its functions. A call may end before it asks for the mutex. Otherwise it waits until the mutex is
free, takes it, executes its statements one at a time, and lets it go with the last one. The steps
of different threads come in any order.

A call commits where it lets the mutex go, or where it ends without having asked for it. The
thread returns from it later, so calls of different threads may return in another order than the
one they commit in.

## Main definitions

* `Object`: the functions of an object, as programs;
* `Object.Does`: what a call does that nothing interrupts;
* `Object.step`: one step of one thread;
* `Inv`: what holds between any two steps;
* `calledBy`, `committedBy`, `returnedBy`: the calls of a thread in a trace.

## Main results

* `step_eq_ok_iff`: all that a step can do;
* `Inv.moves`: a step keeps the invariant, with the memory that the committed calls have left;
* `exists_sequential`: the calls, in the order they commit, are done one after the other, with
  the results they commit with;
* `calledBy_eq`, `committedBy_eq`: a call commits after it was made and before it returns;
* `exists_return`: every call can be brought to its end.
-/

namespace Guarded

open Machine

variable {θ σ κ ℓ ρ ε : Type*}

/-- What follows a statement of a call. -/
inductive Next (ℓ ρ : Type*) where
  /-- Another statement. -/
  | goto (l : ℓ)
  /-- The end of the call. -/
  | ret (r : ρ)

/-- The functions of an object. -/
structure Object (σ κ ℓ ρ : Type*) where
  /-- What a call does before it asks for the mutex. -/
  enter : κ → Next ℓ ρ
  /-- A statement under the mutex. -/
  stmt : ℓ → σ → σ × Next ℓ ρ

/-- Where a thread is. -/
inductive Status (κ ℓ ρ : Type*) where
  /-- In no function of the object. -/
  | idle
  /-- In a call, before it has asked for the mutex. -/
  | called (c : κ)
  /-- In a call that waits for the mutex. -/
  | waiting (c : κ) (l : ℓ)
  /-- In a call that holds the mutex. -/
  | inside (c : κ) (l : ℓ)
  /-- In a call that has committed. -/
  | leaving (c : κ) (r : ρ)

/-- The threads of an object, its memory and its mutex. -/
structure State (θ σ κ ℓ ρ : Type*) where
  /-- The memory of the object. -/
  mem : σ
  /-- The thread that holds the mutex. -/
  owner : Option θ
  /-- Where the threads are. -/
  status : θ → Status κ ℓ ρ

/-- A step of a thread. -/
inductive Event (θ κ : Type*) where
  /-- The thread makes a call. -/
  | call (t : θ) (c : κ)
  /-- The thread goes on with the call it is in. -/
  | go (t : θ)

/-- What is seen of a step. -/
inductive Report (κ ρ : Type*) where
  | quiet
  /-- The call commits. -/
  | commit (c : κ) (r : ρ)
  /-- The thread returns from the call. -/
  | ret (c : κ) (r : ρ)

/-- The thread that takes a step. -/
def Event.thread : Event θ κ → θ
  | .call t _ => t
  | .go t => t

/-- The call that an event makes. -/
def Event.made : Event θ κ → List κ
  | .call _ c => [c]
  | .go _ => []

/-- The call that commits. -/
def Report.committed : Report κ ρ → List (κ × ρ)
  | .commit c r => [(c, r)]
  | _ => []

/-- The call that returns. -/
def Report.returned : Report κ ρ → List (κ × ρ)
  | .ret c r => [(c, r)]
  | _ => []

/-- The call that was made and has not committed. -/
def Status.uncommitted : Status κ ℓ ρ → List κ
  | .called c | .waiting c _ | .inside c _ => [c]
  | .idle | .leaving _ _ => []

/-- The call that has committed and not returned. -/
def Status.unreturned : Status κ ℓ ρ → List (κ × ρ)
  | .leaving c r => [(c, r)]
  | _ => []

/-- The thread holds the mutex. -/
def Status.Inside : Status κ ℓ ρ → Prop
  | .inside _ _ => True
  | _ => False

namespace State

/-- All threads are idle and the mutex is free. -/
def start (m : σ) : State θ σ κ ℓ ρ := { mem := m, owner := none, status := fun _ => .idle }

variable [DecidableEq θ]

/-- A thread moves. -/
def set (s : State θ σ κ ℓ ρ) (t : θ) (p : Status κ ℓ ρ) : State θ σ κ ℓ ρ :=
  { s with status := Function.update s.status t p }

variable (s : State θ σ κ ℓ ρ) {t u : θ} (p : Status κ ℓ ρ)

@[simp] theorem set_owner : (s.set t p).owner = s.owner := rfl

@[simp] theorem set_status_self : (s.set t p).status t = p := by
  show Function.update s.status t p t = p
  exact Function.update_self t p s.status

@[simp] theorem set_status_of_ne (h : u ≠ t) : (s.set t p).status u = s.status u := by
  show Function.update s.status t p u = s.status u
  exact Function.update_of_ne h p s.status

end State

namespace Object

variable (O : Object σ κ ℓ ρ)

/-- The statements from `l` on, executed on the memory `m` up to the end of the call. -/
inductive Section : ℓ → σ → σ → ρ → Prop
  | ret {l : ℓ} {m m' : σ} {r : ρ} : O.stmt l m = (m', .ret r) → Section l m m' r
  | goto {l l' : ℓ} {m m₁ m' : σ} {r : ρ} :
      O.stmt l m = (m₁, .goto l') → Section l' m₁ m' r → Section l m m' r

/-- What a call does that nothing interrupts. -/
def Does (c : κ) (m m' : σ) (r : ρ) : Prop :=
  (O.enter c = .ret r ∧ m' = m) ∨ ∃ l, O.enter c = .goto l ∧ O.Section l m m' r

variable {O} in
/-- There is one end that the statements lead to. -/
theorem Section.unique {l : ℓ} {m m₁ m₂ : σ} {r₁ r₂ : ρ} (h₁ : O.Section l m m₁ r₁)
    (h₂ : O.Section l m m₂ r₂) : m₁ = m₂ ∧ r₁ = r₂ := by
  induction h₁ with
  | ret hstmt =>
    cases h₂ with
    | ret hstmt' =>
      rw [hstmt] at hstmt'
      cases hstmt'
      exact ⟨rfl, rfl⟩
    | goto hstmt' _ =>
      rw [hstmt] at hstmt'
      cases hstmt'
  | goto hstmt _ ih =>
    cases h₂ with
    | ret hstmt' =>
      rw [hstmt] at hstmt'
      cases hstmt'
    | goto hstmt' hrest =>
      rw [hstmt] at hstmt'
      cases hstmt'
      exact ih hrest

variable {O} in
/-- There is one thing that a call does. -/
theorem Does.unique {c : κ} {m m₁ m₂ : σ} {r₁ r₂ : ρ} (h₁ : O.Does c m m₁ r₁)
    (h₂ : O.Does c m m₂ r₂) : m₁ = m₂ ∧ r₁ = r₂ := by
  rcases h₁ with ⟨henter₁, rfl⟩ | ⟨l₁, henter₁, hsection₁⟩ <;>
    rcases h₂ with ⟨henter₂, rfl⟩ | ⟨l₂, henter₂, hsection₂⟩ <;>
    cases henter₁.symm.trans henter₂
  · exact ⟨rfl, rfl⟩
  · exact hsection₁.unique hsection₂

variable [DecidableEq θ]

/-- One step of one thread. A thread that is in no call cannot go on, one that is in a call
cannot make another, and one that waits cannot go on while the mutex is held. -/
def step (s : State θ σ κ ℓ ρ) : Event θ κ → Except Unit (State θ σ κ ℓ ρ × Report κ ρ)
  | .call t c =>
    match s.status t with
    | .idle => .ok (s.set t (.called c), .quiet)
    | _ => .error ()
  | .go t =>
    match s.status t with
    | .idle => .error ()
    | .called c =>
      match O.enter c with
      | .goto l => .ok (s.set t (.waiting c l), .quiet)
      | .ret r => .ok (s.set t (.leaving c r), .commit c r)
    | .waiting c l =>
      match s.owner with
      | none => .ok ({ s.set t (.inside c l) with owner := some t }, .quiet)
      | some _ => .error ()
    | .inside c l =>
      match O.stmt l s.mem with
      | (m, .goto l') => .ok ({ s.set t (.inside c l') with mem := m }, .quiet)
      | (m, .ret r) =>
        .ok ({ s.set t (.leaving c r) with mem := m, owner := none }, .commit c r)
    | .leaving c r => .ok (s.set t .idle, .ret c r)

/-- All that a step can do. -/
inductive Moves (s : State θ σ κ ℓ ρ) :
    Event θ κ → State θ σ κ ℓ ρ → Report κ ρ → Prop
  | call {t : θ} {c : κ} : s.status t = .idle →
      Moves s (.call t c) (s.set t (.called c)) .quiet
  | ask {t : θ} {c : κ} {l : ℓ} : s.status t = .called c → O.enter c = .goto l →
      Moves s (.go t) (s.set t (.waiting c l)) .quiet
  | refuse {t : θ} {c : κ} {r : ρ} : s.status t = .called c → O.enter c = .ret r →
      Moves s (.go t) (s.set t (.leaving c r)) (.commit c r)
  | lock {t : θ} {c : κ} {l : ℓ} : s.status t = .waiting c l → s.owner = none →
      Moves s (.go t) { s.set t (.inside c l) with owner := some t } .quiet
  | stmt {t : θ} {c : κ} {l l' : ℓ} {m : σ} : s.status t = .inside c l →
      O.stmt l s.mem = (m, .goto l') →
      Moves s (.go t) { s.set t (.inside c l') with mem := m } .quiet
  | unlock {t : θ} {c : κ} {l : ℓ} {m : σ} {r : ρ} : s.status t = .inside c l →
      O.stmt l s.mem = (m, .ret r) →
      Moves s (.go t) { s.set t (.leaving c r) with mem := m, owner := none } (.commit c r)
  | ret {t : θ} {c : κ} {r : ρ} : s.status t = .leaving c r →
      Moves s (.go t) (s.set t .idle) (.ret c r)

end Object

section Steps

variable [DecidableEq θ] {O : Object σ κ ℓ ρ} {s s' : State θ σ κ ℓ ρ} {e : Event θ κ}
  {o : Report κ ρ}

/-- The steps are the moves. -/
theorem step_eq_ok_iff : O.step s e = .ok (s', o) ↔ O.Moves s e s' o := by
  constructor
  · intro h
    cases e with
    | call t c =>
      cases hs : s.status t <;> simp only [Object.step, hs, Except.ok.injEq, Prod.mk.injEq,
        reduceCtorEq] at h
      obtain ⟨rfl, rfl⟩ := h
      exact .call hs
    | go t =>
      cases hs : s.status t with
      | idle => simp only [Object.step, hs, reduceCtorEq] at h
      | called c =>
        cases henter : O.enter c <;>
          simp only [Object.step, hs, henter, Except.ok.injEq, Prod.mk.injEq] at h
        · obtain ⟨rfl, rfl⟩ := h
          exact .ask hs henter
        · obtain ⟨rfl, rfl⟩ := h
          exact .refuse hs henter
      | waiting c l =>
        cases howner : s.owner <;>
          simp only [Object.step, hs, howner, Except.ok.injEq, Prod.mk.injEq,
            reduceCtorEq] at h
        obtain ⟨rfl, rfl⟩ := h
        exact .lock hs howner
      | inside c l =>
        rcases hstmt : O.stmt l s.mem with ⟨m, l' | r⟩ <;>
          simp only [Object.step, hs, hstmt, Except.ok.injEq, Prod.mk.injEq] at h
        · obtain ⟨rfl, rfl⟩ := h
          exact .stmt hs hstmt
        · obtain ⟨rfl, rfl⟩ := h
          exact .unlock hs hstmt
      | leaving c r =>
        simp only [Object.step, hs, Except.ok.injEq, Prod.mk.injEq] at h
        obtain ⟨rfl, rfl⟩ := h
        exact .ret hs
  · intro h
    cases h with
    | call hs => simp only [Object.step, hs]
    | ask hs henter => simp only [Object.step, hs, henter]
    | refuse hs henter => simp only [Object.step, hs, henter]
    | lock hs howner => simp only [Object.step, hs, howner]
    | stmt hs hstmt => simp only [Object.step, hs, hstmt]
    | unlock hs hstmt => simp only [Object.step, hs, hstmt]
    | ret hs => simp only [Object.step, hs]

end Steps

/-! ### One call after the other -/

/-- What holds between any two steps. The memory `m` is what the committed calls have left: it is
the memory of the object unless a thread holds the mutex, and then it is what the call of that
thread has found. -/
structure Inv (O : Object σ κ ℓ ρ) (m : σ) (s : State θ σ κ ℓ ρ) : Prop where
  /-- No two threads hold the mutex. -/
  inside_iff : ∀ t, (s.status t).Inside ↔ s.owner = some t
  /-- A thread that waits is in a call that has asked for the mutex. -/
  asked : ∀ t c l, s.status t = .waiting c l → O.enter c = .goto l
  /-- Nobody has touched the memory since the last call committed. -/
  free : s.owner = none → s.mem = m
  /-- The rest of a call that holds the mutex does what is left to do of it. -/
  underway : ∀ t c l, s.status t = .inside c l →
    ∀ m' r, O.Section l s.mem m' r → O.Does c m m' r

section Invariant

variable {O : Object σ κ ℓ ρ} {s s' : State θ σ κ ℓ ρ} {e : Event θ κ} {o : Report κ ρ}
  {m m₁ m₂ : σ} {t : θ} {p : Status κ ℓ ρ} {k : Option θ}

/-- The invariant holds where all threads are idle. -/
theorem Inv.start (m : σ) : Inv O m (State.start m : State θ σ κ ℓ ρ) where
  inside_iff _ := iff_of_false id (by simp [State.start])
  asked _ _ _ h := by cases h
  free _ := rfl
  underway _ _ _ h := by cases h

variable [DecidableEq θ]

/-- A thread that moves outside of the mutex keeps the invariant. -/
theorem Inv.set (h : Inv O m s) (hpre : ¬ (s.status t).Inside) (hpost : ¬ p.Inside)
    (hasked : ∀ c l, p = .waiting c l → O.enter c = .goto l) :
    Inv O m (s.set t p) where
  inside_iff u := by
    rw [State.set_owner]
    by_cases hu : u = t
    · subst hu
      rw [State.set_status_self, ← h.inside_iff]
      exact iff_of_false hpost hpre
    · rw [State.set_status_of_ne s p hu, h.inside_iff]
  asked u c l hu := by
    by_cases hut : u = t
    · subst hut
      rw [State.set_status_self] at hu
      exact hasked c l hu
    · rw [State.set_status_of_ne s p hut] at hu
      exact h.asked u c l hu
  free howner := h.free howner
  underway u c l hu := by
    by_cases hut : u = t
    · subst hut
      rw [State.set_status_self] at hu
      exact absurd (hu ▸ trivial : p.Inside) hpost
    · rw [State.set_status_of_ne s p hut] at hu
      exact h.underway u c l hu

/-- A thread that holds the mutex before its step or after it keeps the invariant if its own call
has done what is left to do of it. -/
theorem Inv.hold (h : Inv O m s) (hpre : ∀ u, s.owner = some u → u = t)
    (hpost : ∀ u, k = some u ↔ u = t ∧ p.Inside) (hasked : ∀ c l, p ≠ .waiting c l)
    (hfree : k = none → m₁ = m₂)
    (hunderway : ∀ c l, p = .inside c l → ∀ m' r, O.Section l m₁ m' r → O.Does c m₂ m' r) :
    Inv O m₂ { s.set t p with mem := m₁, owner := k } where
  inside_iff u := by
    by_cases hu : u = t
    · subst hu
      rw [hpost]
      show ((s.set u p).status u).Inside ↔ _
      rw [State.set_status_self]
      exact (and_iff_right rfl).symm
    · rw [hpost]
      show ((s.set t p).status u).Inside ↔ _
      -- another thread has held the mutex neither before nor after
      rw [State.set_status_of_ne s p hu, h.inside_iff]
      exact iff_of_false (fun howner => hu (hpre u howner)) fun hheld => hu hheld.1
  asked u c l hu := by
    by_cases hut : u = t
    · subst hut
      exact absurd ((State.set_status_self s p).symm.trans hu) (hasked c l)
    · exact h.asked u c l ((State.set_status_of_ne s p hut).symm.trans hu)
  free := hfree
  underway u c l hu := by
    by_cases hut : u = t
    · subst hut
      exact hunderway c l ((State.set_status_self s p).symm.trans hu)
    · have hinside : s.status u = .inside c l := (State.set_status_of_ne s p hut).symm.trans hu
      exact absurd (hpre u ((h.inside_iff u).mp (hinside ▸ trivial))) hut

/-- A step keeps the invariant, with the memory that it leaves if it commits a call. -/
theorem Inv.moves (h : Inv O m s) (hmove : O.Moves s e s' o) :
    (o.committed = [] ∧ Inv O m s') ∨
      ∃ c r m', o.committed = [(c, r)] ∧ O.Does c m m' r ∧ Inv O m' s' := by
  cases hmove with
  | call hs => exact .inl ⟨rfl, h.set (by simp [hs, Status.Inside]) id (by simp)⟩
  | @ask t c l hs henter =>
    refine .inl ⟨rfl, h.set (by simp [hs, Status.Inside]) id ?_⟩
    rintro _ _ ⟨⟩
    exact henter
  | refuse hs henter =>
    -- the call ends without having touched the memory
    exact .inr ⟨_, _, m, rfl, .inl ⟨henter, rfl⟩,
      h.set (by simp [hs, Status.Inside]) id (by simp)⟩
  | @lock t c l hs howner =>
    refine .inl ⟨rfl, h.hold (by simp [howner]) (by simp [Status.Inside, eq_comm]) (by simp)
      (by simp) ?_⟩
    rintro _ _ ⟨⟩ m' r hrest
    -- the memory is as the last call has left it
    exact .inr ⟨l, h.asked t c l hs, h.free howner ▸ hrest⟩
  | @stmt t c l l' m₁ hs hstmt =>
    have howner : s.owner = some t := (h.inside_iff t).mp (hs ▸ trivial)
    refine .inl ⟨rfl, h.hold (by simp [howner, eq_comm])
      (by simp [howner, Status.Inside, eq_comm]) (by simp) (by simp [howner]) ?_⟩
    rintro _ _ ⟨⟩ m' r hrest
    exact h.underway t c l hs m' r (.goto hstmt hrest)
  | @unlock t c l m₁ r hs hstmt =>
    have howner : s.owner = some t := (h.inside_iff t).mp (hs ▸ trivial)
    exact .inr ⟨c, r, m₁, rfl, h.underway t c l hs m₁ r (.ret hstmt),
      h.hold (by simp [howner, eq_comm]) (by simp [Status.Inside]) (by simp)
        (fun _ => rfl) (by simp)⟩
  | ret hs => exact .inl ⟨rfl, h.set (by simp [hs, Status.Inside]) id (by simp)⟩

/-- The calls of a run, in the order they commit, are done one after the other, each with the
result it commits with. -/
theorem exists_sequential {spec : σ → κ → Except ε (σ × ρ)} {m₀ : σ}
    {tr : List (Transition (State θ σ κ ℓ ρ) (Event θ κ) (Report κ ρ))}
    (hspec : ∀ c m m' r, O.Does c m m' r → spec m c = .ok (m', r))
    (h : Run O.step (.start m₀) tr s) :
    ∃ seq m, Run spec m₀ seq m ∧
      (seq.map fun u => (u.input, u.output)) = (tr.flatMap fun u => u.output.committed) ∧
      Inv O m s := by
  induction h with
  | nil => exact ⟨[], m₀, .nil, rfl, .start m₀⟩
  | @snoc tr s s' e o _ hstep ih =>
    obtain ⟨seq, m, hseq, hcommitted, hinv⟩ := ih
    rw [List.flatMap_append, List.flatMap_singleton, ← hcommitted]
    rcases hinv.moves (step_eq_ok_iff.mp hstep) with ⟨ho, hinv'⟩ | ⟨c, r, m', ho, hdoes, hinv'⟩
    · exact ⟨seq, m, hseq, by rw [ho, List.append_nil], hinv'⟩
    · refine ⟨_, m', hseq.snoc (hspec c m m' r hdoes), ?_, hinv'⟩
      rw [ho, List.map_append, List.map_singleton]

end Invariant

/-! ### The calls of one thread -/

section Threads

variable [DecidableEq θ] {O : Object σ κ ℓ ρ} {s s' : State θ σ κ ℓ ρ} {e : Event θ κ}
  {o : Report κ ρ} {m₀ : σ} {t : θ}
  {tr : List (Transition (State θ σ κ ℓ ρ) (Event θ κ) (Report κ ρ))}

/-- The calls that a thread makes. -/
def calledBy (t : θ) (tr : List (Transition (State θ σ κ ℓ ρ) (Event θ κ) (Report κ ρ))) :
    List κ :=
  tr.flatMap fun u => if u.input.thread = t then u.input.made else []

/-- The calls of a thread that commit. -/
def committedBy (t : θ) (tr : List (Transition (State θ σ κ ℓ ρ) (Event θ κ) (Report κ ρ))) :
    List (κ × ρ) :=
  tr.flatMap fun u => if u.input.thread = t then u.output.committed else []

/-- The calls that a thread returns from. -/
def returnedBy (t : θ) (tr : List (Transition (State θ σ κ ℓ ρ) (Event θ κ) (Report κ ρ))) :
    List (κ × ρ) :=
  tr.flatMap fun u => if u.input.thread = t then u.output.returned else []

/-- A thread moves by steps of its own only. -/
theorem Object.Moves.status_of_ne (h : O.Moves s e s' o) (ht : e.thread ≠ t) :
    s'.status t = s.status t := by
  cases h <;> exact State.set_status_of_ne s _ (Ne.symm ht)

/-- A step of a thread, seen from its call. -/
theorem Object.Moves.status_self (h : O.Moves s e s' o) :
    (s.status e.thread).uncommitted ++ e.made =
        o.committed.map Prod.fst ++ (s'.status e.thread).uncommitted ∧
      (s.status e.thread).unreturned ++ o.committed =
        o.returned ++ (s'.status e.thread).unreturned := by
  cases h with
  | call hs | ask hs _ | refuse hs _ | lock hs _ | stmt hs _ | unlock hs _ | ret hs =>
    simp [Event.thread, State.set, hs, Status.uncommitted, Status.unreturned, Event.made,
      Report.committed, Report.returned]

/-- A thread commits the calls it makes, in order. One that has not committed is in progress. -/
theorem calledBy_eq (h : Run O.step (.start m₀) tr s) :
    calledBy t tr = (committedBy t tr).map Prod.fst ++ (s.status t).uncommitted := by
  rw [committedBy, List.map_flatMap]
  refine h.fifo (I := fun _ => True) (Q := fun s => (s.status t).uncommitted) trivial
    (fun _ _ _ _ _ _ => trivial) (fun u _ hstep => ?_) rfl
  have hmove := step_eq_ok_iff.mp hstep
  by_cases ht : u.input.thread = t
  · rw [if_pos ht, if_pos ht, ← ht]
    exact hmove.status_self.1
  · rw [if_neg ht, if_neg ht, hmove.status_of_ne ht]
    exact List.append_nil _

/-- A thread returns from the calls it commits, in order, with the results they commit with. One
that it has not returned from is in progress. -/
theorem committedBy_eq (h : Run O.step (.start m₀) tr s) :
    committedBy t tr = returnedBy t tr ++ (s.status t).unreturned := by
  refine h.fifo (I := fun _ => True) (Q := fun s => (s.status t).unreturned) trivial
    (fun _ _ _ _ _ _ => trivial) (fun u _ hstep => ?_) rfl
  have hmove := step_eq_ok_iff.mp hstep
  by_cases ht : u.input.thread = t
  · rw [if_pos ht, if_pos ht, ← ht]
    exact hmove.status_self.2
  · rw [if_neg ht, if_neg ht, hmove.status_of_ne ht]
    exact List.append_nil _

end Threads

/-! ### Progress -/

section Progress

variable [DecidableEq θ] {O : Object σ κ ℓ ρ} {s s' s'' : State θ σ κ ℓ ρ} {m m' : σ}
  {t : θ} {c : κ} {l : ℓ} {r : ρ} {o : Report κ ρ}

variable (O) in
/-- Threads can go on with the calls they are in from one state to the other. -/
def Goes (s s' : State θ σ κ ℓ ρ) : Prop :=
  ∃ tr, Run O.step s tr s' ∧ ∀ u ∈ tr, u.input.made = []

theorem Goes.refl (s : State θ σ κ ℓ ρ) : Goes O s s := ⟨[], .nil, by simp⟩

/-- A thread goes on first. -/
theorem Goes.cons (hmove : O.Moves s (.go t) s' o) (h : Goes O s' s'') : Goes O s s'' := by
  obtain ⟨tr, hrun, hmade⟩ := h
  refine ⟨_, hrun.cons (step_eq_ok_iff.mpr hmove), ?_⟩
  rw [List.forall_mem_cons]
  exact ⟨rfl, hmade⟩

theorem Goes.trans (h : Goes O s s') (h' : Goes O s' s'') : Goes O s s'' := by
  obtain ⟨tr, hrun, hmade⟩ := h
  obtain ⟨tr', hrun', hmade'⟩ := h'
  exact ⟨tr ++ tr', hrun.append hrun', List.forall_mem_append.mpr ⟨hmade, hmade'⟩⟩

/-- The thread that holds the mutex can go on until it lets it go. -/
theorem goes_unlock (h : O.Section l m m' r) (hs : s.status t = .inside c l) (hm : s.mem = m) :
    ∃ s', Goes O s s' ∧ s'.owner = none ∧ s'.status t = .leaving c r ∧
      ∀ u, u ≠ t → s'.status u = s.status u := by
  induction h generalizing s with
  | ret hstmt =>
    subst hm
    exact ⟨_, .cons (.unlock hs hstmt) (.refl _), rfl, State.set_status_self s _,
      fun u hu => State.set_status_of_ne s _ hu⟩
  | @goto l l' m m₁ m' r hstmt _ ih =>
    subst hm
    obtain ⟨s', hgoes, howner, hleaving, hothers⟩ :=
      ih (s := { s.set t (.inside c l') with mem := m₁ }) (State.set_status_self s _) rfl
    exact ⟨s', .cons (.stmt hs hstmt) hgoes, howner, hleaving,
      fun u hu => (hothers u hu).trans (State.set_status_of_ne s _ hu)⟩

/-- A call that has committed can return. -/
theorem goes_return (hs : s.status t = .leaving c r) : ∃ s', Goes O s s' ∧ s'.status t = .idle :=
  ⟨_, .cons (.ret hs) (.refl _), State.set_status_self s _⟩

variable (hends : ∀ l m, ∃ m' r, O.Section l m m' r)

include hends

/-- A call that holds the mutex can be brought to its end. -/
theorem goes_return_of_inside (hs : s.status t = .inside c l) :
    ∃ s', Goes O s s' ∧ s'.status t = .idle := by
  obtain ⟨m', r, hsection⟩ := hends l s.mem
  obtain ⟨s₁, hgoes, -, hleaving, -⟩ := goes_unlock hsection hs rfl
  obtain ⟨s', hgoes', hidle⟩ := goes_return hleaving
  exact ⟨s', hgoes.trans hgoes', hidle⟩

/-- A call that waits can take the mutex if it is free. -/
theorem goes_return_of_waiting (hs : s.status t = .waiting c l) (howner : s.owner = none) :
    ∃ s', Goes O s s' ∧ s'.status t = .idle := by
  obtain ⟨s', hgoes, hidle⟩ := goes_return_of_inside hends
    (s := { s.set t (.inside c l) with owner := some t }) (State.set_status_self s _)
  exact ⟨s', .cons (.lock hs howner) hgoes, hidle⟩

/-- While the mutex is free, every call can be brought to its end. -/
theorem goes_return_of_free (howner : s.owner = none) :
    ∃ s', Goes O s s' ∧ s'.status t = .idle := by
  cases hs : s.status t with
  | idle => exact ⟨s, .refl s, hs⟩
  | called c =>
    cases henter : O.enter c with
    | goto l =>
      obtain ⟨s', hgoes, hidle⟩ :=
        goes_return_of_waiting hends (State.set_status_self s (.waiting c l)) howner
      exact ⟨s', .cons (.ask hs henter) hgoes, hidle⟩
    | ret r =>
      obtain ⟨s', hgoes, hidle⟩ := goes_return (O := O) (State.set_status_self s (.leaving c r))
      exact ⟨s', .cons (.refuse hs henter) hgoes, hidle⟩
  | waiting c l => exact goes_return_of_waiting hends hs howner
  | inside c l => exact goes_return_of_inside hends hs
  | leaving c r => exact goes_return hs

/-- Where every call ends that nothing interrupts, no thread waits for ever: the one that holds
the mutex can let it go, and every other can then go through its call. -/
theorem exists_return (h : Inv O m s) (t : θ) : ∃ s', Goes O s s' ∧ s'.status t = .idle := by
  cases howner : s.owner with
  | none => exact goes_return_of_free hends howner
  | some u =>
    cases hs : s.status u with
    | inside c l =>
      -- this thread goes first
      obtain ⟨m', r, hsection⟩ := hends l s.mem
      obtain ⟨s₁, hgoes, hnone, -, -⟩ := goes_unlock hsection hs rfl
      obtain ⟨s', hgoes', hidle⟩ := goes_return_of_free hends (t := t) hnone
      exact ⟨s', hgoes.trans hgoes', hidle⟩
    | idle | called c | waiting c l | leaving c r =>
      have hheld := (h.inside_iff u).mpr howner
      rw [hs] at hheld
      exact hheld.elim

end Progress

end Guarded
