import Mathlib.Tactic.Common

/-!
# Handles

A handle is acquired by a call that may fail, and released by one that cannot. A resource leaks
when the handle is acquired while it still holds a resource, or is never released. `Paired` says
of a log of these calls that nothing leaks.

## Main result

* `paired_iff_nil`: a handle acquired at the start and released at the end may not be acquired in
  between.
-/

/-- A call on a handle. -/
inductive HandleOp
  /-- The handle is acquired, if that succeeds. -/
  | acquire (ok : Bool)
  /-- The handle is released. -/
  | release
  deriving DecidableEq, Repr

namespace HandleOp

/-- Whether the handle holds a resource after a call. -/
def hold : Bool → HandleOp → Bool
  | held, .acquire ok => held || ok
  | _, .release => false

/-- Whether the handle holds a resource after a log. -/
def holds (ops : List HandleOp) : Bool := ops.foldl hold false

/-- The handle is never acquired while it holds a resource, and it is released as often as it was
acquired. -/
structure Paired (ops : List HandleOp) : Prop where
  /-- Whoever acquires the handle finds it without a resource. -/
  exclusive : ∀ ops₁ ok ops₂, ops = ops₁ ++ .acquire ok :: ops₂ → holds ops₁ = false
  /-- Every resource is released. -/
  balanced : ops.count (.acquire true) = ops.count .release

/-- Between the start and the end, where the handle is acquired and released, nothing may be
done but release it. -/
theorem paired_iff_nil {ops : List HandleOp} (hkept : .release ∉ ops) :
    Paired (.acquire true :: ops ++ [.release]) ↔ ops = [] := by
  constructor
  · intro h
    cases ops with
    | nil => rfl
    | cons op ops =>
      cases op with
      | acquire ok =>
        -- the second call finds the handle with the resource of the first
        have hheld := h.exclusive [.acquire true] ok (ops ++ [.release]) rfl
        cases hheld
      | release => exact absurd List.mem_cons_self hkept
  · rintro rfl
    refine ⟨fun ops₁ ok ops₂ h => ?_, rfl⟩
    -- the only acquisition is the first call, and before it nothing is held
    cases ops₁ with
    | nil => rfl
    | cons op ops₁ =>
      have hrest := (List.cons.inj h).2
      simp [List.singleton_eq_append_iff] at hrest

end HandleOp
