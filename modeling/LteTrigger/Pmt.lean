import Mathlib.Algebra.Order.Ring.Int
import Mathlib.Tactic.Common

/-!
# Polymorphic message values

The values of GNU Radio's `pmt` that the blocks use: symbols, integers, booleans, and the pairs that
dictionaries are built from. Values of all other types are there as well, but no function looks into
them. Values are immutable. A `PmtT` is a reference to a value, as `pmt::pmt_t` is, and two
references denote the same object when their `ref`s agree.

C++ exceptions are values of `Exception`, thrown in `Except Exception`.
-/

namespace LteTrigger

/-- The exceptions the blocks and the `pmt` accessors throw. -/
inductive Exception
  /-- `pmt::wrong_type`, with the accessor that was applied to a value of another type. -/
  | wrongType (accessor : String)
  /-- `std::runtime_error`, with its text. -/
  | runtimeError (what : String)
  deriving DecidableEq, Repr

/-- A polymorphic value. -/
inductive Pmt
  /-- `PMT_NIL`, also the empty dictionary. -/
  | nil
  /-- `PMT_T` and `PMT_F`. -/
  | bool (b : Bool)
  /-- An interned symbol. -/
  | symbol (name : String)
  /-- An integer. -/
  | integer (n : ℤ)
  /-- A pair, `car` first. -/
  | pair (car cdr : Pmt)
  /-- A value of another type, such as a real number or a vector. No block looks into it, and
  `code` only tells different values apart. -/
  | other (code : ℕ)
  deriving DecidableEq, Repr

namespace Pmt

/-- `pmt::from_long`. -/
def fromLong (n : ℤ) : Pmt := .integer n

/-- `pmt::intern`. -/
def intern (name : String) : Pmt := .symbol name

end Pmt

/-- A reference to a value. `std::list::remove` and `==` compare the object, not the value. -/
structure PmtT where
  /-- The identity of the object. -/
  ref : ℕ
  /-- Its value. -/
  val : Pmt
  deriving DecidableEq, Repr

/-- `pmt::PMT_NIL`. -/
def PmtT.nil : PmtT := ⟨0, .nil⟩

end LteTrigger
