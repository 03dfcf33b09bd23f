import RowGuard.Number.Rounding

/-! # Numbers of three kinds

A number is a non-negative integer, a negative integer or a double.  The kinds are kept apart by
`same`, the structural equality, and merged by `units`, which reads every number as a double.
-/
namespace RowGuard

inductive Number where
  | natural (n : Nat)
  /-- The negative integer whose absolute value is one more than `n`. -/
  | negative (n : Nat)
  /-- The double of the given count of units. -/
  | double (units : Int)
  /-- The double minus zero, which equals zero and is written with its sign. -/
  | minusZero
deriving DecidableEq, Repr

namespace Number

/-- The number read as a double, in units. -/
def units : Number → Int
  | natural n => unitsOfNat n
  | negative n => -(unitsOfNat (n + 1) : Int)
  | double u => u
  | minusZero => 0

/-- Structural equality: the kinds differ, and the two zeros among the doubles are equal. -/
def same : Number → Number → Bool
  | natural m, natural n => m == n
  | negative m, negative n => m == n
  | double u, double v => u == v
  | double u, minusZero => u == 0
  | minusZero, double v => v == 0
  | minusZero, minusZero => true
  | _, _ => false

def order (a b : Number) : Ordering := compare a.units b.units

/-- The number as a natural number, for a non-negative integer. -/
def toNat? : Number → Option Nat
  | natural n => some n
  | _ => none

theorem same_refl (a : Number) : a.same a = true := by
  cases a <;> simp [same]

theorem same_symm (a b : Number) : a.same b = b.same a := by
  cases a <;> cases b <;> simp [same, BEq.comm]

theorem units_eq_of_same {a b : Number} (h : a.same b = true) : a.units = b.units := by
  cases a <;> cases b <;> simp_all [same, units]

end Number
end RowGuard
