import RowGuard.Json.Printer

/-! # Order of values

`compareValues` compares values of one kind and leaves mixed kinds incomparable; numbers compare as
doubles.  `sortOrder` extends it by the rank of the kind and then by the compact text, so that any
two values can be sorted.
-/
namespace RowGuard.Json

/-- Comparison of two values of one kind. -/
def compareValues (a b : Json) : Option Ordering :=
  match a, b with
  | .num x, .num y => some (x.order y)
  | .str x, .str y => some (compare x y)
  | .bool x, .bool y => some (compare x y)
  | .null, .null => some .eq
  | x, y => if x.same y then some .eq else none

/-- The rank of the kind of a value in the sort order. -/
def rank : Json → Nat
  | .null => 0
  | .bool _ => 1
  | .num _ => 2
  | .str _ => 3
  | .arr _ => 4
  | .obj _ => 5

/-- The order used for sorting and for cursors. -/
def sortOrder (a b : Json) : Ordering :=
  match compareValues a b with
  | some o => o
  | none => (compare a.rank b.rank).then (compare a.compact b.compact)

end RowGuard.Json
