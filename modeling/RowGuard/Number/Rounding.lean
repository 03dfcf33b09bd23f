/-! # Rounding to double precision

Every finite double is a whole number of units, where one unit is the smallest positive double,
two to the power minus 1074.  A double is therefore carried as the integer that counts its units.
`roundRatio` rounds an exact quotient of naturals to the nearest double, a tie going to the even
significand.
-/
namespace RowGuard.Number

def unitsPerOne : Nat := Nat.pow 2 1074

/-- The first count of units beyond the finite doubles. -/
def overflowUnits : Nat := Nat.pow 2 2098

def bitLength (n : Nat) : Nat := if n = 0 then 0 else Nat.log2 n + 1

/-- The number of low bits that do not fit into a 53-bit significand. -/
def spareBits (n : Nat) : Nat := bitLength n - 53

/-- The quotient of `num` by `den` rounded to a natural number, a tie going to the even
neighbour. -/
def roundHalfEven (num den : Nat) : Nat :=
  let q := num / den
  let r := num % den
  if 2 * r > den ∨ (2 * r = den ∧ q % 2 = 1) then q + 1 else q

/-- The quotient of `num` by `den`, in units, rounded to the nearest double. -/
def roundRatio (num den : Nat) : Nat :=
  let s := spareBits (num / den)
  roundHalfEven num (den * Nat.pow 2 s) * Nat.pow 2 s

/-- The units of the double nearest to a natural number. -/
def unitsOfNat (n : Nat) : Nat := roundRatio (n * unitsPerOne) 1

@[simp] theorem unitsOfNat_zero : unitsOfNat 0 = 0 := by
  simp [unitsOfNat, roundRatio, roundHalfEven, spareBits, bitLength]

end RowGuard.Number
