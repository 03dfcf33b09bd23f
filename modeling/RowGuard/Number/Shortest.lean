import RowGuard.Number.Basic

/-! # The text of a number

Integers are written in decimal.  A double is written with the fewest significant digits that read
back as the same double, and of those the nearest.  Doubles from 0.00001 up to, but not including,
ten to the power sixteen are written positionally with at least one decimal place, all others with
an exponent that carries its sign.
-/
namespace RowGuard.Number

def digits (n : Nat) : List Char := Nat.toDigits 10 n

/-- Four times a count of units, with the ends of the interval of reals that round to it. -/
structure Interval where
  low : Nat
  value : Nat
  high : Nat
  /-- Whether the ends themselves round to the value. -/
  closed : Bool

/-- The rounding interval of a positive double; the gap below a power of two is half as wide. -/
def interval (u : Nat) : Interval :=
  let s := spareBits u
  let m := u / Nat.pow 2 s
  let below := if m = Nat.pow 2 52 ∧ s > 0 then Nat.pow 2 s else 2 * Nat.pow 2 s
  ⟨4 * u - below, 4 * u, 4 * u + 2 * Nat.pow 2 s, m % 2 = 0⟩

/-- The interval and the number of quarter units in one, scaled so that `10 ^ k` is `one`. -/
def Interval.scale (i : Interval) (k : Int) : Interval × Nat :=
  let one := 4 * unitsPerOne
  match k with
  | .ofNat p => (i, one * Nat.pow 10 p)
  | .negSucc p =>
    let f := Nat.pow 10 (p + 1)
    (⟨i.low * f, i.value * f, i.high * f, i.closed⟩, one)

/-- Whether `c` steps of `one` lie in the interval. -/
def Interval.holds (i : Interval) (one c : Nat) : Bool :=
  let x := c * one
  if i.closed then i.low ≤ x ∧ x ≤ i.high else i.low < x ∧ x < i.high

/-- The multiple of `10 ^ k` that reads back as the value, the nearer of the two neighbours. -/
def Interval.onGrid? (i : Interval) (k : Int) : Option Nat :=
  let (j, one) := i.scale k
  let c := j.value / one
  let down := j.holds one c
  let up := j.holds one (c + 1)
  let rest := 2 * (j.value % one)
  match down, up with
  | false, false => none
  | true, false => some c
  | false, true => some (c + 1)
  | true, true => some (if rest < one ∨ (rest = one ∧ c % 2 = 0) then c else c + 1)

/-- The least power of ten, among `-n, …, 0`, that is at most the ratio of `v` to `one`. -/
def fractionExponent (v one : Nat) : Nat → Nat → Nat
  | 0, t => t
  | n + 1, t => if v * Nat.pow 10 t ≥ one then t else fractionExponent v one n (t + 1)

def decimalExponent (u : Nat) : Int :=
  if u ≥ unitsPerOne then (digits (u / unitsPerOne)).length - 1
  else -(fractionExponent u unitsPerOne 330 0 : Int)

/-- The shortest decimal: digits and power of ten, tried with `n` digits, then more. -/
def shortestFrom (i : Interval) (e : Int) : Nat → Nat → Nat × Int
  | 0, n => ((i.onGrid? (e - n)).getD 0, e - n)
  | fuel + 1, n =>
    match i.onGrid? (e - n) with
    | some c => (c, e - n)
    | none => shortestFrom i e fuel (n + 1)

/-- Move trailing zeros of the digits into the power of ten. -/
def dropZeros : Nat → Nat × Int → Nat × Int
  | 0, p => p
  | fuel + 1, (c, k) => if c % 10 = 0 ∧ c ≠ 0 then dropZeros fuel (c / 10, k + 1) else (c, k)

/-- Digits and power of ten of the shortest decimal that reads back as a positive double. -/
def shortest (u : Nat) : Nat × Int :=
  dropZeros 20 (shortestFrom (interval u) (decimalExponent u) 17 0)

/-- Lay out digits with a power of ten: positional in the middle range, else with an exponent. -/
def layout (c : Nat) (k : Int) : List Char :=
  let ds := digits c
  let n : Int := ds.length
  let point := n + k
  if 0 ≤ k ∧ point ≤ 16 then ds ++ List.replicate k.toNat '0' ++ ['.', '0']
  else if 0 < point ∧ point ≤ 16 then ds.take point.toNat ++ '.' :: ds.drop point.toNat
  else if -5 < point ∧ point ≤ 0 then '0' :: '.' :: List.replicate (-point).toNat '0' ++ ds
  else
    let e := point - 1
    let mantissa := match ds with
      | [] => []
      | [d] => [d]
      | d :: rest => d :: '.' :: rest
    mantissa ++ 'e' :: (if e < 0 then '-' else '+') :: digits e.natAbs

def magnitudeText (u : Nat) : List Char :=
  if u = 0 then ['0', '.', '0'] else
    let (c, k) := shortest u
    layout c k

def text : Number → List Char
  | natural n => digits n
  | negative n => '-' :: digits (n + 1)
  | double u => if u < 0 then '-' :: magnitudeText u.natAbs else magnitudeText u.natAbs
  | minusZero => ['-', '0', '.', '0']

end RowGuard.Number
