import RowGuard.Number.Basic

/-! # Reading a number

A literal is split into sign, digits, fraction and exponent.  An integer literal that fits
sixty-four bits stays an integer.  Any other literal becomes a double: the digits that fit
sixty-four bits are rounded to a double, which is then multiplied or divided by a power of ten that
is itself a double, each step rounded.
-/
namespace RowGuard.Number

structure Literal where
  negative : Bool
  whole : List Char
  /-- The digits after the point, if there is a point. -/
  fraction : Option (List Char)
  /-- The sign of the exponent, positive for `true`, and its digits. -/
  exponent : Option (Bool × List Char)

def digitValue (c : Char) : Nat := c.toNat - '0'.toNat

/-- The bound of integers that stay integers. -/
def wordLimit : Nat := Nat.pow 2 64

/-- Read digits while the number fits a word; the digits that no longer fit are left. -/
def takeDigits (acc : Nat) : List Char → Nat × List Char
  | [] => (acc, [])
  | c :: r =>
    let next := acc * 10 + digitValue c
    if next < wordLimit then takeDigits next r else (acc, c :: r)

/-- The significand and the power of ten of a literal without its exponent.  Digits that no longer
fit are dropped; those before the point still count for the power. -/
def significand (l : Literal) : Nat × Int :=
  let fraction := l.fraction.getD []
  let (w, excess) := takeDigits 0 l.whole
  let (s, left) := takeDigits w fraction
  (s, (excess.length : Int) - ((fraction.length - left.length : Nat) : Int))

/-- The largest power of ten that is applied in one step. -/
def powerStep : Nat := 308

/-- The units of the double nearest to a power of ten. -/
def powerUnits (k : Nat) : Nat := unitsOfNat (Nat.pow 10 k)

/-- Scale a double up by a power of ten; fails beyond the finite doubles. -/
def scaleUp (u k : Nat) : Option Nat :=
  if k ≤ powerStep then
    let v := roundRatio (u * powerUnits k) unitsPerOne
    if v < overflowUnits then some v else none
  else if u = 0 then some 0 else none

/-- Scale a double down by a power of ten, in steps of the largest one. -/
def scaleDown : Nat → Nat → Nat → Nat
  | 0, u, _ => u
  | fuel + 1, u, k =>
    if k ≤ powerStep then roundRatio (u * unitsPerOne) (powerUnits k)
    else if u = 0 then 0
    else scaleDown fuel (roundRatio (u * unitsPerOne) (powerUnits powerStep)) (k - powerStep)

/-- The double of a significand and a power of ten, if it is finite. -/
def scale (s : Nat) (k : Int) : Option Nat :=
  match k with
  | .ofNat p => scaleUp (unitsOfNat s) p
  | .negSucc p => some (scaleDown 10 (unitsOfNat s) (p + 1))

/-- The greatest exponent that is still computed with. -/
def exponentLimit : Nat := Nat.pow 2 31 - 1

/-- The value of exponent digits, `none` beyond the limit. -/
def exponentValue (ds : List Char) : Option Nat :=
  ds.foldl (fun acc c => acc.bind fun n =>
    let next := n * 10 + digitValue c
    if next ≤ exponentLimit then some next else none) (some 0)

def signed (negative : Bool) (u : Nat) : Number :=
  if negative then (if u = 0 then .minusZero else .double (-(u : Int))) else .double u

/-- The number of a literal; `none` if it is beyond the finite doubles. -/
def ofLiteral (l : Literal) : Option Number :=
  let (s, k) := significand l
  match l.exponent with
  | some (up, ds) =>
    match exponentValue ds with
    | some e => (scale s (if up then k + e else k - e)).map (signed l.negative)
    | none => if s ≠ 0 ∧ up then none else some (signed l.negative 0)
  | none =>
    match l.fraction, (takeDigits 0 l.whole).2 with
    | none, [] =>
      if !l.negative then some (.natural s)
      else if s = 0 then some .minusZero
      else if s ≤ Nat.pow 2 63 then some (.negative (s - 1))
      else some (signed true (unitsOfNat s))
    | _, _ => (scale s k).map (signed l.negative)

end RowGuard.Number
