import RowGuard.Proofs.Number.Layout
import Mathlib.Tactic.Linarith
import Mathlib.Tactic.NormNum
import Mathlib.Data.Nat.Cast.Order.Field

/-! # The shortest decimal and the double

The decimal that is written for a double lies in the rounding interval of the double.  The intervals
of two doubles meet in no number that rounds to both, so that the decimal tells which double it is.
-/
namespace RowGuard.Number

/-- The count of units of a double: what does not fit into a significand of 53 bits is zero. -/
def IsDouble (u : Nat) : Prop := 2 ^ spareBits u ∣ u

instance (u : Nat) : Decidable (IsDouble u) := inferInstanceAs (Decidable (_ ∣ _))

/-! ### Significands -/

theorem two_pow_bitLength {u : Nat} (hu : 0 < u) :
    2 ^ (bitLength u - 1) ≤ u ∧ u < 2 ^ bitLength u := by
  have hne : u ≠ 0 := by omega
  simp only [bitLength, hne, ↓reduceIte, Nat.add_sub_cancel]
  exact ⟨Nat.log2_self_le hne, Nat.lt_log2_self⟩

/-- A count of units is less than 53 bits beyond its spare bits. -/
theorem lt_spareBits (u : Nat) : u < 2 ^ 53 * 2 ^ spareBits u := by
  rcases Nat.eq_zero_or_pos u with rfl | hu
  · exact Nat.mul_pos (by norm_num) (by positivity)
  · rw [← Nat.pow_add]
    refine (two_pow_bitLength hu).2.trans_le (Nat.pow_le_pow_right (by norm_num) ?_)
    unfold spareBits
    omega

/-- Where there are spare bits, the significand has all of its 53 bits. -/
theorem le_of_spareBits_pos {u : Nat} (hs : 0 < spareBits u) : 2 ^ 52 * 2 ^ spareBits u ≤ u := by
  have hu : 0 < u := by
    rcases Nat.eq_zero_or_pos u with rfl | hu
    · simp [spareBits, bitLength] at hs
    · exact hu
  rw [← Nat.pow_add]
  refine le_trans (Nat.pow_le_pow_right (by norm_num) ?_) (two_pow_bitLength hu).1
  unfold spareBits at hs ⊢
  omega

theorem spareBits_mono {u v : Nat} (h : u ≤ v) : spareBits u ≤ spareBits v := by
  by_contra hlt
  have hs : 0 < spareBits u := by omega
  have h₁ := le_of_spareBits_pos hs
  have h₂ := lt_spareBits v
  have hp : 2 * 2 ^ spareBits v ≤ 2 ^ spareBits u := by
    rw [← Nat.pow_succ']
    exact Nat.pow_le_pow_right (by norm_num) (by omega)
  omega

/-- A double as a significand times a power of two, with the bounds of the significand. -/
structure Significand (u m P : Nat) : Prop where
  units : u = m * P
  power : P = 2 ^ spareBits u
  pos : 0 < P
  lt : m < 2 ^ 53
  full : 0 < spareBits u → 2 ^ 52 ≤ m

theorem IsDouble.significand {u : Nat} (hu : IsDouble u) :
    Significand u (u / 2 ^ spareBits u) (2 ^ spareBits u) := by
  have hp : 0 < 2 ^ spareBits u := by positivity
  have he : u / 2 ^ spareBits u * 2 ^ spareBits u = u := Nat.div_mul_cancel hu
  refine ⟨he.symm, rfl, hp, ?_, fun hs => ?_⟩
  · exact Nat.div_lt_of_lt_mul (by rw [mul_comm]; exact lt_spareBits u)
  · exact (Nat.le_div_iff_mul_le hp).2 (le_of_spareBits_pos hs)

/-! ### Rounding intervals -/

/-- A number, in quarter units, rounds to the value of an interval. -/
def Interval.Contains (i : Interval) (x : ℚ) : Prop :=
  i.low ≤ x ∧ x ≤ i.high ∧ (i.closed = false → i.low < x ∧ x < i.high)

/-- What the ends of a rounding interval are. -/
theorem interval_ends {u m P : Nat} (h : Significand u m P) :
    (interval u).high = 4 * u + 2 * P ∧ (interval u).value = 4 * u ∧
      ((interval u).closed = true ↔ m % 2 = 0) ∧
      (m = 2 ^ 52 ∧ 0 < spareBits u ∧ (interval u).low = 4 * u - P ∨
        ¬ (m = 2 ^ 52 ∧ 0 < spareBits u) ∧ (interval u).low = 4 * u - 2 * P) := by
  have hm : u / P = m := Nat.div_eq_of_eq_mul_left h.pos h.units
  simp only [interval, Nat.pow_eq, ← h.power, hm]
  refine ⟨trivial, trivial, by simp, ?_⟩
  by_cases hc : m = 2 ^ 52 ∧ spareBits u > 0
  · exact .inl ⟨hc.1, hc.2, by rw [if_pos hc]⟩
  · exact .inr ⟨hc, by rw [if_neg hc]⟩

/-- Around an odd significand the ends of the interval round to its neighbours. -/
theorem Significand.open_of_odd {u m P : Nat} (h : Significand u m P) (hm : m % 2 = 1) :
    (interval u).closed = false := by
  obtain ⟨-, -, hclosed, -⟩ := interval_ends h
  cases hc : (interval u).closed with
  | false => rfl
  | true =>
    have heven := hclosed.1 hc
    omega

section
variable {u v m n P Q : Nat} (su : Significand u m P) (sv : Significand v n Q)
include su sv

/-- With more spare bits the significand of the greater double is full, and the intervals meet only
behind the greatest significand of the lesser one, which is odd. -/
theorem high_le_of_spareBits_lt (hs : spareBits u < spareBits v) :
    (interval u).high ≤ (interval v).low ∧
      ((interval u).high = (interval v).low → (interval u).closed = false) := by
  obtain ⟨huh, -, -, -⟩ := interval_ends su
  obtain ⟨-, -, -, hvl⟩ := interval_ends sv
  have hP := su.pos
  have hQ : 2 * P ≤ Q := by
    rw [su.power, sv.power, ← Nat.pow_succ']
    exact Nat.pow_le_pow_right (by norm_num) hs
  have hm : u ≤ 9007199254740991 * P := by
    rw [su.units]
    exact Nat.mul_le_mul_right P (by have h := su.lt; omega)
  rcases hvl with ⟨hn, -, hlow⟩ | ⟨hn, hlow⟩
  · have hv : v = 4503599627370496 * Q := by
      rw [sv.units, hn]
      norm_num
    refine ⟨by omega, fun he => su.open_of_odd ?_⟩
    by_contra heven
    have hm' : u ≤ 9007199254740990 * P := by
      rw [su.units]
      exact Nat.mul_le_mul_right P (by have h := su.lt; omega)
    have hlow' : (interval v).low = 18014398509481983 * Q := by omega
    linarith
  · have hn' : 4503599627370497 ≤ n := by
      have hfull := sv.full (by omega)
      have hne : n ≠ 2 ^ 52 := fun h => hn ⟨h, by omega⟩
      omega
    have hv : 4503599627370497 * Q ≤ v := by
      rw [sv.units]
      exact Nat.mul_le_mul_right Q hn'
    exact ⟨by omega, fun he => by omega⟩

/-- With as many spare bits the significands differ by one at least, and the intervals meet only if
they differ by one. -/
theorem high_le_of_spareBits_eq (hs : spareBits u = spareBits v) (hlt : u < v) :
    (interval u).high ≤ (interval v).low ∧ ((interval u).high = (interval v).low →
      (interval u).closed = false ∨ (interval v).closed = false) := by
  obtain ⟨huh, -, -, -⟩ := interval_ends su
  obtain ⟨-, -, -, hvl⟩ := interval_ends sv
  have hP := su.pos
  obtain rfl : P = Q := by rw [su.power, sv.power, hs]
  have hmn : m < n := by
    have h := hlt
    rw [su.units, sv.units] at h
    exact Nat.lt_of_mul_lt_mul_right h
  have hstep : u + P ≤ v := by
    rw [su.units, sv.units, ← Nat.succ_mul]
    exact Nat.mul_le_mul_right P hmn
  rcases hvl with ⟨-, -, hlow⟩ | ⟨-, hlow⟩
  · exact ⟨by omega, fun he => by omega⟩
  refine ⟨by omega, fun he => ?_⟩
  have hn : n = m + 1 := by
    by_contra hne
    have h : u + 2 * P ≤ v := by
      rw [su.units, sv.units, ← Nat.add_mul]
      exact Nat.mul_le_mul_right P (by omega)
    omega
  rcases Nat.mod_two_eq_zero_or_one m with hm | hm
  · exact .inr (sv.open_of_odd (by omega))
  · exact .inl (su.open_of_odd hm)

end

/-- Of two doubles, the interval of the lesser one ends where that of the greater one begins, or
before.  If the two meet, then one of them is open. -/
theorem interval_high_le {u v : Nat} (hu : IsDouble u) (hv : IsDouble v) (hlt : u < v) :
    (interval u).high ≤ (interval v).low ∧ ((interval u).high = (interval v).low →
      (interval u).closed = false ∨ (interval v).closed = false) := by
  rcases Nat.lt_or_eq_of_le (spareBits_mono hlt.le) with hs | hs
  · obtain ⟨hle, hmeet⟩ := high_le_of_spareBits_lt hu.significand hv.significand hs
    exact ⟨hle, fun he => .inl (hmeet he)⟩
  · exact high_le_of_spareBits_eq hu.significand hv.significand hs hlt

/-- No number rounds to two doubles. -/
theorem Interval.Contains.unique {u v : Nat} (hu : IsDouble u) (hv : IsDouble v) {x : ℚ}
    (hx : (interval u).Contains x) (hy : (interval v).Contains x) : u = v := by
  have hno : ∀ {u v : Nat}, IsDouble u → IsDouble v → u < v → (interval u).Contains x →
      ¬ (interval v).Contains x := by
    intro u v hu hv hlt hx hy
    obtain ⟨hle, hmeet⟩ := interval_high_le hu hv hlt
    have hle' : ((interval u).high : ℚ) ≤ (interval v).low := by exact_mod_cast hle
    have he : ((interval u).high : ℚ) = (interval v).low :=
      le_antisymm hle' (hy.1.trans hx.2.1)
    rcases hmeet (by exact_mod_cast he) with hopen | hopen
    · exact absurd (hx.2.2 hopen).2 (not_lt.2 (hle'.trans hy.1))
    · exact absurd (hy.2.2 hopen).1 (not_lt.2 (hx.2.1.trans hle'))
  rcases Nat.lt_trichotomy u v with h | h | h
  · exact absurd hy (hno hu hv h hx)
  · exact h
  · exact absurd hx (hno hv hu h hy)

end RowGuard.Number
