import RowGuard.Proofs.Number.Interval

/-! # The search for the shortest decimal

The search stops at the first grid of powers of ten with a point in the rounding interval.  With
eighteen digits a grid is finer than any interval is wide, so that the search always finds a point.
-/
namespace RowGuard.Number

/-- A number, counted in quarter units. -/
def quarters (x : ℚ) : ℚ := x * (4 * unitsPerOne)

theorem unitsPerOne_pos : 0 < unitsPerOne := Nat.pow_pos (by decide)

/-- The smallest double is not less than ten to the power minus 330. -/
theorem unitsPerOne_le : unitsPerOne ≤ 10 ^ 330 := by decide +kernel

-- From here on only these two facts about the number are needed, never its digits.
attribute [local irreducible] unitsPerOne

theorem pos_of_quarters_pos {x : ℚ} (h : 0 < quarters x) : 0 < x := by
  have hone : (0 : ℚ) < unitsPerOne := by exact_mod_cast unitsPerOne_pos
  unfold quarters at h
  generalize (unitsPerOne : ℚ) = one at h hone
  exact pos_of_mul_pos_left h (by linarith)

namespace Interval
variable {i : Interval} {k : Int} {c : Nat}

/-- Scaling multiplies everything by one factor, so that the power of ten becomes an integer. -/
theorem scale_eq (i : Interval) (k : Int) : ∃ f one : Nat, 0 < f ∧ 0 < one ∧
    i.scale k = (⟨i.low * f, i.value * f, i.high * f, i.closed⟩, one) ∧
    (one : ℚ) = quarters (10 ^ k) * f := by
  match k with
  | .ofNat p =>
    refine ⟨1, 4 * unitsPerOne * Nat.pow 10 p, one_pos, ?_, by simp [scale], ?_⟩
    · exact Nat.mul_pos (Nat.mul_pos (by decide) unitsPerOne_pos) (Nat.pow_pos (by decide))
    · simp only [quarters, Nat.pow_eq, Int.ofNat_eq_natCast, zpow_natCast]
      push_cast
      ring
  | .negSucc p =>
    refine ⟨Nat.pow 10 (p + 1), 4 * unitsPerOne, Nat.pow_pos (by decide), ?_, rfl, ?_⟩
    · exact Nat.mul_pos (by decide) unitsPerOne_pos
    · simp only [quarters, Nat.pow_eq, zpow_negSucc]
      push_cast
      field_simp

/-- The test for a grid point asks whether it lies in the interval. -/
theorem holds_iff {f one : Nat} (hf : 0 < f) (ho : (one : ℚ) = quarters (10 ^ k) * f) (c : Nat) :
    (⟨i.low * f, i.value * f, i.high * f, i.closed⟩ : Interval).holds one c = true ↔
      i.Contains (quarters (c * 10 ^ k)) := by
  have hf' : (0 : ℚ) < f := by exact_mod_cast hf
  have hx : ((c * one : Nat) : ℚ) = quarters (c * 10 ^ k) * f := by
    push_cast
    rw [ho]
    unfold quarters
    ring
  have hle : ∀ n : Nat, n * f ≤ c * one ↔ (n : ℚ) ≤ quarters (c * 10 ^ k) := fun n => by
    rw [← Nat.cast_le (α := ℚ), hx, Nat.cast_mul, mul_le_mul_iff_of_pos_right hf']
  have hge : ∀ n : Nat, c * one ≤ n * f ↔ quarters (c * 10 ^ k) ≤ (n : ℚ) := fun n => by
    rw [← Nat.cast_le (α := ℚ), hx, Nat.cast_mul, mul_le_mul_iff_of_pos_right hf']
  have hlt := (not_congr (hge i.low)).symm
  have hgt := (not_congr (hle i.high)).symm
  simp only [not_le] at hlt hgt
  unfold holds Contains
  cases i.closed with
  | true => simp [hle i.low, hge i.high]
  | false =>
    simp only [Bool.false_eq_true, ↓reduceIte, decide_eq_true_eq, Bool.decide_and, Bool.and_eq_true,
      forall_const, ← hlt, ← hgt]
    exact ⟨fun h => ⟨h.1.le, h.2.le, h⟩, fun h => h.2.2⟩

/-- What the search takes from a grid lies in the interval. -/
theorem contains_of_onGrid? (h : i.onGrid? k = some c) : i.Contains (quarters (c * 10 ^ k)) := by
  obtain ⟨f, one, hf, -, hscale, ho⟩ := i.scale_eq k
  have hiff := holds_iff (i := i) hf ho
  unfold onGrid? at h
  rw [hscale] at h
  simp only at h
  cases hdown : (⟨i.low * f, i.value * f, i.high * f, i.closed⟩ : Interval).holds one
      (i.value * f / one) <;>
    cases hup : (⟨i.low * f, i.value * f, i.high * f, i.closed⟩ : Interval).holds one
      (i.value * f / one + 1) <;>
    simp only [hdown, hup, Option.some.injEq] at h
  · cases h
  · exact h ▸ (hiff _).1 hup
  · exact h ▸ (hiff _).1 hdown
  · split at h
    · exact h ▸ (hiff _).1 hdown
    · exact h ▸ (hiff _).1 hup

/-- A grid that is finer than the lower half of an interval has a point in it. -/
theorem onGrid?_isSome (hhigh : i.value < i.high)
    (hfine : (i.low : ℚ) + quarters (10 ^ k) < i.value) : (i.onGrid? k).isSome := by
  obtain ⟨f, one, hf, hone, hscale, ho⟩ := i.scale_eq k
  have hf' : (0 : ℚ) < f := by exact_mod_cast hf
  have hstep : i.low * f + one < i.value * f := by
    rw [← Nat.cast_lt (α := ℚ)]
    push_cast
    rw [ho, ← add_mul]
    exact mul_lt_mul_of_pos_right hfine hf'
  have hfloor := Nat.div_add_mod (i.value * f) one
  have hrest := Nat.mod_lt (i.value * f) hone
  have htop : i.value * f < i.high * f := Nat.mul_lt_mul_of_pos_right hhigh hf
  have hdown : (⟨i.low * f, i.value * f, i.high * f, i.closed⟩ : Interval).holds one
      (i.value * f / one) = true := by
    have hpoint : i.value * f / one * one = i.value * f - i.value * f % one := by
      rw [mul_comm]
      omega
    simp only [holds, hpoint]
    split <;> simp only [decide_eq_true_eq] <;> omega
  unfold onGrid?
  rw [hscale]
  simp only [hdown]
  cases (⟨i.low * f, i.value * f, i.high * f, i.closed⟩ : Interval).holds one
    (i.value * f / one + 1) <;> rfl

end Interval

/-! ### The decimal exponent -/

theorem fractionExponent_spec (v one n t : Nat) :
    one ≤ v * 10 ^ fractionExponent v one n t ∨ fractionExponent v one n t = t + n := by
  induction n generalizing t with
  | zero => exact .inr rfl
  | succ n ih =>
    rw [fractionExponent]
    split
    · rename_i h
      exact .inl h
    · rcases ih (t + 1) with h | h
      · exact .inl h
      · exact .inr (by omega)

/-- The power of ten of the decimal exponent is not greater than the double. -/
theorem decimalExponent_le {u : Nat} (hu : 0 < u) :
    10 ^ decimalExponent u * (unitsPerOne : ℚ) ≤ u := by
  unfold decimalExponent
  split
  · rename_i hge
    have hpos : 0 < (digits (u / unitsPerOne)).length := Nat.length_toDigits_pos
    obtain ⟨n, hn⟩ := Nat.exists_eq_succ_of_ne_zero hpos.ne'
    have hpow : 10 ^ n ≤ u / unitsPerOne := by
      cases n with
      | zero => exact (Nat.one_le_div_iff unitsPerOne_pos).2 hge
      | succ n =>
        by_contra hlt
        have hle := (Nat.length_toDigits_le_iff (b := 10) (by decide) n.succ_pos).2 (not_le.1 hlt)
        exact absurd (hn ▸ hle) (by omega)
    have hmul := (Nat.le_div_iff_mul_le unitsPerOne_pos).1 hpow
    rw [hn]
    simpa using (Nat.cast_le (α := ℚ)).2 hmul
  · have hpow : unitsPerOne ≤ u * 10 ^ fractionExponent u unitsPerOne 330 0 := by
      rcases fractionExponent_spec u unitsPerOne 330 0 with h | h
      · exact h
      · rw [h]
        exact unitsPerOne_le.trans (Nat.le_mul_of_pos_left _ hu)
    rw [zpow_neg, zpow_natCast, inv_mul_le_iff₀ (by positivity), mul_comm]
    exact_mod_cast hpow

/-! ### The search -/

/-- The lower half of a rounding interval is not narrower than the 54th binary place of the value,
and it leaves zero out. -/
theorem interval_low {u : Nat} (hu : IsDouble u) (hpos : 0 < u) :
    0 < (interval u).low ∧ (interval u).low * 2 ^ 54 + 4 * u ≤ 4 * u * 2 ^ 54 := by
  obtain ⟨m, P, h⟩ : ∃ m P, Significand u m P := ⟨_, _, hu.significand⟩
  obtain ⟨-, -, -, hlow⟩ := interval_ends h
  have hP := h.pos
  have hm : 0 < m := by
    rcases Nat.eq_zero_or_pos m with rfl | hm
    · have hz := h.units
      omega
    · exact hm
  have hPu : P ≤ u := by
    rw [h.units]
    exact Nat.le_mul_of_pos_left P hm
  rcases hlow with ⟨hm', -, hl⟩ | ⟨-, hl⟩
  · have hv : u = 4503599627370496 * P := by
      rw [h.units, hm']
      norm_num
    omega
  · have hv : u < 9007199254740992 * P := by
      rw [h.units]
      exact Nat.mul_lt_mul_of_pos_right (by have hlt := h.lt; omega) hP
    omega

/-- With eighteen digits there is a grid point in the interval. -/
theorem onGrid?_eighteen {u : Nat} (hu : IsDouble u) (hpos : 0 < u) :
    ((interval u).onGrid? (decimalExponent u - 17)).isSome := by
  obtain ⟨hhigh, hvalue, -, -⟩ := interval_ends hu.significand
  have hP := hu.significand.pos
  obtain ⟨-, hlow⟩ := interval_low hu hpos
  refine Interval.onGrid?_isSome (by omega) ?_
  have hlow' : ((interval u).low : ℚ) * 2 ^ 54 + 4 * u ≤ 4 * u * 2 ^ 54 := by exact_mod_cast hlow
  have hpos' : (0 : ℚ) < u := by exact_mod_cast hpos
  have hstep : quarters (10 ^ (decimalExponent u - 17)) * 10 ^ 17 ≤ 4 * u := by
    have hexp := decimalExponent_le hpos
    rw [quarters, zpow_sub₀ (by norm_num)]
    norm_num
    linarith
  rw [hvalue]
  push_cast
  linarith

theorem shortestFrom_contains {i : Interval} {e : Int} : ∀ fuel n : Nat,
    (i.onGrid? (e - (n + fuel : Nat))).isSome → i.Contains
      (quarters ((shortestFrom i e fuel n).1 * 10 ^ (shortestFrom i e fuel n).2)) := by
  intro fuel
  induction fuel with
  | zero =>
    intro n h
    obtain ⟨c, hc⟩ := Option.isSome_iff_exists.1 h
    rw [Nat.add_zero] at hc
    simp only [shortestFrom, hc, Option.getD_some]
    exact Interval.contains_of_onGrid? hc
  | succ fuel ih =>
    intro n h
    rw [shortestFrom]
    cases hc : i.onGrid? (e - n) with
    | some c => exact Interval.contains_of_onGrid? hc
    | none => exact ih (n + 1) (by rwa [show n + 1 + fuel = n + (fuel + 1) by omega])

theorem dropZeros_value (fuel : Nat) (p : Nat × Int) :
    ((dropZeros fuel p).1 : ℚ) * 10 ^ (dropZeros fuel p).2 = p.1 * 10 ^ p.2 := by
  induction fuel generalizing p with
  | zero => rfl
  | succ fuel ih =>
    obtain ⟨c, k⟩ := p
    rw [dropZeros]
    split
    · rename_i h
      rw [ih]
      have hc : c = c / 10 * 10 := by omega
      have hc' : (c : ℚ) = (c / 10 : Nat) * 10 := by exact_mod_cast hc
      simp only [zpow_add₀ (show (10 : ℚ) ≠ 0 by norm_num), zpow_one]
      rw [hc']
      ring
    · rfl

/-- The decimal that is written for a double lies in the rounding interval of the double. -/
theorem shortest_contains {u : Nat} (hu : IsDouble u) (hpos : 0 < u) :
    (interval u).Contains (quarters ((shortest u).1 * 10 ^ (shortest u).2)) := by
  rw [shortest, dropZeros_value]
  exact shortestFrom_contains 17 0 (onGrid?_eighteen hu hpos)

theorem shortest_pos {u : Nat} (hu : IsDouble u) (hpos : 0 < u) :
    0 < ((shortest u).1 : ℚ) * 10 ^ (shortest u).2 := by
  have hlow : (0 : ℚ) < (interval u).low := by exact_mod_cast (interval_low hu hpos).1
  exact pos_of_quarters_pos (hlow.trans_le (shortest_contains hu hpos).1)

theorem magnitudeText_of_pos {u : Nat} (hpos : 0 < u) :
    magnitudeText u = layout (shortest u).1 (shortest u).2 := by
  rw [magnitudeText, if_neg hpos.ne']

/-- The text of a double tells which double it is. -/
theorem magnitudeText_injective {u v : Nat} (hu : IsDouble u) (hv : IsDouble v)
    (h : magnitudeText u = magnitudeText v) : u = v := by
  have hvalue : ∀ {u : Nat}, 0 < u →
      decimalValue (magnitudeText u) = (shortest u).1 * 10 ^ (shortest u).2 := by
    intro u hpos
    rw [magnitudeText_of_pos hpos, decimalValue_layout]
  have hzero : decimalValue (magnitudeText 0) = 0 := by
    have hpoint := decimalValue_positional (allDigits_zeros 1) (allDigits_zeros 1)
    rw [digitsValue_append_zeros] at hpoint
    exact hpoint.trans (by simp [show digitsValue ['0'] = 0 from rfl])
  have hx := congrArg decimalValue h
  rcases Nat.eq_zero_or_pos u with rfl | hu0 <;> rcases Nat.eq_zero_or_pos v with rfl | hv0
  · rfl
  · rw [hzero, hvalue hv0] at hx
    exact absurd hx (shortest_pos hv hv0).ne
  · rw [hzero, hvalue hu0] at hx
    exact absurd hx (shortest_pos hu hu0).ne'
  · rw [hvalue hu0, hvalue hv0] at hx
    have hboth := shortest_contains hv hv0
    rw [← hx] at hboth
    exact (shortest_contains hu hu0).unique hu hv hboth

end RowGuard.Number
