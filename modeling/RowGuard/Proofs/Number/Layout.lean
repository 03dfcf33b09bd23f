import RowGuard.Number.Shortest
import Mathlib.Algebra.Order.Field.Rat
import Mathlib.Algebra.Order.Field.Power
import Mathlib.Tactic.FieldSimp
import Mathlib.Tactic.Ring

/-! # Decimal texts and their values

A decimal text stands for a rational number: its digits without the point, times a power of ten that
the exponent and the digits behind the point make up.  However digits and a power of ten are laid
out, the text stands for their product.
-/
namespace RowGuard.Number

/-- The natural number that digits stand for. -/
def digitsValue (ds : List Char) : Nat := Nat.ofDigitChars 10 ds 0

/-- The exponent behind a mantissa; there is none in a text without an exponent. -/
def exponentOf : List Char → Int
  | 'e' :: '-' :: ds => -(digitsValue ds : Int)
  | 'e' :: '+' :: ds => digitsValue ds
  | _ => 0

/-- The value that a decimal text stands for. -/
def decimalValue (cs : List Char) : ℚ :=
  let mantissa := cs.takeWhile (· ≠ 'e')
  let whole := mantissa.takeWhile (· ≠ '.')
  let fraction := (mantissa.dropWhile (· ≠ '.')).drop 1
  digitsValue (whole ++ fraction) *
    10 ^ (exponentOf (cs.dropWhile (· ≠ 'e')) - (fraction.length : Int))

theorem digitsValue_digits (n : Nat) : digitsValue (digits n) = n := Nat.ofDigitChars_ten_toDigits

theorem digitsValue_append_zeros (ds : List Char) (n : Nat) :
    digitsValue (ds ++ List.replicate n '0') = digitsValue ds * 10 ^ n := by
  rw [digitsValue, Nat.ofDigitChars_append, Nat.ofDigitChars_replicate_zero, mul_comm]
  rfl

theorem digitsValue_zeros_append (n : Nat) (ds : List Char) :
    digitsValue (List.replicate n '0' ++ ds) = digitsValue ds := by
  rw [digitsValue, Nat.ofDigitChars_append, Nat.ofDigitChars_replicate_zero, mul_zero]
  rfl

def AllDigits (ds : List Char) : Prop := ∀ c ∈ ds, c.isDigit = true

theorem allDigits_digits (n : Nat) : AllDigits (digits n) := fun _ hc =>
  Nat.isDigit_of_mem_toDigits (by decide) (by decide) hc

theorem AllDigits.append {ds es : List Char} (hd : AllDigits ds) (he : AllDigits es) :
    AllDigits (ds ++ es) := fun c hc => (List.mem_append.1 hc).elim (hd c) (he c)

theorem allDigits_zeros (n : Nat) : AllDigits (List.replicate n '0') := fun c hc => by
  rw [(List.mem_replicate.1 hc).2]
  decide

theorem AllDigits.take {ds : List Char} (hd : AllDigits ds) (n : Nat) : AllDigits (ds.take n) :=
  fun c hc => hd c (List.mem_of_mem_take hc)

theorem AllDigits.drop {ds : List Char} (hd : AllDigits ds) (n : Nat) : AllDigits (ds.drop n) :=
  fun c hc => hd c (List.mem_of_mem_drop hc)

theorem AllDigits.ne {ds : List Char} (h : AllDigits ds) {x : Char} (hx : x.isDigit = false) :
    ∀ c ∈ ds, c ≠ x := fun c hc he => by
  have hd := h c hc
  rw [he, hx] at hd
  cases hd

/-- The value of a text with a point, and perhaps with an exponent. -/
theorem decimalValue_point {whole fraction tail : List Char} (hw : AllDigits whole)
    (hf : AllDigits fraction) (ht : tail = [] ∨ tail.head? = some 'e') :
    decimalValue (whole ++ '.' :: fraction ++ tail) =
      digitsValue (whole ++ fraction) * 10 ^ (exponentOf tail - (fraction.length : Int)) := by
  have hmantissa : ∀ c ∈ whole ++ '.' :: fraction, (decide (c ≠ 'e')) = true := by
    intro c hc
    rcases List.mem_append.1 hc with hc | hc
    · exact decide_eq_true (hw.ne (by decide) c hc)
    · rcases List.mem_cons.1 hc with rfl | hc
      · decide
      · exact decide_eq_true (hf.ne (by decide) c hc)
  have hwhole : ∀ c ∈ whole, (decide (c ≠ '.')) = true := fun c hc =>
    decide_eq_true (hw.ne (by decide) c hc)
  have htail : tail.takeWhile (· ≠ 'e') = [] ∧ tail.dropWhile (· ≠ 'e') = tail := by
    rcases ht with rfl | ht
    · exact ⟨rfl, rfl⟩
    · cases tail with
      | nil => cases ht
      | cons c tail =>
        obtain rfl := Option.some.inj ht
        simp
  simp only [decimalValue]
  rw [List.takeWhile_append_of_pos hmantissa, List.dropWhile_append_of_pos hmantissa, htail.1,
    htail.2, List.append_nil, List.takeWhile_append_of_pos hwhole,
    List.dropWhile_append_of_pos hwhole]
  simp

/-- The value of a text with a point and without an exponent. -/
theorem decimalValue_positional {whole fraction : List Char} (hw : AllDigits whole)
    (hf : AllDigits fraction) : decimalValue (whole ++ '.' :: fraction) =
      digitsValue (whole ++ fraction) * 10 ^ (-(fraction.length : Int)) := by
  have hv := decimalValue_point hw hf (.inl (rfl : [] = []))
  have hexp : exponentOf [] = 0 := rfl
  rwa [List.append_nil, hexp, zero_sub] at hv

/-- The value of a text with an exponent and without a point. -/
theorem decimalValue_exponent {whole tail : List Char} (hw : AllDigits whole)
    (ht : tail.head? = some 'e') :
    decimalValue (whole ++ tail) = digitsValue whole * 10 ^ exponentOf tail := by
  have hmantissa : ∀ c ∈ whole, (decide (c ≠ 'e')) = true := fun c hc =>
    decide_eq_true (hw.ne (by decide) c hc)
  have hwhole : ∀ c ∈ whole, (decide (c ≠ '.')) = true := fun c hc =>
    decide_eq_true (hw.ne (by decide) c hc)
  cases tail with
  | nil => cases ht
  | cons c tail =>
    obtain rfl := Option.some.inj ht
    simp only [decimalValue]
    have htake : whole.takeWhile (· ≠ '.') = whole := by
      simpa using @List.takeWhile_append_of_pos _ _ _ [] hwhole
    have hdrop : whole.dropWhile (· ≠ '.') = [] := by
      simpa using @List.dropWhile_append_of_pos _ _ _ [] hwhole
    rw [List.takeWhile_append_of_pos hmantissa, List.dropWhile_append_of_pos hmantissa,
      List.takeWhile_cons_of_neg (by decide), List.dropWhile_cons_of_neg (by decide),
      List.append_nil, htake, hdrop]
    simp

/-- The exponent that is written for an integer. -/
theorem exponentOf_written (e : Int) :
    exponentOf ('e' :: (if e < 0 then '-' else '+') :: digits e.natAbs) = e := by
  by_cases h : e < 0
  · simp only [h, ↓reduceIte, exponentOf, digitsValue_digits]
    omega
  · simp only [h, ↓reduceIte, exponentOf, digitsValue_digits]
    omega

/-- Digits with a power of ten are laid out as a text that stands for their product. -/
theorem decimalValue_layout (c : Nat) (k : Int) : decimalValue (layout c k) = c * 10 ^ k := by
  have hds := allDigits_digits c
  have hval := digitsValue_digits c
  have hne : digits c ≠ [] := Nat.toDigits_ne_nil
  unfold layout
  generalize digits c = ds at hds hval hne
  subst hval
  simp only
  split
  · -- Positional, with zeros behind the digits.
    rename_i hwhole
    obtain ⟨n, rfl⟩ := Int.eq_ofNat_of_zero_le hwhole.1
    have hv := decimalValue_positional (hds.append (allDigits_zeros n)) (allDigits_zeros 1)
    rw [digitsValue_append_zeros, digitsValue_append_zeros] at hv
    simp only [Int.toNat_natCast, List.replicate_one, List.length_singleton] at hv ⊢
    rw [hv]
    simp
  rename_i hwhole
  split
  · -- Positional, with the point between the digits.
    rename_i hpoint
    have hv := decimalValue_positional (hds.take ((ds.length : Int) + k).toNat)
      (hds.drop ((ds.length : Int) + k).toNat)
    have hlength : -((ds.drop ((ds.length : Int) + k).toNat).length : Int) = k := by
      rw [List.length_drop]
      omega
    rw [hv, List.take_append_drop, hlength]
  rename_i hpoint
  split
  · -- Positional, with zeros before the digits.
    rename_i hsmall
    have hv := decimalValue_positional (allDigits_zeros 1)
      ((allDigits_zeros (-((ds.length : Int) + k)).toNat).append hds)
    have hlength : -((List.replicate (-((ds.length : Int) + k)).toNat '0' ++ ds).length : Int) = k := by
      rw [List.length_append, List.length_replicate]
      omega
    rw [hlength, digitsValue_zeros_append, digitsValue_zeros_append] at hv
    exact hv
  · -- With an exponent.
    have hexp := exponentOf_written ((ds.length : Int) + k - 1)
    generalize htail : 'e' :: (if (ds.length : Int) + k - 1 < 0 then '-' else '+') ::
      digits ((ds.length : Int) + k - 1).natAbs = tail at hexp ⊢
    have hhead : tail.head? = some 'e' := by rw [← htail]; rfl
    match ds, hne with
    | [d], _ =>
      have hv := decimalValue_exponent hds hhead
      rw [hexp] at hv
      simpa using hv
    | d :: d' :: ds, _ =>
      have hfirst : AllDigits [d] := hds.take 1
      have hrest : AllDigits (d' :: ds) := hds.drop 1
      have hv := decimalValue_point hfirst hrest (.inr hhead)
      rw [hexp] at hv
      have hk : ((d :: d' :: ds).length : Int) + k - 1 - (d' :: ds).length = k := by
        simp only [List.length_cons]
        omega
      rw [hk] at hv
      exact hv

end RowGuard.Number
