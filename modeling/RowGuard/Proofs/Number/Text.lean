import RowGuard.Proofs.Number.Shortest
import RowGuard.Number.Reading

/-! # The texts of numbers

Two numbers have one text only if they are one number.  A mark tells a double from an integer, the
sign stands in front, and what is left tells the absolute value.
-/
namespace RowGuard.Number

/-- The units of a double are those of a double; an integer may be any. -/
def Proper : Number → Prop
  | double u => IsDouble u.natAbs
  | _ => True

/-! ### What is read is proper -/

/-- A significand of 53 bits, or the one that follows them, makes a double with any power of two. -/
theorem isDouble_mul_two_pow {q s : Nat} (hq : q ≤ 2 ^ 53) : IsDouble (q * 2 ^ s) := by
  by_contra hno
  have hs : s < spareBits (q * 2 ^ s) := by
    by_contra hle
    exact hno ((pow_dvd_pow 2 (not_lt.1 hle)).trans (Nat.dvd_mul_left ..))
  have hfull := le_of_spareBits_pos (Nat.zero_lt_of_lt hs)
  have hstep : 2 ^ 52 * (2 * 2 ^ s) ≤ 2 ^ 52 * 2 ^ spareBits (q * 2 ^ s) := by
    rw [← Nat.pow_succ']
    exact Nat.mul_le_mul_left _ (Nat.pow_le_pow_right (by norm_num) hs)
  -- Only the power of two behind the significands is that great, and it has one more spare bit.
  have hge : 2 ^ 53 ≤ q := by
    refine Nat.le_of_mul_le_mul_right (c := 2 ^ s) ?_ (by positivity)
    calc 2 ^ 53 * 2 ^ s = 2 ^ 52 * (2 * 2 ^ s) := by ring
      _ ≤ q * 2 ^ s := hstep.trans hfull
  obtain rfl : q = 2 ^ 53 := le_antisymm hq hge
  have hbits : spareBits (2 ^ 53 * 2 ^ s) = s + 1 := by
    rw [← Nat.pow_add]
    simp only [spareBits, bitLength, Nat.pow_eq_zero, OfNat.ofNat_ne_zero, false_and, ↓reduceIte,
      Nat.log2_two_pow]
    omega
  refine hno ?_
  rw [IsDouble, hbits, ← Nat.pow_add]
  exact pow_dvd_pow 2 (by omega)

theorem roundHalfEven_le (num den : Nat) : roundHalfEven num den ≤ num / den + 1 := by
  unfold roundHalfEven
  simp only
  split <;> omega

/-- Rounding ends at a double. -/
theorem isDouble_roundRatio (num den : Nat) : IsDouble (roundRatio num den) := by
  refine isDouble_mul_two_pow ((roundHalfEven_le ..).trans (Nat.succ_le_of_lt ?_))
  rw [Nat.pow_eq, ← Nat.div_div_eq_div_mul]
  exact Nat.div_lt_of_lt_mul (by rw [mul_comm]; exact lt_spareBits _)

theorem isDouble_zero : IsDouble 0 := dvd_zero _

theorem isDouble_scaleDown (fuel u k : Nat) (hu : IsDouble u) : IsDouble (scaleDown fuel u k) := by
  induction fuel generalizing u k with
  | zero => exact hu
  | succ fuel ih =>
    rw [scaleDown]
    split
    · exact isDouble_roundRatio ..
    split
    · exact isDouble_zero
    · exact ih _ _ (isDouble_roundRatio ..)

theorem isDouble_of_scale {s u : Nat} {k : Int} (h : scale s k = some u) : IsDouble u := by
  cases k with
  | ofNat p =>
    simp only [scale, scaleUp] at h
    split at h <;> split at h <;> cases h
    · exact isDouble_roundRatio ..
    · exact isDouble_zero
  | negSucc p =>
    obtain rfl := Option.some.inj h
    exact isDouble_scaleDown _ _ _ (isDouble_roundRatio ..)

theorem proper_signed {b : Bool} {u : Nat} (hu : IsDouble u) : (signed b u).Proper := by
  unfold signed
  cases b with
  | false => exact hu
  | true =>
    by_cases h : u = 0
    · simp [h, Proper]
    · simpa [h, Proper] using hu

/-- Every number that a literal stands for is proper. -/
theorem ofLiteral_proper {l : Literal} {n : Number} (h : ofLiteral l = some n) : n.Proper := by
  have hscale : ∀ {s : Nat} {k : Int}, (scale s k).map (signed l.negative) = some n → n.Proper := by
    intro s k h
    obtain ⟨u, hu, rfl⟩ := Option.map_eq_some_iff.1 h
    exact proper_signed (isDouble_of_scale hu)
  unfold ofLiteral at h
  simp only at h
  split at h
  · split at h
    · exact hscale h
    · split at h <;> cases h
      exact proper_signed isDouble_zero
  · split at h
    · split at h
      · cases h
        trivial
      split at h
      · cases h
        trivial
      split at h
      · cases h
        trivial
      · cases h
        exact proper_signed (isDouble_roundRatio ..)
    · exact hscale h

/-! ### The shape of a text -/

/-- The characters that stand in the text of a number. -/
def isNumeral (c : Char) : Bool := c.isDigit || ['.', 'e', '+', '-'].contains c

theorem isNumeral_of_isDigit {c : Char} (h : c.isDigit = true) : isNumeral c = true := by
  simp [isNumeral, h]

/-- The text of the absolute value of a double: a digit first, and not of digits alone. -/
structure MagnitudeShape (cs : List Char) : Prop where
  head : ∃ c r, cs = c :: r ∧ c.isDigit = true
  numeral : ∀ c ∈ cs, isNumeral c = true
  marked : ¬ AllDigits cs

theorem MagnitudeShape.of_marked {d m : Char} {ds r : List Char} (hds : AllDigits (d :: ds))
    (hm : m = '.' ∨ m = 'e') (hr : ∀ c ∈ r, isNumeral c = true) :
    MagnitudeShape (d :: ds ++ m :: r) := by
  refine ⟨⟨d, _, rfl, hds d List.mem_cons_self⟩, fun c hc => ?_, fun hall => ?_⟩
  · rcases List.mem_append.1 hc with hc | hc
    · exact isNumeral_of_isDigit (hds c hc)
    rcases List.mem_cons.1 hc with rfl | hc
    · rcases hm with rfl | rfl <;> rfl
    · exact hr c hc
  · have hd := hall m (by simp)
    rcases hm with rfl | rfl <;> cases hd

theorem AllDigits.numeral {ds : List Char} (h : AllDigits ds) : ∀ c ∈ ds, isNumeral c = true :=
  fun c hc => isNumeral_of_isDigit (h c hc)

theorem layout_shape (c : Nat) (k : Int) : MagnitudeShape (layout c k) := by
  have hds := allDigits_digits c
  have hne : digits c ≠ [] := Nat.toDigits_ne_nil
  unfold layout
  generalize digits c = ds at hds hne
  simp only
  split
  · have hz := hds.append (allDigits_zeros k.toNat)
    match ds, hne with
    | d :: ds, _ => exact .of_marked hz (.inl rfl) (allDigits_zeros 1).numeral
  split
  · rename_i hpoint
    obtain ⟨n, hn⟩ : ∃ n, ((ds.length : Int) + k).toNat = n + 1 :=
      Nat.exists_eq_succ_of_ne_zero (by omega)
    have htake := hds.take (n + 1)
    rw [hn]
    match ds, hne with
    | d :: ds, _ => exact .of_marked htake (.inl rfl) (hds.drop (n + 1)).numeral
  split
  · exact .of_marked (allDigits_zeros 1) (.inl rfl) ((allDigits_zeros _).append hds).numeral
  · -- The sign of the exponent and its digits are numeral as well.
    have hexp : ∀ (e : Int), ∀ c ∈ (if e < 0 then '-' else '+') :: digits e.natAbs,
        isNumeral c = true := by
      intro e c hc
      rcases List.mem_cons.1 hc with rfl | hc
      · split <;> rfl
      · exact (allDigits_digits _).numeral c hc
    match ds, hne with
    | [d], _ => exact .of_marked hds (.inr rfl) (hexp _)
    | d :: d' :: ds, _ =>
      have hrest : AllDigits (d' :: ds) := hds.drop 1
      refine @MagnitudeShape.of_marked d '.' [] _ (hds.take 1) (.inl rfl) fun c hc => ?_
      rcases List.mem_append.1 hc with hc | hc
      · exact hrest.numeral c hc
      rcases List.mem_cons.1 hc with rfl | hc
      · rfl
      · exact hexp _ c hc

theorem magnitudeText_shape (u : Nat) : MagnitudeShape (magnitudeText u) := by
  rcases Nat.eq_zero_or_pos u with rfl | hpos
  · exact .of_marked (allDigits_zeros 1) (.inl rfl) (allDigits_zeros 1).numeral
  · rw [magnitudeText_of_pos hpos]
    exact layout_shape ..

/-! ### Sign and absolute value -/

/-- The absolute value, an integer or a double. -/
inductive Magnitude where
  | whole (n : Nat)
  | units (u : Nat)

namespace Magnitude

def text : Magnitude → List Char
  | whole n => digits n
  | units u => magnitudeText u

def Proper : Magnitude → Prop
  | whole _ => True
  | units u => IsDouble u

theorem text_head (m : Magnitude) : ∃ c r, m.text = c :: r ∧ c.isDigit = true := by
  cases m with
  | whole n =>
    have hds := allDigits_digits n
    have hne : digits n ≠ [] := Nat.toDigits_ne_nil
    obtain ⟨c, r, hcons⟩ := List.exists_cons_of_ne_nil hne
    exact ⟨c, r, hcons, hds c (by simp [hcons])⟩
  | units u => exact (magnitudeText_shape u).head

theorem numeral_of_mem_text (m : Magnitude) : ∀ c ∈ m.text, isNumeral c = true := by
  cases m with
  | whole n => exact (allDigits_digits n).numeral
  | units u => exact (magnitudeText_shape u).numeral

theorem text_injective {m n : Magnitude} (hm : m.Proper) (hn : n.Proper) (h : m.text = n.text) :
    m = n := by
  match m, n with
  | whole a, whole b =>
    have hv := congrArg digitsValue h
    simp only [text, digitsValue_digits] at hv
    rw [hv]
  | units u, units v => rw [magnitudeText_injective hm hn h]
  | whole a, units v =>
    have hds : AllDigits (units v).text := h ▸ allDigits_digits a
    exact absurd hds (magnitudeText_shape v).marked
  | units u, whole b =>
    have hds : AllDigits (units u).text := h ▸ allDigits_digits b
    exact absurd hds (magnitudeText_shape u).marked

end Magnitude

def isNegative : Number → Bool
  | natural _ => false
  | negative _ => true
  | double u => u < 0
  | minusZero => true

def magnitude : Number → Magnitude
  | natural n => .whole n
  | negative n => .whole (n + 1)
  | double u => .units u.natAbs
  | minusZero => .units 0

theorem text_eq (n : Number) :
    n.text = (if n.isNegative then ['-'] else []) ++ n.magnitude.text := by
  cases n with
  | natural n | negative n | minusZero => rfl
  | double u =>
    by_cases h : u < 0
    · simp [text, isNegative, magnitude, Magnitude.text, h]
    · simp [text, isNegative, magnitude, Magnitude.text, h]

theorem eq_of_magnitude {a b : Number} (hs : a.isNegative = b.isNegative)
    (hm : a.magnitude = b.magnitude) : a = b := by
  cases a <;> cases b <;> simp [isNegative, magnitude] at hs hm ⊢ <;> omega

/-- A text of a number begins with a digit or with a sign, and is numeral throughout. -/
theorem text_head (n : Number) : ∃ c r, n.text = c :: r ∧ (c.isDigit = true ∨ c = '-') := by
  rw [text_eq]
  cases n.isNegative with
  | true => exact ⟨'-', _, rfl, .inr rfl⟩
  | false =>
    obtain ⟨c, r, hcons, hd⟩ := n.magnitude.text_head
    exact ⟨c, r, hcons, .inl hd⟩

theorem numeral_of_mem_text (n : Number) : ∀ c ∈ n.text, isNumeral c = true := by
  intro c hc
  rw [text_eq] at hc
  rcases List.mem_append.1 hc with hc | hc
  · split at hc
    · obtain rfl := List.mem_singleton.1 hc
      rfl
    · cases hc
  · exact n.magnitude.numeral_of_mem_text c hc

/-- The text of a number tells which number it is. -/
theorem text_injective {a b : Number} (ha : a.Proper) (hb : b.Proper) (h : a.text = b.text) :
    a = b := by
  have hp : ∀ {n : Number}, n.Proper → n.magnitude.Proper := by
    intro n hn
    cases n with
    | natural n | negative n => trivial
    | double u => exact hn
    | minusZero => exact isDouble_zero
  have hsign : ∀ (m : Magnitude) (cs : List Char), m.text ≠ '-' :: cs := by
    intro m cs he
    obtain ⟨c, r, hcons, hd⟩ := m.text_head
    obtain ⟨rfl, -⟩ := List.cons.inj (hcons.symm.trans he)
    cases hd
  rw [text_eq a, text_eq b] at h
  have hs : a.isNegative = b.isNegative := by
    cases hna : a.isNegative <;> cases hnb : b.isNegative <;> simp only [hna, hnb] at h
    · rfl
    · exact absurd h (hsign _ _)
    · exact absurd h.symm (hsign _ _)
    · rfl
  rw [hs] at h
  exact eq_of_magnitude hs (Magnitude.text_injective (hp ha) (hp hb) (List.append_cancel_left h))

end RowGuard.Number
