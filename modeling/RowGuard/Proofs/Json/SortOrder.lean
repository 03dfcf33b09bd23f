import Mathlib.Data.List.Forall2
import Mathlib.Data.String.Basic
import RowGuard.Proofs.Json.Text
import RowGuard.Proofs.Query.Ordering

/-! # Where sorting is an order

Sorting takes two arrays for equal when the values in them are, and takes others by their texts.
The two zeros among the doubles are equal and are written differently, so equal arrays may have two
texts, and then another array stands between them: it comes after the one and before the other.  So
sorting orders all values, except around the arrays and objects in which such a zero stands.
-/
namespace RowGuard

/-! ## Texts that differ in a character -/

/-- One text comes before another by the first character in which they differ. -/
def Precedes (u v : List Char) : Prop :=
  ∃ p c d u' v', u = p ++ c :: u' ∧ v = p ++ d :: v' ∧ c < d

theorem Precedes.append {u v : List Char} (h : Precedes u v) (p s t : List Char) :
    Precedes (p ++ u ++ s) (p ++ v ++ t) := by
  obtain ⟨q, c, d, u', v', rfl, rfl, hlt⟩ := h
  exact ⟨p ++ q, c, d, u' ++ s, v' ++ t, by simp, by simp, hlt⟩

theorem Precedes.compare {u v : List Char} (h : Precedes u v) :
    compare (String.ofList u) (String.ofList v) = .lt := by
  obtain ⟨p, c, d, u', v', rfl, rfl, hlt⟩ := h
  refine compare_lt_iff_lt.2 (String.lt_iff_toList_lt.2 ?_)
  rw [String.toList_ofList, String.toList_ofList]
  exact List.append_left_lt (List.Lex.rel hlt)

theorem Precedes.compare_swap {u v : List Char} (h : Precedes u v) :
    Ord.compare (String.ofList v) (String.ofList u) = .gt := by
  rw [Std.OrientedCmp.gt_iff_lt]
  exact h.compare

/-- A text stands between two others: it comes after the one and before the other. -/
def Between (w u v : List Char) : Prop :=
  Precedes u w ∧ Precedes w v ∨ Precedes v w ∧ Precedes w u

theorem Between.symm {w u v : List Char} (h : Between w u v) : Between w v u := Or.symm h

/-- A text that stands between two others still does so inside longer texts. -/
theorem Between.append {w u v : List Char} (h : Between w u v) (p r s t : List Char) :
    Between (p ++ w ++ r) (p ++ u ++ s) (p ++ v ++ t) :=
  h.imp (fun h => ⟨h.1.append p s r, h.2.append p r t⟩)
    fun h => ⟨h.1.append p t r, h.2.append p r s⟩

namespace Json

/-! ## Where two lists differ -/

section Lists
variable {α : Type} {f : α → List Char} {R : α → α → Prop} {xs ys : List α}

theorem joined_eq_of_map_eq (h : xs.map f = ys.map f) : joined f xs = joined f ys := by
  have hmap : ∀ zs : List α, joined f zs = joined id (zs.map f) := by
    rintro (_ | ⟨z, zs⟩)
    · rfl
    · simp [joined, List.flatMap_map]
  rw [hmap, h, ← hmap]

theorem joined_append_cons (before after : List α) (x : α) :
    joined f (before ++ x :: after) =
      (before.map f).flatMap (· ++ [',']) ++ f x ++ after.flatMap fun y => ',' :: f y := by
  induction before with
  | nil => rfl
  | cons y before ih =>
    have hcons : joined f (y :: (before ++ x :: after)) =
        f y ++ ',' :: joined f (before ++ x :: after) := by
      cases before <;> simp [joined]
    rw [List.cons_append, hcons, ih]
    simp

/-- Two related lists with different texts have a first place in which the texts differ. -/
theorem exists_first_difference (h : List.Forall₂ R xs ys) (hne : joined f xs ≠ joined f ys) :
    ∃ before x after before' y after', xs = before ++ x :: after ∧ ys = before' ++ y :: after' ∧
      before.map f = before'.map f ∧ R x y ∧ f x ≠ f y := by
  replace hne := mt joined_eq_of_map_eq hne
  induction h with
  | nil => exact absurd rfl hne
  | @cons x y xs ys hxy _ ih =>
    by_cases hf : f x = f y
    · obtain ⟨before, x', after, before', y', after', rfl, rfl, hmap, hr, hd⟩ :=
        ih fun hmap => hne (by simp [hf, hmap])
      exact ⟨x :: before, x', after, y :: before', y', after', rfl, rfl, by simp [hf, hmap], hr, hd⟩
    · exact ⟨[], x, xs, [], y, ys, rfl, rfl, rfl, hxy, hf⟩

variable {P : α → Prop} {before after after' : List α} {x y : α}

theorem forall₂_replace (hself : ∀ z, R z z) (h : R x y) :
    List.Forall₂ R (before ++ x :: after) (before ++ y :: after) :=
  List.rel_append (List.forall₂_same.2 fun z _ => hself z)
    (.cons h (List.forall₂_same.2 fun z _ => hself z))

theorem rel_of_forall₂ (h : List.Forall₂ R (before ++ x :: after) (before ++ y :: after')) :
    R x y := by
  induction before with
  | nil => cases h; assumption
  | cons _ _ ih => cases h; exact ih ‹_›

theorem forall_mem_replace (h : ∀ z ∈ before ++ x :: after, P z) (hy : P x → P y) :
    ∀ z ∈ before ++ y :: after, P z := by
  simp only [List.forall_mem_append, List.forall_mem_cons] at h ⊢
  exact ⟨h.1, hy h.2.1, h.2.2⟩

end Lists

theorem sameItems_iff {xs ys : List Json} :
    sameItems xs ys = true ↔ List.Forall₂ (fun x y => x.same y = true) xs ys := by
  induction xs generalizing ys with
  | nil => cases ys <;> simp [sameItems]
  | cons x xs ih => cases ys <;> simp [sameItems, ih]

theorem sameFields_iff {fs gs : List (String × Json)} :
    sameFields fs gs = true ↔
      List.Forall₂ (fun e f => e.1 = f.1 ∧ e.2.same f.2 = true) fs gs := by
  induction fs generalizing gs with
  | nil => cases gs <;> simp [sameFields]
  | cons e fs ih => cases gs <;> simp [sameFields, ih]

/-! ## Zeros -/

/-- One of the two zeros among the doubles stands in the value. -/
inductive HoldsZero : Json → Prop
  | zero : HoldsZero (.num (.double 0))
  | minusZero : HoldsZero (.num .minusZero)
  | item {items : List Json} {v : Json} : v ∈ items → HoldsZero v → HoldsZero (.arr items)
  | field {fields : List (String × Json)} {f : String × Json} :
      f ∈ fields → HoldsZero f.2 → HoldsZero (.obj fields)

/-- Numbers that are the same and are written differently are the two zeros. -/
theorem zeros_of_same {m n : Number} (h : m.same n = true) (hne : m.text ≠ n.text) :
    m = .minusZero ∧ n = .double 0 ∨ m = .double 0 ∧ n = .minusZero := by
  cases m <;> cases n <;> simp_all [Number.same]

/-- Minus one stands between the two zeros. -/
theorem between_zeros :
    Between (Number.negative 0).text Number.minusZero.text (Number.double 0).text := by
  have hminus : Number.minusZero.text = ['-', '0', '.', '0'] := rfl
  have hone : (Number.negative 0).text = ['-', '1'] := by decide
  have hzero : (Number.double 0).text = ['0', '.', '0'] := rfl
  rw [hminus, hone, hzero]
  refine .inl ⟨⟨['-'], '0', '1', _, _, rfl, rfl, ?_⟩, ⟨[], '-', '0', _, _, rfl, rfl, ?_⟩⟩
  · decide
  · decide

theorem Proper.replace_item {before after : List Json} {x z : Json}
    (h : (Json.arr (before ++ x :: after)).Proper) (hz : x.Proper → z.Proper) :
    (Json.arr (before ++ z :: after)).Proper := by
  cases h with
  | arr h => exact .arr (forall_mem_replace h hz)

theorem Proper.replace_field {before after : List (String × Json)} {k : String} {x z : Json}
    (h : (Json.obj (before ++ (k, x) :: after)).Proper) (hz : x.Proper → z.Proper) :
    (Json.obj (before ++ (k, z) :: after)).Proper := by
  cases h with
  | obj h => exact .obj (forall_mem_replace h hz)

theorem text_arr_append_cons (before after : List Json) (x : Json) :
    (arr (before ++ x :: after)).text =
      '[' :: (before.map text).flatMap (· ++ [',']) ++ x.text ++
        ((after.flatMap fun y => ',' :: y.text) ++ [']']) := by
  rw [text, itemsText_eq, joined_append_cons]
  simp

theorem text_obj_append_cons (before after : List (String × Json)) (k : String) (x : Json) :
    (obj (before ++ (k, x) :: after)).text =
      '\x7b' :: ((before.map fieldText).flatMap (· ++ [',']) ++ (quoted k ++ [':'])) ++ x.text ++
        ((after.flatMap fun f => ',' :: fieldText f) ++ ['\x7d']) := by
  rw [text, fieldsText_eq, joined_append_cons, fieldText]
  simp

theorem sizeOf_lt_of_field {fields : List (String × Json)} {k : String} {x : Json}
    (h : (k, x) ∈ fields) : sizeOf x < sizeOf fields := by
  have hlt := List.sizeOf_lt_of_mem h
  rw [Prod.mk.sizeOf_spec] at hlt
  omega

/-- If two values are the same and are written differently, a zero stands in them, and another value
of their kind stands between them. -/
theorem exists_between (a c : Json) (hs : a.same c = true) (hne : a.text ≠ c.text) :
    a.HoldsZero ∧ ∃ z, (a.Proper → z.Proper) ∧ z.rank = a.rank ∧ a.same z = false ∧
      Between z.text a.text c.text := by
  match a, c with
  | .num m, .num n =>
    have hneg : ∀ n : Number, (num n).text = n.text := fun n => by rw [text]
    simp only [hneg] at hne
    rcases zeros_of_same (by simpa only [same] using hs) hne with ⟨rfl, rfl⟩ | ⟨rfl, rfl⟩
    · refine ⟨.minusZero, .num (.negative 0), fun _ => .num trivial, rfl, rfl, ?_⟩
      simpa only [hneg] using between_zeros
    · refine ⟨.zero, .num (.negative 0), fun _ => .num trivial, rfl, rfl, ?_⟩
      simpa only [hneg] using between_zeros.symm
  | .arr xs, .arr ys =>
    rw [same, sameItems_iff] at hs
    have hitems : joined text xs ≠ joined text ys :=
      fun he => hne (by simp [text, itemsText_eq, he])
    obtain ⟨before, x, after, before', y, after', hxs, rfl, hmap, hxy, hd⟩ :=
      exists_first_difference hs hitems
    have hlt : sizeOf x < sizeOf xs := List.sizeOf_lt_of_mem (by simp [hxs])
    obtain ⟨hzero, z, hproper, -, hz, hbetween⟩ := exists_between x y hxy hd
    subst hxs
    refine ⟨.item (by simp) hzero, .arr (before ++ z :: after),
      fun h => h.replace_item hproper, rfl, ?_, ?_⟩
    · rw [same, ← Bool.not_eq_true, sameItems_iff]
      exact fun h => by simp [rel_of_forall₂ h] at hz
    · rw [text_arr_append_cons, text_arr_append_cons, text_arr_append_cons, ← hmap]
      exact hbetween.append _ _ _ _
  | .obj es, .obj fs =>
    rw [same, sameFields_iff] at hs
    have hfields : joined fieldText es ≠ joined fieldText fs :=
      fun he => hne (by simp [text, fieldsText_eq, he])
    obtain ⟨before, ⟨k, x⟩, after, before', ⟨l, y⟩, after', hes, rfl, hmap, ⟨hkl, hxy⟩, hd⟩ :=
      exists_first_difference hs hfields
    obtain rfl : k = l := hkl
    have hlt : sizeOf x < sizeOf es := sizeOf_lt_of_field (k := k) (by simp [hes])
    obtain ⟨hzero, z, hproper, -, hz, hbetween⟩ := exists_between x y hxy
      fun he => hd (by simp only [fieldText, he])
    subst hes
    refine ⟨.field (f := (k, x)) (by simp) hzero, .obj (before ++ (k, z) :: after),
      fun h => h.replace_field hproper, rfl, ?_, ?_⟩
    · rw [same, ← Bool.not_eq_true, sameFields_iff]
      exact fun h => by simp [(rel_of_forall₂ h).2] at hz
    · rw [text_obj_append_cons, text_obj_append_cons, text_obj_append_cons, ← hmap]
      exact hbetween.append _ _ _ _
  | .null, .null => exact absurd rfl hne
  | .bool x, .bool y =>
    obtain rfl : x = y := by simpa [same] using hs
    exact absurd rfl hne
  | .str s, .str t =>
    obtain rfl : s = t := by simpa [same] using hs
    exact absurd rfl hne
termination_by sizeOf a

/-- A zero in a value may change its sign: the value stays the same and is written differently. -/
theorem HoldsZero.exists_same {b : Json} (h : b.HoldsZero) :
    ∃ x, (b.Proper → x.Proper) ∧ b.same x = true ∧ b.text ≠ x.text := by
  induction h with
  | zero =>
    refine ⟨.num .minusZero, fun _ => .num trivial, rfl, ?_⟩
    simp [text, Number.text, Number.magnitudeText]
  | minusZero =>
    refine ⟨.num (.double 0), fun _ => .num Number.isDouble_zero, rfl, ?_⟩
    simp [text, Number.text, Number.magnitudeText]
  | item hv _ ih =>
    obtain ⟨x, hproper, hs, hne⟩ := ih
    obtain ⟨before, after, rfl⟩ := List.append_of_mem hv
    refine ⟨.arr (before ++ x :: after), fun h => h.replace_item hproper, ?_, ?_⟩
    · rw [same, sameItems_iff]
      exact forall₂_replace same_refl hs
    · rw [text_arr_append_cons, text_arr_append_cons]
      simpa using hne
  | @field _ f hf _ ih =>
    obtain ⟨k, v⟩ := f
    obtain ⟨x, hproper, hs, hne⟩ := ih
    obtain ⟨before, after, rfl⟩ := List.append_of_mem hf
    refine ⟨.obj (before ++ (k, x) :: after), fun h => h.replace_field hproper, ?_, ?_⟩
    · rw [same, sameFields_iff]
      exact forall₂_replace (fun f => ⟨rfl, same_refl f.2⟩) ⟨rfl, hs⟩
    · rw [text_obj_append_cons, text_obj_append_cons]
      simpa using hne

/-! ## Sorting -/

variable {a b c x : Json}

theorem compact_ne_iff : a.compact ≠ b.compact ↔ a.text ≠ b.text := by
  rw [compact, compact, Ne, String.ofList_inj]

instance (a b : Json) : Decidable (a.Discordant b) := inferInstanceAs (Decidable (_ ∧ _ ∧ _ ≠ _))

theorem Discordant.symm (h : a.Discordant b) : b.Discordant a :=
  ⟨isComposite_eq_of_same h.2.1 ▸ h.1, same_comm a b ▸ h.2.1, h.2.2.symm⟩

theorem sortOrder_of_same (h : a.same b = true) : sortOrder a b = .eq := by
  rw [sortOrder, (compareValues_eq_iff a b).2 (.inl h)]

theorem sortOrder_swap (a b : Json) : sortOrder b a = (sortOrder a b).swap := by
  by_cases h : a.Discordant b
  · rw [sortOrder_of_same h.2.1, sortOrder_of_same h.symm.2.1, Ordering.swap_eq]
  · rw [sortOrder_eq_kindOrder h, sortOrder_eq_kindOrder (mt Discordant.symm h)]
    exact Std.OrientedCmp.eq_swap

/-- Arrays or objects that are not the same are in the order of their texts. -/
theorem sortOrder_of_not_same (ha : a.isComposite = true) (hr : b.rank = a.rank)
    (hs : a.same b = false) : sortOrder a b = compare a.compact b.compact := by
  have hc : (∃ xs, a = .arr xs) ∨ ∃ fs, a = .obj fs := by
    cases a <;> simp_all [isComposite]
  rw [sortOrder, compareValues_composite hc, hs, hr]
  simp

/-- A value that is discordant with another is equal to it, and some value stands between them. -/
theorem Discordant.exists_between (h : b.Discordant x) :
    ∃ z, (b.Proper → z.Proper) ∧ (sortOrder b z = .lt ∧ sortOrder z x = .lt ∨
      sortOrder x z = .lt ∧ sortOrder z b = .lt) := by
  obtain ⟨hb, hs, hne⟩ := h
  obtain ⟨-, z, hproper, hr, hz, hbetween⟩ := Json.exists_between b x hs (compact_ne_iff.1 hne)
  have hx : x.isComposite = true := isComposite_eq_of_same hs ▸ hb
  have hrx : z.rank = x.rank := hr.trans (rank_eq_of_same hs)
  have hzx : x.same z = false := by
    rw [← Bool.not_eq_true] at hz ⊢
    exact fun h => hz (same_trans b x z hs h)
  have hbz := sortOrder_of_not_same hb hr hz
  have hxz := sortOrder_of_not_same hx hrx hzx
  refine ⟨z, hproper, ?_⟩
  rcases hbetween with ⟨hfirst, hsecond⟩ | ⟨hfirst, hsecond⟩
  · refine .inl ⟨hbz.trans hfirst.compare, ?_⟩
    rw [sortOrder_swap, hxz, compact, compact, hsecond.compare_swap, Ordering.swap_gt]
  · refine .inr ⟨hxz.trans hfirst.compare, ?_⟩
    rw [sortOrder_swap, hbz, compact, compact, hsecond.compare_swap, Ordering.swap_gt]

theorem Discordant.holdsZero (h : b.Discordant x) : b.HoldsZero :=
  (Json.exists_between b x h.2.1 (compact_ne_iff.1 h.2.2)).1

theorem exists_discordant_iff :
    (∃ x, (b.Proper → x.Proper) ∧ b.Discordant x) ↔ b.isComposite = true ∧ b.HoldsZero := by
  constructor
  · rintro ⟨x, -, h⟩
    exact ⟨h.1, h.holdsZero⟩
  · rintro ⟨hb, hzero⟩
    obtain ⟨x, hproper, hs, hne⟩ := hzero.exists_same
    exact ⟨x, hproper, hb, hs, compact_ne_iff.2 hne⟩

theorem sortOrder_trans (hb : ¬ (b.isComposite = true ∧ b.HoldsZero)) (hab : sortOrder a b ≠ .gt)
    (hbc : sortOrder b c ≠ .gt) : sortOrder a c ≠ .gt := by
  have hconcordant : ∀ x, ¬ b.Discordant x := fun x h => hb ⟨h.1, h.holdsZero⟩
  by_cases hac : a.Discordant c
  · simp [sortOrder_of_same hac.2.1]
  · rw [sortOrder_eq_kindOrder (mt Discordant.symm (hconcordant a))] at hab
    rw [sortOrder_eq_kindOrder (hconcordant c)] at hbc
    rw [sortOrder_eq_kindOrder hac]
    exact Ordering.isLE_iff_ne_gt.1 (Std.TransCmp.isLE_trans
      (Ordering.isLE_iff_ne_gt.2 hab) (Ordering.isLE_iff_ne_gt.2 hbc))

theorem kindOrder_eq_iff : kindOrder a b = .eq ↔
    a.rank = b.rank ∧ a.magnitude = b.magnitude ∧ a.wording = b.wording := by
  simp [kindOrder, Ordering.then_eq_eq, Std.LawfulEqCmp.compare_eq_iff_eq]

/-- Proper values that are taken for equal and are not discordant compare alike. -/
theorem sortOrder_congr_left (pa : a.Proper) (pb : b.Proper) (h : ¬ a.Discordant b)
    (he : sortOrder a b = .eq) (c : Json) : sortOrder a c = sortOrder b c := by
  rw [sortOrder_eq_kindOrder h] at he
  obtain ⟨hr, -, hw⟩ := kindOrder_eq_iff.1 he
  by_cases ha : a.isComposite = true
  · -- Arrays and objects with one text are one value.
    have htext : a.compact = b.compact := by
      cases a <;> cases b <;> simp_all [rank, wording, isComposite]
    rw [text_injective pa pb (String.ofList_inj.1 htext)]
  · have hb : b.isComposite = false := by
      cases a <;> cases b <;> simp_all [rank, isComposite]
    rw [Bool.not_eq_true] at ha
    rw [sortOrder_eq_kindOrder (not_discordant_of_scalar (.inl ha)),
      sortOrder_eq_kindOrder (not_discordant_of_scalar (.inl hb))]
    exact Std.TransCmp.congr_left he

/-- Sorting turns round with its arguments and takes every value for equal to itself.  It is
transitive at a value exactly if that is no array or object in which a zero among the doubles
stands; and two values that it takes for equal compare alike with every third exactly if they are
not the same array or object written differently. -/
theorem sortOrder_preorder_iff (a b : Json) :
    sortOrder b a = (sortOrder a b).swap ∧ sortOrder b b = .eq ∧
    (b.Proper →
      ((∀ x z : Json, x.Proper → z.Proper → sortOrder x b ≠ .gt → sortOrder b z ≠ .gt →
          sortOrder x z ≠ .gt) ↔
        ¬ (b.isComposite = true ∧ b.HoldsZero))) ∧
    (a.Proper → b.Proper → sortOrder a b = .eq →
      ((∀ z : Json, z.Proper → sortOrder a z = sortOrder b z) ↔ ¬ a.Discordant b)) := by
  refine ⟨sortOrder_swap a b, sortOrder_of_same (same_refl b), fun pb => ⟨fun h hzero => ?_,
    fun hb x z _ _ => sortOrder_trans hb⟩, fun pa pb he => ⟨fun h hd => ?_, fun hd z _ =>
    sortOrder_congr_left pa pb hd he z⟩⟩
  · obtain ⟨x, hx, hd⟩ := exists_discordant_iff.2 hzero
    obtain ⟨z, hz, hbetween⟩ := hd.exists_between
    have hbx := sortOrder_of_same hd.2.1
    have hxb := sortOrder_of_same hd.symm.2.1
    rcases hbetween with ⟨hfirst, hsecond⟩ | ⟨hfirst, hsecond⟩
    · refine h x z (hx pb) (hz pb) (by simp [hxb]) (by simp [hfirst]) ?_
      rw [sortOrder_swap, hsecond, Ordering.swap_lt]
    · refine h z x (hz pb) (hx pb) (by simp [hsecond]) (by simp [hbx]) ?_
      rw [sortOrder_swap, hfirst, Ordering.swap_lt]
  · obtain ⟨z, hz, hbetween⟩ := hd.exists_between
    have heq := h z (hz pa)
    rcases hbetween with ⟨hfirst, hsecond⟩ | ⟨hfirst, hsecond⟩
    · rw [hfirst, sortOrder_swap, hsecond] at heq
      cases heq
    · rw [hfirst, sortOrder_swap, hsecond] at heq
      cases heq

/-! Arrays of one number: the two zeros, and minus one between them. -/
namespace ArraysOfZero

def plus : Json := .arr [.num (.double 0)]

def minus : Json := .arr [.num .minusZero]

def minusOne : Json := .arr [.num (.negative 0)]

theorem proper_plus : plus.Proper := .arr (by simpa using .num Number.isDouble_zero)

theorem proper_minus : minus.Proper := .arr (by simpa using .num trivial)

theorem proper_minusOne : minusOne.Proper := .arr (by simpa using .num trivial)

end ArraysOfZero

open ArraysOfZero in
/-- Sorting is transitive at an array of minus one, and not at an array of minus zero; that array is
equal to the array of zero and does not compare alike. -/
theorem sortOrder_preorder_for_arrays :
    (∀ x z : Json, x.Proper → z.Proper → sortOrder x minusOne ≠ .gt → sortOrder minusOne z ≠ .gt →
      sortOrder x z ≠ .gt) ∧
    (¬ ∀ x z : Json, x.Proper → z.Proper → sortOrder x minus ≠ .gt → sortOrder minus z ≠ .gt →
      sortOrder x z ≠ .gt) ∧
    ¬ ∀ z : Json, z.Proper → sortOrder plus z = sortOrder minus z := by
  obtain ⟨-, -, hminus, hplus⟩ := sortOrder_preorder_iff plus minus
  obtain ⟨-, -, hone, -⟩ := sortOrder_preorder_iff plus minusOne
  have hd : plus.Discordant minus := by decide +kernel
  refine ⟨(hone proper_minusOne).2 ?_, fun h => ?_, fun h => ?_⟩
  · rintro ⟨-, hzero⟩
    cases hzero with
    | item hv hzero =>
      cases List.mem_singleton.1 hv
      cases hzero
  · exact (hminus proper_minus).1 h ⟨rfl, .item List.mem_cons_self .minusZero⟩
  · exact (hplus proper_plus proper_minus (sortOrder_of_same hd.2.1)).1 h hd

open ArraysOfZero in
/-- An array of zero is equal to one of minus zero and comes after one of minus one, which comes
after the array of minus zero. -/
theorem sortOrder_circle_of_zeros : sortOrder plus minus = .eq ∧ sortOrder minus minusOne = .lt ∧
    sortOrder plus minusOne = .gt := by
  decide +kernel

end Json
end RowGuard
