import RowGuard.Proofs.Gate.Decision
import RowGuard.Proofs.Query.Ordering

/-! # Membership in arrays

A value is in an array if it is equal to some item, and it is not in the array if it is equal to no
item.  That is more than being unequal to every item: a value is neither equal nor unequal to one
that it cannot be compared with, and `null` cannot be compared with anything.
-/
namespace RowGuard

namespace Json

/-- Two values that can be compared: they are of one kind, and arrays or objects are the same. -/
def Comparable (a b : Json) : Prop := a.rank = b.rank ∧ (a.isComposite = true → a.same b = true)

instance (a b : Json) : Decidable (Comparable a b) := inferInstanceAs (Decidable (_ ∧ (_ → _)))

theorem compareValues_isSome_iff (a b : Json) :
    (compareValues a b).isSome = true ↔ a.Comparable b := by
  by_cases ha : a.isComposite = true
  · have hc : (∃ xs, a = .arr xs) ∨ ∃ fs, a = .obj fs := by
      cases a <;> simp_all [isComposite]
    rw [compareValues_composite hc]
    by_cases hs : a.same b = true
    · simp [Comparable, hs, rank_eq_of_same hs]
    · simp [Comparable, hs, ha]
  · cases a <;> cases b <;> simp_all [compareValues, Comparable, rank, isComposite, same]

/-- Only `null` can be compared with `null`. -/
theorem not_comparable_null {a : Json} (ha : a.isNull = false) : ¬ a.Comparable .null := by
  cases a <;> simp_all [Comparable, rank, isNull]

end Json

namespace Operator
variable {l v : Json} {items : List Json}

theorem holds_eq_iff (hl : l.isNull = false) :
    eq.holds l v = true ↔ Json.compareValues l v = some .eq := by
  have he : eq.holds l v = if l.isNull || v.isNull then false else compares l v [.eq] := rfl
  rw [he, hl, ← Condition.compares_eq_iff]
  cases v with
  | null =>
    have hnone := mt (Json.compareValues_isSome_iff l .null).1 (Json.not_comparable_null hl)
    rw [Option.not_isSome_iff_eq_none] at hnone
    simp [compares, hnone, Json.isNull]
  | _ => rfl

/-- Unequal are values that can be compared and are not equal. -/
theorem holds_ne_iff (hl : l.isNull = false) :
    ne.holds l v = true ↔ l.Comparable v ∧ eq.holds l v = false := by
  have he : ne.holds l v = if l.isNull || v.isNull then false else compares l v [.lt, .gt] := rfl
  rw [he, hl, ← Bool.not_eq_true, holds_eq_iff hl, ← Json.compareValues_isSome_iff, compares]
  cases hc : Json.compareValues l v with
  | none => simp
  | some o =>
    have hv : v.isNull = false := by
      cases v with
      | null =>
        refine absurd ((Json.compareValues_isSome_iff l .null).1 ?_) (Json.not_comparable_null hl)
        rw [hc, Option.isSome_some]
      | _ => rfl
    cases o <;> simp [hv]

theorem holds_isIn_iff (hl : l.isNull = false) :
    isIn.holds l (.arr items) = true ↔ ∃ v ∈ items, eq.holds l v = true := by
  have he : isIn.holds l (.arr items) = if l.isNull then false else
      items.any fun v => Json.compareValues l v == some .eq := by
    cases l <;> rfl
  simp only [he, hl, holds_eq_iff hl, Bool.false_eq_true, ↓reduceIte, List.any_eq_true, beq_iff_eq]

theorem holds_notIn_iff (hl : l.isNull = false) :
    notIn.holds l (.arr items) = true ↔ ∀ v ∈ items, eq.holds l v = false := by
  have he : notIn.holds l (.arr items) = !isIn.holds l (.arr items) := by
    cases l <;> first | rfl | cases hl
  rw [he, Bool.not_eq_true', ← Bool.not_eq_true, holds_isIn_iff hl]
  simp

/-- A value is unequal to every item of an array that it is not in exactly if it can be compared
with every item. -/
theorem forall_ne_iff (hl : l.isNull = false) :
    (∀ v ∈ items, ne.holds l v = true) ↔
      notIn.holds l (.arr items) = true ∧ ∀ v ∈ items, l.Comparable v := by
  simp only [holds_ne_iff hl, holds_notIn_iff hl, forall_and, and_comm]

end Operator

/-- A value is in an array exactly if it is equal to some item.  It is not in an array exactly if it
is unequal to every item, as long as it can be compared with every item or is equal to one; else it
is not in the array and yet not unequal to some item. -/
theorem Condition.membership_agrees_iff {row : Row} {left right : Operand} {items : List Json}
    (hl : (left.value row).isNull = false) (hr : right.value row = .arr items) :
    ((simple .isIn left right).holds row = true ↔
      ∃ v ∈ items, (simple .eq left (.literal v)).holds row = true) ∧
    ((simple .notIn left right).holds row = true ↔
      ∀ v ∈ items, (simple .eq left (.literal v)).holds row = false) ∧
    (((simple .notIn left right).holds row = true ↔
        ∀ v ∈ items, (simple .ne left (.literal v)).holds row = true) ↔
      (∀ v ∈ items, (left.value row).Comparable v) ∨
        ∃ v ∈ items, (simple .eq left (.literal v)).holds row = true) := by
  have hliteral : ∀ v, (Operand.literal v).value row = v := fun _ => rfl
  simp only [holds, hliteral, hr]
  have hin := @Operator.holds_isIn_iff (left.value row) items hl
  have hnot := @Operator.holds_notIn_iff (left.value row) items hl
  refine ⟨hin, hnot, ?_⟩
  rw [Operator.forall_ne_iff hl]
  constructor
  · intro h
    by_cases hn : Operator.notIn.holds (left.value row) (.arr items) = true
    · exact .inl (h.1 hn).2
    · rw [hnot] at hn
      simpa using Or.inr hn
  · rintro (hall | ⟨v, hv, he⟩)
    · exact ⟨fun hn => ⟨hn, hall⟩, And.left⟩
    · have hn : ¬ Operator.notIn.holds (left.value row) (.arr items) = true := fun hn => by
        simp [hnot.1 hn v hv] at he
      exact iff_of_false hn fun h => hn h.1

/-! A note of rank five, and lists of ranks. -/
namespace ListedRanks

def note : Row := .ofList [("id", .str "n1"), ("rank", .ofNat 5)]

/-- The rank is compared with a value, or with a list of values. -/
def rank (op : Operator) (v : Json) : Condition := .compareColumn "rank" op v

def others : List Json := [.ofNat 2, .ofNat 7]

def unranked : List Json := [.ofNat 2, .null]

end ListedRanks

open ListedRanks in
/-- Five is not among two and seven, and unequal to both; it is not among two and nothing either,
and yet not unequal to both. -/
theorem Condition.membership_agrees_for_ranks :
    ((rank .notIn (.arr others)).holds note = true ↔ ∀ v ∈ others, (rank .ne v).holds note = true) ∧
    ¬ ((rank .notIn (.arr unranked)).holds note = true ↔
      ∀ v ∈ unranked, (rank .ne v).holds note = true) := by
  have hl : ((Operand.column "rank").value note).isNull = false := rfl
  constructor
  · have hothers := @membership_agrees_iff note _ (.literal (.arr others)) others hl rfl
    exact hothers.2.2.2 (.inl (by decide))
  · have hunranked := @membership_agrees_iff note _ (.literal (.arr unranked)) unranked hl rfl
    exact mt hunranked.2.2.1 (by decide +kernel)

open ListedRanks in
/-- Five is in no list that holds only `null`, or only a text, and is unequal to neither. -/
theorem Condition.notIn_holds_of_incomparable :
    (rank .notIn (.arr [.null])).holds note = true ∧ (rank .ne .null).holds note = false ∧
    (rank .notIn (.arr [.str "best"])).holds note = true ∧
      (rank .ne (.str "best")).holds note = false :=
  ⟨rfl, rfl, rfl, rfl⟩

end RowGuard
