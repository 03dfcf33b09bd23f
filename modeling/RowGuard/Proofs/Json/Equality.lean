import RowGuard.Json.Order

/-! # Two equalities of values

The store compares keys structurally and conditions compare values of one kind.  Structural equality
is an equivalence.  The two agree on all values but numbers that are one and the same double.
-/
namespace RowGuard

theorem Number.same_trans {a b c : Number} (h : a.same b = true) (h' : b.same c = true) :
    a.same c = true := by
  cases a <;> cases b <;> cases c <;> simp_all [Number.same]

namespace Json

mutual
theorem same_comm : (a b : Json) → a.same b = b.same a
  | .null, b => by cases b <;> rfl
  | .bool x, b => by cases b <;> simp [same, BEq.comm]
  | .num x, b => by cases b <;> simp [same, Number.same_symm]
  | .str x, b => by cases b <;> simp [same, BEq.comm]
  | .arr xs, b => match b with
    | .arr ys => by rw [same, same, sameItems_comm xs ys]
    | .null | .bool _ | .num _ | .str _ | .obj _ => rfl
  | .obj xs, b => match b with
    | .obj ys => by rw [same, same, sameFields_comm xs ys]
    | .null | .bool _ | .num _ | .str _ | .arr _ => rfl

theorem sameItems_comm : (xs ys : List Json) → sameItems xs ys = sameItems ys xs
  | [], [] | [], _ :: _ | _ :: _, [] => rfl
  | x :: xs, y :: ys => by rw [sameItems, sameItems, same_comm x y, sameItems_comm xs ys]

theorem sameFields_comm : (xs ys : List (String × Json)) → sameFields xs ys = sameFields ys xs
  | [], [] | [], _ :: _ | _ :: _, [] => rfl
  | (k, x) :: xs, (l, y) :: ys => by
    rw [sameFields, sameFields, same_comm x y, sameFields_comm xs ys, BEq.comm]
end

mutual
theorem same_trans : (a b c : Json) → a.same b = true → b.same c = true → a.same c = true
  | .null, b, c => by cases b <;> cases c <;> simp [same]
  | .bool x, b, c => by cases b <;> cases c <;> simp_all [same]
  | .num x, b, c => by
    cases b <;> cases c <;> simp only [same, Bool.false_eq_true, false_implies, implies_true]
    exact Number.same_trans
  | .str x, b, c => by cases b <;> cases c <;> simp_all [same]
  | .arr xs, b, c => match b, c with
    | .arr ys, .arr zs => by simpa only [same] using sameItems_trans xs ys zs
    | .arr ys, .null | .arr ys, .bool _ | .arr ys, .num _ | .arr ys, .str _ | .arr ys, .obj _ =>
      fun _ h => by simp [same] at h
    | .null, _ | .bool _, _ | .num _, _ | .str _, _ | .obj _, _ => fun h => by simp [same] at h
  | .obj xs, b, c => match b, c with
    | .obj ys, .obj zs => by simpa only [same] using sameFields_trans xs ys zs
    | .obj ys, .null | .obj ys, .bool _ | .obj ys, .num _ | .obj ys, .str _ | .obj ys, .arr _ =>
      fun _ h => by simp [same] at h
    | .null, _ | .bool _, _ | .num _, _ | .str _, _ | .arr _, _ => fun h => by simp [same] at h

theorem sameItems_trans : (xs ys zs : List Json) →
    sameItems xs ys = true → sameItems ys zs = true → sameItems xs zs = true
  | [], [], _ => fun _ h => h
  | _ :: _, [], _ | [], _ :: _, _ => fun h => by simp [sameItems] at h
  | _ :: _, _ :: _, [] => fun _ h => by simp [sameItems] at h
  | x :: xs, y :: ys, z :: zs => by
    simp only [sameItems, Bool.and_eq_true]
    exact fun h h' => ⟨same_trans x y z h.1 h'.1, sameItems_trans xs ys zs h.2 h'.2⟩

theorem sameFields_trans : (xs ys zs : List (String × Json)) →
    sameFields xs ys = true → sameFields ys zs = true → sameFields xs zs = true
  | [], [], _ => fun _ h => h
  | _ :: _, [], _ | [], _ :: _, _ => fun h => by simp [sameFields] at h
  | _ :: _, _ :: _, [] => fun _ h => by simp [sameFields] at h
  | (k, x) :: xs, (l, y) :: ys, (m, z) :: zs => by
    simp only [sameFields, Bool.and_eq_true, beq_iff_eq]
    exact fun h h' => ⟨⟨h.1.1.trans h'.1.1, same_trans x y z h.1.2 h'.1.2⟩,
      sameFields_trans xs ys zs h.2 h'.2⟩
end

theorem isNull_eq_of_same {a b : Json} (h : a.same b = true) : a.isNull = b.isNull := by
  cases a <;> cases b <;> simp_all [same, isNull]

/-- Two numbers that are the same double but are not structurally equal. -/
def NumericTwins (a b : Json) : Prop :=
  ∃ m n, a = .num m ∧ b = .num n ∧ m.units = n.units ∧ m.same n = false

theorem NumericTwins.not_same {a b : Json} (h : a.NumericTwins b) : a.same b = false := by
  obtain ⟨m, n, rfl, rfl, -, hs⟩ := h
  simpa [same] using hs

/-- Structural equality keeps twins. -/
theorem NumericTwins.congr {a b a' b' : Json} (h : a.NumericTwins b) (ha : a.same a' = true)
    (hb : b.same b' = true) : a'.NumericTwins b' := by
  obtain ⟨m, n, rfl, rfl, hu, hs⟩ := h
  obtain ⟨m', rfl, hm⟩ : ∃ m', a' = .num m' ∧ m.same m' = true := by
    cases a' <;> simp_all [same]
  obtain ⟨n', rfl, hn⟩ : ∃ n', b' = .num n' ∧ n.same n' = true := by
    cases b' <;> simp_all [same]
  refine ⟨m', n', rfl, rfl, ?_, Bool.eq_false_iff.2 fun hmn => ?_⟩
  · rw [← Number.units_eq_of_same hm, ← Number.units_eq_of_same hn, hu]
  · rw [Number.same_symm] at hn
    simp [Number.same_trans (Number.same_trans hm hmn) hn] at hs

/-- An array or an object is comparable only with a value that it is structurally equal to. -/
theorem compareValues_composite {a b : Json} (ha : (∃ xs, a = .arr xs) ∨ ∃ fs, a = .obj fs) :
    compareValues a b = if a.same b = true then some .eq else none := by
  rcases ha with ⟨xs, rfl⟩ | ⟨fs, rfl⟩ <;> rfl

/-- Values that compare as equal are structurally equal, or numbers that are the same double. -/
theorem compareValues_eq_iff (a b : Json) :
    compareValues a b = some .eq ↔ a.same b = true ∨ a.NumericTwins b := by
  have hc : (∃ xs, a = .arr xs) ∨ (∃ fs, a = .obj fs) →
      (compareValues a b = some .eq ↔ a.same b = true ∨ a.NumericTwins b) := by
    intro ha
    have hn : ¬ a.NumericTwins b := by
      rintro ⟨m, n, rfl, -⟩
      simp at ha
    rw [compareValues_composite ha]
    by_cases hs : a.same b = true <;> simp [hs, hn]
  cases a with
  | num m =>
    cases b with
    | num n =>
      have hu : m.same n = true → m.units = n.units := Number.units_eq_of_same
      cases hs : m.same n <;>
        simp_all [compareValues, Number.order, same, NumericTwins, Std.LawfulEqCmp.compare_eq_iff_eq]
    | _ => simp [compareValues, same, NumericTwins]
  | null => cases b <;> simp [compareValues, same, NumericTwins]
  | bool x => cases b <;> simp [compareValues, same, NumericTwins]
  | str x => cases b <;> simp [compareValues, same, NumericTwins]
  | arr xs => exact hc (.inl ⟨xs, rfl⟩)
  | obj fs => exact hc (.inr ⟨fs, rfl⟩)

end Json
end RowGuard
