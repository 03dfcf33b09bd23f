import RowGuard.Query.Execution

/-! # Sorted lists

Sorting by an order puts the elements in ascending order.  If no two of them tie, the order is
strict, and the sorted list is the only one: it does not depend on where the elements stood before.
In a strictly ascending list the place of an element is the number of elements before it, and what
follows a first part is what is greater than its last element.
-/
namespace RowGuard
variable {α : Type} {cmp : α → α → Ordering} {xs ys : List α} {x : α}

/-- Strictly ascending order. -/
def Sorted (cmp : α → α → Ordering) (xs : List α) : Prop := xs.Pairwise fun a b => cmp a b = .lt

theorem pairwise_insertDescending [Std.TransCmp cmp]
    (h : xs.Pairwise fun a b => (cmp b a).isLE = true) :
    (insertDescending cmp x xs).Pairwise fun a b => (cmp b a).isLE = true := by
  induction xs with
  | nil => exact List.pairwise_singleton ..
  | cons y ys ih =>
    obtain ⟨hy, hys⟩ := List.pairwise_cons.1 h
    rw [insertDescending]
    split
    · rename_i hlt
      refine List.pairwise_cons.2 ⟨fun z hz => ?_, ih hys⟩
      rcases List.mem_cons.1 ((insertDescending_perm cmp x ys).mem_iff.1 hz) with rfl | hz
      · simp [hlt]
      · exact hy z hz
    · rename_i hge
      have hyx : (cmp y x).isLE = true := by
        rw [@Std.OrientedCmp.eq_swap α cmp]
        cases hc : cmp x y <;> simp_all
      refine List.pairwise_cons.2 ⟨fun z hz => ?_, h⟩
      rcases List.mem_cons.1 hz with rfl | hz
      · exact hyx
      · exact Std.TransCmp.isLE_trans (hy z hz) hyx

theorem sortBy_pairwise [Std.TransCmp cmp] (xs : List α) :
    (sortBy cmp xs).Pairwise fun a b => (cmp a b).isLE = true := by
  have h : ∀ (xs acc : List α), (acc.Pairwise fun a b => (cmp b a).isLE = true) →
      (xs.foldl (fun acc x => insertDescending cmp x acc) acc).Pairwise
        fun a b => (cmp b a).isLE = true := by
    intro xs
    induction xs with
    | nil => exact fun _ h => h
    | cons x xs ih => exact fun acc h => ih _ (pairwise_insertDescending h)
  exact List.pairwise_reverse.2 (h xs [] .nil)

/-- Sorting depends on the comparisons of the elements alone. -/
theorem sortBy_congr {cmp' : α → α → Ordering} (h : ∀ a ∈ xs, ∀ b ∈ xs, cmp a b = cmp' a b) :
    sortBy cmp xs = sortBy cmp' xs := by
  have hinsert : ∀ (x : α) (acc : List α), (∀ y ∈ acc, cmp x y = cmp' x y) →
      insertDescending cmp x acc = insertDescending cmp' x acc := by
    intro x acc
    induction acc with
    | nil => exact fun _ => rfl
    | cons y acc ih =>
      intro h
      rw [insertDescending, insertDescending, h y List.mem_cons_self,
        ih fun z hz => h z (List.mem_cons_of_mem _ hz)]
  have hfold : ∀ rest acc : List α, (∀ a ∈ rest, a ∈ xs) → (∀ a ∈ acc, a ∈ xs) →
      rest.foldl (fun acc x => insertDescending cmp x acc) acc =
        rest.foldl (fun acc x => insertDescending cmp' x acc) acc := by
    intro rest
    induction rest with
    | nil => exact fun _ _ _ => rfl
    | cons x rest ih =>
      intro acc hrest hacc
      obtain ⟨hx, hrest⟩ := List.forall_mem_cons.1 hrest
      rw [List.foldl_cons, List.foldl_cons, hinsert x acc fun y hy => h x hx y (hacc y hy)]
      refine ih _ hrest fun a ha => ?_
      rcases List.mem_cons.1 ((insertDescending_perm cmp' x acc).mem_iff.1 ha) with rfl | ha
      · exact hx
      · exact hacc a ha
  exact congrArg List.reverse (hfold xs [] (fun _ h => h) (List.forall_mem_nil _))

/-- Elements that do not tie are sorted in strictly ascending order. -/
theorem sorted_sortBy [Std.TransCmp cmp] (h : xs.Pairwise fun a b => cmp a b ≠ .eq) :
    Sorted cmp (sortBy cmp xs) := by
  have hne : (sortBy cmp xs).Pairwise fun a b => cmp a b ≠ .eq :=
    ((sortBy_perm cmp xs).pairwise_iff fun hab hba => hab (Std.OrientedCmp.eq_symm hba)).2 h
  refine ((sortBy_pairwise xs).and hne).imp fun {a b} hab => ?_
  cases hc : cmp a b <;> simp_all

/-- Of a list in ascending order, the last element of a first part is followed by whatever is
greater. -/
theorem filter_gt_last [Std.OrientedCmp cmp] (h : xs.Pairwise fun a b => (cmp a b).isLE = true)
    {n : Nat} {last : α} (hlast : (xs.take n).getLast? = some last) :
    xs.filter (fun y => cmp y last == .gt) = (xs.drop n).filter fun y => cmp y last == .gt := by
  obtain ⟨first, hfirst⟩ := List.getLast?_eq_some_iff.1 hlast
  have hle : ∀ y ∈ xs.take n, (cmp y last).isLE = true := by
    have htake := h.sublist (List.take_sublist n xs)
    rw [hfirst] at htake ⊢
    intro y hy
    rcases List.mem_append.1 hy with hy | hy
    · exact (List.pairwise_append.1 htake).2.2 y hy last List.mem_cons_self
    · rw [List.mem_singleton.1 hy]
      exact Std.ReflCmp.isLE_rfl
  have hnone : (xs.take n).filter (fun y => cmp y last == .gt) = [] :=
    List.filter_eq_nil_iff.2 fun y hy => by
      have hy := hle y hy
      cases hc : cmp y last <;> simp_all
  calc xs.filter (fun y => cmp y last == .gt)
      = (xs.take n ++ xs.drop n).filter fun y => cmp y last == .gt := by
        rw [List.take_append_drop]
    _ = (xs.drop n).filter fun y => cmp y last == .gt := by
        rw [List.filter_append, hnone, List.nil_append]

namespace Sorted

theorem isLE (h : Sorted cmp xs) : xs.Pairwise fun a b => (cmp a b).isLE = true :=
  h.imp fun hab => by rw [hab]; rfl

/-- There is one strictly ascending list of given elements. -/
theorem eq_of_perm [Std.OrientedCmp cmp] (hx : Sorted cmp xs) (hy : Sorted cmp ys)
    (h : xs.Perm ys) : xs = ys := by
  rw [Sorted] at hx hy
  refine h.eq_of_pairwise (fun a b _ _ hab hba => ?_) hx hy
  exact absurd hba (Std.OrientedCmp.not_lt_of_lt hab)

/-- An element that stands in a strictly ascending list stands there once. -/
theorem split_of_mem (h : Sorted cmp xs) (hx : x ∈ xs) :
    ∃ before after, xs = before ++ x :: after ∧ (∀ y ∈ before, cmp y x = .lt) ∧
      ∀ y ∈ after, cmp x y = .lt := by
  obtain ⟨before, after, rfl⟩ := List.append_of_mem hx
  obtain ⟨-, hafter, hbefore⟩ := List.pairwise_append.1 h
  exact ⟨before, after, rfl, fun y hy => hbefore y hy x List.mem_cons_self,
    (List.pairwise_cons.1 hafter).1⟩

/-- The place of an element is the number of elements before it. -/
theorem countP_lt [Std.OrientedCmp cmp] {before after : List α}
    (h : Sorted cmp (before ++ x :: after)) :
    (before ++ x :: after).countP (fun y => cmp y x == .lt) = before.length := by
  obtain ⟨-, hafter, hbefore⟩ := List.pairwise_append.1 h
  have hfirst : before.countP (fun y => cmp y x == .lt) = before.length :=
    List.countP_eq_length.2 fun y hy => by simp [hbefore y hy x List.mem_cons_self]
  have hrest : after.countP (fun y => cmp y x == .lt) = 0 :=
    List.countP_eq_zero.2 fun y hy => by
      simp [Std.OrientedCmp.gt_iff_lt.2 ((List.pairwise_cons.1 hafter).1 y hy)]
  rw [List.countP_append, List.countP_cons_of_neg (by simp [Std.ReflCmp.compare_self]), hfirst,
    hrest, Nat.add_zero]

/-- An element is among the first `n` exactly if fewer than `n` elements come before it. -/
theorem mem_take_iff [Std.OrientedCmp cmp] (h : Sorted cmp xs) (n : Nat) :
    x ∈ xs.take n ↔ x ∈ xs ∧ xs.countP (fun y => cmp y x == .lt) < n := by
  by_cases hx : x ∈ xs
  · obtain ⟨before, after, rfl, hbefore, -⟩ := h.split_of_mem hx
    rw [h.countP_lt]
    have hnot : x ∉ before := fun hm => Std.OrientedCmp.not_lt_of_lt (hbefore x hm) (hbefore x hm)
    refine ⟨fun hm => ⟨hx, Nat.lt_of_not_le fun hle => hnot ?_⟩, fun hm => ?_⟩
    · rw [List.take_append_of_le_length hle] at hm
      exact List.mem_of_mem_take hm
    · obtain ⟨m, hm⟩ := Nat.exists_eq_add_of_lt hm.2
      rw [List.take_append, show n - before.length = m + 1 by omega, List.take_succ_cons]
      exact List.mem_append_right _ List.mem_cons_self
  · exact iff_of_false (fun hm => hx (List.mem_of_mem_take hm)) fun hm => hx hm.1

/-- Of a strictly ascending list, all that follows a first part is greater than its last element. -/
theorem filter_gt_last [Std.OrientedCmp cmp] (h : Sorted cmp xs) {n : Nat} {last : α}
    (hlast : (xs.take n).getLast? = some last) :
    xs.filter (fun y => cmp y last == .gt) = xs.drop n := by
  have hsplit := List.take_append_drop n xs
  rw [RowGuard.filter_gt_last h.isLE hlast]
  refine List.filter_eq_self.2 fun y hy => beq_iff_eq.2 (Std.OrientedCmp.gt_iff_lt.2 ?_)
  rw [Sorted, ← hsplit] at h
  exact (List.pairwise_append.1 h).2.2 last (List.mem_of_getLast? hlast) y hy

end Sorted
end RowGuard
