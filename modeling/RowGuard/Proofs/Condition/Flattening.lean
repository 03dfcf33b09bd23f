import RowGuard.Condition.Match

/-! # Flattened conditions

A conjunction opens the conjunctions among its members.  That of a list lets a single condition
stand alone, and that of two conditions never does, so the two may build different conditions from
the same members.  A row that satisfies one of them satisfies the other.
-/
namespace RowGuard.Condition

theorem all_conjuncts (row : Row) (c : Condition) : c.conjuncts.all (holds row) = c.holds row := by
  cases c <;> simp [conjuncts]

/-- A single condition may stand alone where its join means the same. -/
theorem holds_joined {join : List Condition → Condition} {row : Row}
    (hsingle : ∀ c, (join [c]).holds row = c.holds row) (cs : List Condition) :
    (joined join cs).holds row = (join cs).holds row := by
  match cs with
  | [c] => exact (hsingle c).symm
  | [] | _ :: _ :: _ => rfl

/-- A conjunction holds when its members do, however it was flattened. -/
theorem holds_all (row : Row) (cs : List Condition) : (all cs).holds row = cs.all (holds row) := by
  rw [all, holds_joined (fun c => by simp), holds_and, List.all_flatMap]
  congr 1
  funext c
  exact all_conjuncts row c

theorem holds_any (row : Row) (cs : List Condition) : (any cs).holds row = cs.any (holds row) := by
  rw [any, holds_joined (fun c => by simp), holds_or]

theorem holds_both (row : Row) (a b : Condition) :
    (a.both b).holds row = (a.holds row && b.holds row) := by
  rw [both, holds_and, List.all_append, all_conjuncts, all_conjuncts]

/-- Conditions that are joined one after the other end up in one conjunction. -/
theorem foldl_both (c d : Condition) (ds : List Condition) :
    (d :: ds).foldl both c = .and ((c :: d :: ds).flatMap conjuncts) := by
  induction ds generalizing c d with
  | nil => simp [both]
  | cons e ds ih =>
    rw [List.foldl_cons, ih]
    simp [both, conjuncts]

/-- The conjunction of a list has the members of the one that joins them one after the other, and
differs from it only where there is a single member. -/
theorem all_eq_joined_foldl (c d : Condition) (ds : List Condition) :
    all (c :: d :: ds) = joined .and ((d :: ds).foldl both c).conjuncts := by
  rw [foldl_both]
  rfl

example : all [all [], alwaysFalse] = alwaysFalse ∧ (all []).both alwaysFalse = .and [alwaysFalse] :=
  ⟨rfl, rfl⟩

end RowGuard.Condition
