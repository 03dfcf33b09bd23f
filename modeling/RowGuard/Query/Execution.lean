import RowGuard.Query.Basic

/-! # Execution of queries

`Plan.select` applies a plan to the rows of its table: filter, stable sort, cursor, limit.
Sorting inserts each row behind the rows that are not greater than it.
-/
namespace RowGuard

/-- Insert an element into a list in descending order, before the first element not greater. -/
def insertDescending {α : Type} (cmp : α → α → Ordering) (x : α) : List α → List α
  | [] => [x]
  | y :: ys => if cmp x y = .lt then y :: insertDescending cmp x ys else x :: y :: ys

/-- Stable sort in ascending order. -/
def sortBy {α : Type} (cmp : α → α → Ordering) (xs : List α) : List α :=
  (xs.foldl (fun acc x => insertDescending cmp x acc) []).reverse

def Direction.apply : Direction → Ordering → Ordering
  | .asc, o => o
  | .desc, o => o.swap

/-- Compare two rows by ordering columns, the most significant first. -/
def compareRows : List (String × Direction) → Row → Row → Ordering
  | [], _, _ => .eq
  | (c, d) :: rest, a, b =>
    (d.apply (Json.sortOrder (a.value c) (b.value c))).then (compareRows rest a b)

/-- Whether a row comes at or after a cursor. -/
def Cursor.admits (c : Cursor) (order : List (String × Direction)) (r : Row) : Bool :=
  match compareRows order r c.row with
  | .gt => true
  | .eq => !c.exclusive
  | .lt => false

namespace Plan

def passes (p : Plan) (r : Row) : Bool :=
  match p.filter with
  | some c => c.holds r
  | none => true

/-- Whether a row comes at or after the cursor, if there is one. -/
def reaches (p : Plan) (r : Row) : Bool :=
  match p.start with
  | some c => c.admits p.order r
  | none => true

def cut (p : Plan) (rows : List Row) : List Row :=
  match p.limit with
  | some n => rows.take n
  | none => rows

/-- The rows that a plan selects from the rows of its table, in order. -/
def select (p : Plan) (rows : List Row) : List Row :=
  p.cut ((sortBy (compareRows p.order) (rows.filter p.passes)).filter p.reaches)

end Plan

theorem insertDescending_perm {α : Type} (cmp : α → α → Ordering) (x : α) (ys : List α) :
    (insertDescending cmp x ys).Perm (x :: ys) := by
  induction ys with
  | nil => exact .refl _
  | cons y ys ih =>
    rw [insertDescending]
    split
    · exact (ih.cons y).trans (.swap ..)
    · exact .refl _

theorem sortBy_perm {α : Type} (cmp : α → α → Ordering) (xs : List α) :
    (sortBy cmp xs).Perm xs := by
  have h : ∀ (xs acc : List α),
      (xs.foldl (fun acc x => insertDescending cmp x acc) acc).Perm (xs.reverse ++ acc) := by
    intro xs
    induction xs with
    | nil => exact fun acc => .refl _
    | cons x xs ih =>
      intro acc
      refine (ih _).trans ?_
      rw [List.reverse_cons, List.append_assoc]
      exact (insertDescending_perm cmp x acc).append_left _
  have h' := h xs []
  rw [List.append_nil] at h'
  exact (List.reverse_perm _).trans (h'.trans (List.reverse_perm _))

end RowGuard
