import RowGuard.Condition.Basic
import RowGuard.Condition.Pattern
import RowGuard.Json.Order

/-! # Conditions on rows

`Condition.holds` evaluates a condition on a row.  A missing column reads as `null`, and `null`
satisfies no operator but `IS` and `IS NOT`, which compare structurally.
-/
namespace RowGuard

def Operand.value (r : Row) : Operand → Json
  | .column name => Row.value r name
  | .literal v => v

namespace Operator

/-- Whether two values compare with one of the given outcomes. -/
def compares (a b : Json) (outcomes : List Ordering) : Bool :=
  match Json.compareValues a b with
  | some o => outcomes.contains o
  | none => false

/-- Whether a text matches a pattern; other kinds of values match nothing. -/
def matchesPattern (ignoreCase : Bool) (text pattern : Json) : Bool :=
  match text, pattern with
  | .str t, .str p => Pattern.covers (Pattern.alike ignoreCase) p.toList t.toList
  | _, _ => false

/-- Whether a value compares equal to some item of an array, if there is an array. -/
def amongItems? (v items : Json) : Option Bool :=
  items.toList?.map fun xs => xs.any fun x => Json.compareValues v x == some .eq

def holds (op : Operator) (l r : Json) : Bool :=
  match op with
  | .is => l.same r
  | .isNot => !l.same r
  | op =>
    if l.isNull || r.isNull then false
    else
      match op with
      | .eq => compares l r [.eq]
      | .ne => compares l r [.lt, .gt]
      | .lt => compares l r [.lt]
      | .le => compares l r [.lt, .eq]
      | .gt => compares l r [.gt]
      | .ge => compares l r [.gt, .eq]
      | .like => matchesPattern false l r
      | .ilike => matchesPattern true l r
      | .isIn => (amongItems? l r).getD false
      | .notIn => ((amongItems? l r).map not).getD false
      | .is => l.same r
      | .isNot => !l.same r

end Operator

namespace Condition

mutual
def holds (row : Row) : Condition → Bool
  | .simple op l r => op.holds (l.value row) (r.value row)
  | .and cs => allHold row cs
  | .or cs => anyHolds row cs

def allHold (row : Row) : List Condition → Bool
  | [] => true
  | c :: cs => c.holds row && allHold row cs

def anyHolds (row : Row) : List Condition → Bool
  | [] => false
  | c :: cs => c.holds row || anyHolds row cs
end

theorem allHold_eq_all (row : Row) (cs : List Condition) : allHold row cs = cs.all (holds row) := by
  induction cs with
  | nil => rfl
  | cons c cs ih => simp [allHold, ih]

theorem anyHolds_eq_any (row : Row) (cs : List Condition) :
    anyHolds row cs = cs.any (holds row) := by
  induction cs with
  | nil => rfl
  | cons c cs ih => simp [anyHolds, ih]

@[simp] theorem holds_and (row : Row) (cs : List Condition) :
    (Condition.and cs).holds row = cs.all (holds row) := by
  simp [holds, allHold_eq_all]

@[simp] theorem holds_or (row : Row) (cs : List Condition) :
    (Condition.or cs).holds row = cs.any (holds row) := by
  simp [holds, anyHolds_eq_any]

@[simp] theorem holds_alwaysTrue (row : Row) : alwaysTrue.holds row = true := rfl

@[simp] theorem holds_alwaysFalse (row : Row) : alwaysFalse.holds row = false := rfl

end Condition
end RowGuard
