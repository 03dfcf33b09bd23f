import RowGuard.Json.Basic
import RowGuard.Condition.Operator

/-! # Conditions

A condition on a row compares two operands, or joins conditions by conjunction or disjunction.
The builders flatten nested conjunctions as far as one level.
-/
namespace RowGuard

/-- One side of a comparison. -/
inductive Operand where
  | column (name : String)
  | literal (value : Json)

def Operand.columns : Operand → List String
  | .column name => [name]
  | .literal _ => []

inductive Condition where
  | simple (op : Operator) (left right : Operand)
  | and (conditions : List Condition)
  | or (conditions : List Condition)

namespace Condition

def alwaysTrue : Condition := .simple .eq (.literal (.bool true)) (.literal (.bool true))

def alwaysFalse : Condition := .simple .eq (.literal (.bool true)) (.literal (.bool false))

/-- The members of a conjunction, or the condition alone. -/
def conjuncts : Condition → List Condition
  | .and cs => cs
  | c => [c]

/-- The conjunction of two conditions, with their own conjunctions opened. -/
def both (a b : Condition) : Condition := .and (a.conjuncts ++ b.conjuncts)

mutual
/-- The columns that a condition mentions, in order and with repetition. -/
def columns : Condition → List String
  | .simple _ l r => l.columns ++ r.columns
  | .and cs => columnsOfAll cs
  | .or cs => columnsOfAll cs

def columnsOfAll : List Condition → List String
  | [] => []
  | c :: cs => c.columns ++ columnsOfAll cs
end

/-- The condition alone if there is just one, else the given join of all. -/
def joined (join : List Condition → Condition) : List Condition → Condition
  | [c] => c
  | cs => join cs

/-- The conjunction of a list: nested conjunctions are opened, a single condition stands alone, and
an empty list is always satisfied. -/
def all (cs : List Condition) : Condition := joined .and (cs.flatMap conjuncts)

/-- The disjunction of a list: a single condition stands alone, and an empty list is never
satisfied. -/
def any (cs : List Condition) : Condition := joined .or cs

def compareColumn (column : String) (op : Operator) (value : Json) : Condition :=
  .simple op (.column column) (.literal value)

def columnIs (column : String) (value : Json) : Condition := compareColumn column .eq value

def compareLiterals (left : Json) (op : Operator) (right : Json) : Condition :=
  .simple op (.literal left) (.literal right)

end Condition
end RowGuard
