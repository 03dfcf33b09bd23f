import RowGuard.Failure
import RowGuard.Text.Blank
import RowGuard.Text.Uppercase

/-! # Comparison operators

The operators of simple conditions and their text.  Reading an operator ignores the blanks around it
and the case of its letters, and knows a second spelling of inequality.
-/
namespace RowGuard

inductive Operator where
  | eq
  | ne
  | lt
  | le
  | gt
  | ge
  | like
  | ilike
  | isIn
  | notIn
  | is
  | isNot
deriving DecidableEq, Repr

namespace Operator

def all : List Operator := [eq, ne, lt, le, gt, ge, like, ilike, isIn, notIn, is, isNot]

def text : Operator → String
  | eq => "="
  | ne => "!="
  | lt => "<"
  | le => "<="
  | gt => ">"
  | ge => ">="
  | like => "LIKE"
  | ilike => "ILIKE"
  | isIn => "IN"
  | notIn => "NOT IN"
  | is => "IS"
  | isNot => "IS NOT"

/-- The operator of an exact text. -/
def ofText? (s : String) : Option Operator := all.find? (·.text = s)

/-- Read an operator, whatever its case and the blanks around it. -/
def parse (s : String) : Outcome Operator :=
  let t := String.ofList (Text.uppercase (Text.trim s.toList))
  if t = "<>" then .ok ne
  else
    match ofText? t with
    | some op => .ok op
    | none => .error (.invalid ("unknown operator '" ++ t ++ "'"))

@[simp] theorem ofText?_text (op : Operator) : ofText? op.text = some op := by
  cases op <;> decide

end Operator
end RowGuard
