import RowGuard.Query.Basic

/-! # The text of a query

A query is shown as the chain of calls that would build it.  The full form shows filter, limit and
completed ordering; the minimal form shows the filter alone.
-/
namespace RowGuard

/-- The text of a value: a string stands without quotes. -/
def Json.plain : Json → String
  | .str s => s
  | v => v.compact

def Operand.render : Operand → String
  | .column name => name
  | .literal v => v.plain

/-- Whether an operand is a string or a number. -/
def Operand.isScalar : Operand → Bool
  | .literal (.str _) => true
  | .literal (.num _) => true
  | _ => false

/-- A name without the point at its front. -/
def withoutPoint (s : String) : String :=
  match s.toList with
  | '.' :: cs => String.ofList cs
  | _ => s

namespace Condition

/-- A comparison as a call; an `id` that equals a string or a number is shown by the value alone. -/
def renderSimple (op : Operator) (l r : Operand) : String :=
  if l.render = "id" ∧ op = .eq ∧ r.isScalar then "(" ++ r.render ++ ")"
  else if op = .eq then ".where(" ++ l.render ++ ", " ++ r.render ++ ")"
  else ".where(" ++ l.render ++ ", " ++ op.text ++ ", " ++ r.render ++ ")"

/-- Join the parts of a conjunction or disjunction by calls of the given word. -/
def chain (word : String) : List String → String
  | [] => ""
  | p :: ps => p ++ String.join (ps.map fun q => "." ++ word ++ "(" ++ withoutPoint q ++ ")")

mutual
def render : Condition → String
  | .simple op l r => renderSimple op l r
  | .and cs => chain "and" (renderAll cs)
  | .or cs => chain "or" (renderAll cs)

def renderAll : List Condition → List String
  | [] => []
  | c :: cs => c.render :: renderAll cs
end

end Condition

def Direction.name : Direction → String
  | .asc => "asc"
  | .desc => "desc"

def replaceFirst (old new : List Char) : List Char → List Char
  | [] => if old.isEmpty then new else []
  | c :: cs =>
    if old.isPrefixOf (c :: cs) then new ++ (c :: cs).drop old.length
    else c :: replaceFirst old new cs

namespace Query

/-- The clauses of a completed plan, without empty ones. -/
def clauses (p : Plan) : List String :=
  (match p.filter with
    | some c => if c.render.isEmpty then [] else [c.render]
    | none => [])
  ++ (match p.limit with
    | some n => [".limit(" ++ toString n ++ ")"]
    | none => [])
  ++ (if p.order.isEmpty then []
    else [".orderBy(" ++ ", ".intercalate (p.order.map fun o => o.1 ++ ", " ++ o.2.name) ++ ")"])

/-- The full form of a query, one clause a line. -/
def renderFull (q : Query) : String := q.table ++ "\n  ".intercalate (clauses q.completed)

/-- The minimal form of a query: its table and filter on one line. -/
def renderMinimal (q : Query) : String :=
  q.table ++ match q.plan.filter with
    | some c => String.ofList (replaceFirst ".where(".toList ['('] c.render.toList)
    | none => ""

end Query
end RowGuard
