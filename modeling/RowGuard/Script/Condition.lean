import RowGuard.Script.Template
import RowGuard.Wire.Condition

/-! # Scripted conditions

A scripted condition names a builder with its arguments: `cmp`, `op`, `lit`, `and`, `or`, `then` or
`raw`.
-/
namespace RowGuard.Script

/-- Why a script has no value. -/
inductive Fault where
  /-- A blank is undefined, or the script has no meaning. -/
  | undefined
  | failure (e : Failure)

abbrev Reading (α : Type) := Except Fault α

def ofOutcome {α : Type} : Outcome α → Reading α
  | .ok a => .ok a
  | .error e => .error (.failure e)

def ofOption {α : Type} : Option α → Reading α
  | some a => .ok a
  | none => .error .undefined

/-- A text, empty where the value is no string. -/
def textOf (v : Json) : String := v.toString?.getD ""

/-- An item of an array, `null` where there is none. -/
def itemAt (v : Json) (i : Nat) : Json := ((v.toList?.getD [])[i]?).getD .null

/-- A condition from its builder and the builder's arguments. -/
def leaf (s : Setting) (name : String) (v : Json) : Reading Condition :=
  if name = "cmp" then do
    let x ← ofOption (fill s (itemAt v 1))
    return .columnIs (textOf (itemAt v 0)) x
  else if name = "op" then do
    let op ← ofOutcome (Operator.parse (textOf (itemAt v 1)))
    let x ← ofOption (fill s (itemAt v 2))
    return .compareColumn (textOf (itemAt v 0)) op x
  else if name = "lit" then do
    let op ← ofOutcome (Operator.parse (textOf (itemAt v 1)))
    let x ← ofOption (fill s (itemAt v 0))
    let y ← ofOption (fill s (itemAt v 2))
    return .compareLiterals x op y
  else if name = "raw" then
    match Condition.decode false v with
    | .ok c => .ok c
    | .error _ => .error .undefined
  else .error .undefined

/-- A condition from a builder of several conditions; `none` if the name is that of no such
builder. -/
def join? (name : String) (cs : List Condition) : Option (Reading Condition) :=
  if name = "and" then some (.ok (.all cs))
  else if name = "or" then some (.ok (.any cs))
  else if name = "then" then
    match cs with
    | [] => some (.error .undefined)
    | c :: cs => some (.ok (cs.foldl .both c))
  else none

def isJoin (name : String) : Bool := (join? name []).isSome

mutual
def condition (s : Setting) : Json → Reading Condition
  | .str name => .ok (if name = "always_true" then .alwaysTrue else .alwaysFalse)
  | .obj ((name, v) :: _) =>
    if isJoin name then do
      let cs ← conditionsOf s v
      (join? name cs).getD (.error .undefined)
    else leaf s name v
  | _ => .error .undefined

def conditionsOf (s : Setting) : Json → Reading (List Condition)
  | .arr items => conditions s items
  | _ => .ok []

def conditions (s : Setting) : List Json → Reading (List Condition)
  | [] => .ok []
  | v :: vs => do
    let c ← condition s v
    let cs ← conditions s vs
    return c :: cs
end

end RowGuard.Script
