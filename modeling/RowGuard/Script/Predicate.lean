import RowGuard.Script.Condition
import RowGuard.Predicate

/-! # Scripted predicates

A scripted predicate is a blanket answer, a condition, a choice by the role of the identity, or a
choice by whether there is an identity.
-/
namespace RowGuard.Script

mutual
/-- The answer of a scripted predicate to an actor who asks about an identity. -/
def permit (a : Actor) (auth : Option Identity) : Json → Option Permit
  | .bool b => some (.blanket b)
  | .obj fields =>
    if (findEntry "cond" fields).isSome then
      match condition ⟨auth, .null, a⟩ ((findEntry "cond" fields).getD .null) with
      | .ok c => some (.rows c)
      | .error _ => none
    else if (findEntry "role" fields).isSome then
      permitByRole a auth ((auth.bind (·.role)).getD "") fields
    else permitField a auth (if auth.isSome then "user" else "anon") fields
  | _ => none

/-- The answer in the field of a name, if there is one. -/
def permitField (a : Actor) (auth : Option Identity) (name : String) :
    List (String × Json) → Option Permit
  | [] => none
  | (k, v) :: fields => if k = name then permit a auth v else permitField a auth name fields

/-- The answer in the role table of a predicate. -/
def permitByRole (a : Actor) (auth : Option Identity) (role : String) :
    List (String × Json) → Option Permit
  | [] => none
  | (k, v) :: fields =>
    if k = "role" then permitInTable a auth role v else permitByRole a auth role fields

/-- The answer in a table of roles: under the role, else under the star. -/
def permitInTable (a : Actor) (auth : Option Identity) (role : String) : Json → Option Permit
  | .obj table =>
    permitField a auth (if (findEntry role table).isSome then role else "*") table
  | _ => none
end

/-- The predicate of a script, bound to a table as the script says. -/
def where? (label : String) (v : Json) : Option Where :=
  let table := textOf (v.field "table")
  let decide : Decide := fun a _ auth => permit a auth (v.field "pred")
  let made : Option Where := match v.field "ctor" with
    | .str "new" => some ((Where.new decide).withLabel label)
    | .str "table" => some ((Where.onTable table decide).withLabel label)
    | .str "server_only" => some ((Where.onServer table decide).withLabel label)
    | .str "allow_all" => some (Where.allowAll table)
    | .str "deny_all" => some (Where.denyAll table)
    | _ => none
  made.map fun w => match v.field "bind" with
    | .str t => w.withTable t
    | _ => w

end RowGuard.Script
