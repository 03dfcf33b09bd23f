import RowGuard.Json.Basic
import RowGuard.Identity

/-! # Templates

Scripted predicates, queries and mutations hold values with blanks, which are filled in when the
script runs: an object with exactly one field, named `$lit`, `$auth`, `$args`, `$me` or `$env`.  A
blank for the identity leaves the whole template undefined where there is no identity.
-/
namespace RowGuard.Script

/-- What a template is filled from. -/
structure Setting where
  /-- The identity that `$auth` reads. -/
  identity : Option Identity
  args : Json
  /-- Whoever runs the script, for `$me` and `$env`. -/
  actor : Actor

def Setting.plain (a : Actor) : Setting := ⟨none, .null, a⟩

def Setting.empty : Setting := .plain Scope.outside.actor

/-- A property of an identity by name: id, role, email or a claim, and `null` where it is
missing. -/
def property (a : Identity) (name : String) : Json :=
  if name = "id" then .str a.id
  else if name = "role" then .ofString? a.role
  else if name = "email" then .ofString? a.email
  else (a.claim? name).getD .null

/-- The arguments, or one of them by name. -/
def argument (args : Json) (name : String) : Json :=
  if name.isEmpty then args else args.field name

/-- The value of a blank: `none` if the name is that of no blank, `some none` if it is undefined. -/
def blank? (s : Setting) (name : String) (v : Json) : Option (Option Json) :=
  let detail := v.toString?.getD ""
  if name = "$lit" then some (some v)
  else if name = "$auth" then some (s.identity.map (property · detail))
  else if name = "$args" then some (some (argument s.args detail))
  else if name = "$me" then some (some (.str ((s.actor.identity.map (·.id)).getD "")))
  else if name = "$env" then some (some (.str s.actor.environment.name))
  else none

mutual
/-- Fill in a template; `none` if a blank in it is undefined. -/
def fill (s : Setting) : Json → Option Json
  | .arr items => (fillItems s items).map .arr
  | .obj [(name, v)] =>
    match blank? s name v with
    | some r => r
    | none => (fill s v).map fun w => .obj [(name, w)]
  | .obj fields => (fillFields s fields).map .obj
  | v => some v

def fillItems (s : Setting) : List Json → Option (List Json)
  | [] => some []
  | v :: vs => do
    let w ← fill s v
    let ws ← fillItems s vs
    return w :: ws

def fillFields (s : Setting) : List (String × Json) → Option (List (String × Json))
  | [] => some []
  | (name, v) :: fs => do
    let w ← fill s v
    let ws ← fillFields s fs
    return (name, w) :: ws
end

end RowGuard.Script
