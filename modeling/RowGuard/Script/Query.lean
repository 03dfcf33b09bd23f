import RowGuard.Script.Condition
import RowGuard.Query.Basic

/-! # Scripted queries

A scripted query names a table and the calls that build the query, in order.
-/
namespace RowGuard.Script

def noIdentity : Failure := .mutation "no identity for the query"

/-- A reading as an outcome; an undefined blank means that there is no identity. -/
def settled {α : Type} : Reading α → Outcome α
  | .ok a => .ok a
  | .error .undefined => .error noIdentity
  | .error (.failure e) => .error e

/-- One call that builds a query; a call that is not known changes nothing.  A start that is not an
object, or has an undefined blank, is the empty row. -/
def queryCall (s : Setting) (q : Query) (call : Json) : Outcome Query :=
  match itemAt call 0 with
  | .str "where" => do
    let c ← settled (condition s (itemAt call 1))
    return q.restrict c
  | .str "one" => .ok q.one
  | .str "limit" => .ok (q.limit ((itemAt call 1).toNat?.getD 0))
  | .str "order" =>
    .ok (q.orderBy (textOf (itemAt call 1)) (if itemAt call 2 == .str "desc" then .desc else .asc))
  | .str "start" => .ok (q.start (((fill s (itemAt call 1)).bind Json.toRow?).getD .empty))
  | _ => .ok q

def query (schema : Schema) (s : Setting) (v : Json) : Outcome Query := do
  let q ← schema.query (textOf (v.field "table"))
  ((v.field "steps").toList?.getD []).foldlM (queryCall s) q

end RowGuard.Script
