import RowGuard.Program.Basic
import RowGuard.Push.Basic
import RowGuard.Wire.Client

/-! # Answering query requests

A query request names a synced query, which is built and run for one identity.  The question whether
the identity may act on a subject is answered for every table with a registered predicate.
-/
namespace RowGuard.Server

def requested (s : Server) (queries : SyncedQueries) (scope : Scope) (identity : Option Identity)
    (r : QueryRequest) : Ruling Query :=
  if r.name = PermissionCheck.queryName then
    match PermissionCheck.decode r.args with
    | .error m => .ofOutcome (.error (.invalid m))
    | .ok check => check.query s.gate s.registry s.gate.schema scope.actor identity
  else queries.call scope r.name r.args

def answer (s : Server) (identity : Option Identity) (r : QueryRequest) :
    Program (Outcome QueryResponse) :=
  match s.queries with
  | none => .fail (.configuration ("No queries registered with SyncServer. Pass the synced queries registry"
      ++ " via the queries option."))
  | some queries =>
    let scope : Scope := ⟨none, some (.server identity)⟩
    (Program.rule (s.requested queries scope identity r)).andThen fun q =>
      .mapOk (fun rows => ⟨r.name, rows⟩) (.read s.database q)

end RowGuard.Server
