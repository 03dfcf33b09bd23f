import RowGuard.Mutation.Mutators
import RowGuard.PermissionState

/-! # The client

A client mutates its local replica optimistically: the gate stays open, and the server decides
again.  Queries and permissions are answered from the replica.
-/
namespace RowGuard

namespace ClientInstance

def refusal : Failure := .store "io" "replica fault"

def run (c : ClientInstance) (q : Query) : Program (Outcome QueryResult) :=
  if c.refusing then .fail refusal
  else .mapOk (⟨·, c.status⟩) (.read c.database q)

end ClientInstance

namespace Client

def require (c : Client) : Outcome ClientInstance :=
  { Installation.empty with client := some c }.requireInstance

def identity (c : Client) : Option Identity := c.current.bind (·.identity)

def mutate (c : Client) (name : String) (args : Json) : Program (Outcome Unit) :=
  (Program.ofOutcome c.require).andThen fun current =>
    (Program.begin current.database .done).andThen fun tx =>
      ((c.mutators current).call tx name args).bind fun
        | .ok () => .request (.commit tx)
        | .error e => (Program.request (.rollback tx)).andThen fun _ => .fail e

def run (c : Client) (names : NameRegistry) (f : QueryFunction) (args : Json) :
    Program (Outcome QueryResult) :=
  (Program.ofOutcome c.require).andThen fun current =>
    let scope : Scope := ⟨none, some (.client current.identity)⟩
    (Program.rule (c.queries.resolve names (fun _ => true) scope f args)).andThen current.run

/-- The query that asks for a permission, as this client would run it.  It is built outside any
request. -/
def permissionQuery (c : Client) (table : String) (s : Option Subject) : Ruling Query :=
  PermissionCheck.query ⟨table, s⟩ c.gate c.registry c.queries.schema Scope.outside.actor c.identity

/-- The permission that a result shows: rows allow, and their absence denies only if it is the last
word. -/
def stateOf (r : QueryResult) : PermissionState :=
  match r.rows, r.status with
  | _ :: _, _ => .allowed
  | [], .complete => .denied
  | [], .unknown => .loading

/-- The permission for a subject, as the replica shows it; without a subject it is denied. -/
def permission (c : Client) (table : String) (s : Option Subject) :
    Program (Outcome PermissionState) :=
  match s with
  | none => .done (.ok .denied)
  | some s => (Program.ofOutcome c.require).andThen fun current =>
    (Program.rule (c.permissionQuery table (some s))).andThen fun q => .mapOk stateOf (current.run q)

end Client
end RowGuard
