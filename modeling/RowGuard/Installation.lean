import RowGuard.Synced.Queries
import RowGuard.Config
import RowGuard.Connection
import RowGuard.Query.Result

/-! # What is installed

The server and the client of an application, the runner that answers queries for code that does not
know on which side it runs, and the queries that such code can name.
-/
namespace RowGuard

structure Server where
  database : Nat
  gate : Gate
  registry : PermissionRegistry
  queries : Option SyncedQueries
  /-- How often actions were made for a caller; `none` if the server makes none. -/
  actionsMade : Option Nat

def Server.new (database : Nat) (schema : Schema) (config : Config) (registry : PermissionRegistry)
    (queries : Option SyncedQueries) (makesActions : Bool) : Server :=
  ⟨database, ⟨.server, schema, config.diagnostics⟩, registry, queries,
    if makesActions then some 0 else none⟩

/-- Who is logged in on a client, and the local replica. -/
structure ClientInstance where
  identity : Option Identity
  database : Nat
  /-- The status of results from the replica. -/
  status : ResultStatus
  refusing : Bool

/-- A client; the instance behind it changes with every login. -/
structure Client where
  gate : Gate
  registry : PermissionRegistry
  queries : SyncedQueries
  current : Option ClientInstance
  monitor : ConnectionMonitor

def Client.eventCapacity : Nat := 16

def Client.new (registry : PermissionRegistry) (queries : SyncedQueries) : Client :=
  ⟨⟨.client, queries.schema, true⟩, registry, queries, none, .new eventCapacity⟩

/-- Who answers queries. -/
inductive Runner where
  | server
  | client
deriving DecidableEq, Repr

structure Installation where
  server : Option Server
  client : Option Client
  runner : Option Runner
  queries : Option SyncedQueries
  names : NameRegistry

namespace Installation

def empty : Installation := ⟨none, none, none, none, .empty⟩

def requireRunner (i : Installation) : Outcome Runner :=
  match i.runner with
  | some r => .ok r
  | none => .error (.configuration
      "Query runner not initialized. Ensure a SyncClient is connected or a SyncServer was created.")

def requireQueries (i : Installation) : Outcome SyncedQueries :=
  match i.queries with
  | some q => .ok q
  | none => .error (.configuration
      "Custom queries not initialized. Ensure a SyncClient or SyncServer has been created.")

def requireInstance (i : Installation) : Outcome ClientInstance :=
  match i.client.bind (·.current) with
  | some c => .ok c
  | none => .error (.configuration
      "Sync client instance not initialized. Call SyncClient::connect before using it.")

/-- Install queries, whose functions are named from then on. -/
def installQueries (i : Installation) (q : SyncedQueries) : Installation :=
  { i with queries := some q, names := i.names.registerAll (fun _ => true) q.groups }

/-- Install a server, which answers queries from then on; without queries of its own it leaves the
installed ones as they are. -/
def installServer (i : Installation) (s : Server) : Installation :=
  let i := { i with server := some s, runner := some .server }
  match s.queries with
  | some q => i.installQueries q
  | none => i

/-- Install a client, which answers queries from then on. -/
def installClient (i : Installation) (c : Client) : Installation :=
  { i with client := some c, runner := some .client }.installQueries c.queries

/-- Put another instance behind the client. -/
def connect (i : Installation) (c : Option ClientInstance) : Installation :=
  { i with client := i.client.map fun client => { client with current := c } }

def makeActions (i : Installation) : Option String × Installation :=
  match i.server with
  | some s =>
    match s.actionsMade with
    | some n =>
      (some ("actions-" ++ toString (n + 1)),
        { i with server := some { s with actionsMade := some (n + 1) } })
    | none => (none, i)
  | none => (none, i)

end Installation
end RowGuard
