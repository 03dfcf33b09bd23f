import RowGuard.Client.Basic

/-! # Queries for code that does not know where it runs

The runner that was installed last answers: the server in its database, or in the transaction of the
mutation around the code, and the client on its replica.
-/
namespace RowGuard

namespace Installation

/-- Answer a query through the installed runner. -/
def answer (i : Installation) (a : Ambient) (q : Query) : Program (Outcome QueryResult) :=
  match i.requireRunner with
  | .error e => .fail e
  | .ok .server =>
    .mapOk (⟨·, .complete⟩) (.readIn a ((i.server.map (·.database)).getD 0) q)
  | .ok .client => (Program.ofOutcome i.requireInstance).andThen fun c => c.run q

/-- The query that a function resolves to among the installed queries. -/
def resolve (i : Installation) (s : Scope) (f : QueryFunction) (args : Json) : Ruling Query :=
  match i.requireQueries with
  | .error e => .ofOutcome (.error e)
  | .ok queries => queries.resolve i.names (fun _ => true) s f args

end Installation

namespace Program

def runQuery (a : Ambient) (q : Query) : Program (Outcome QueryResult) :=
  (request .installed).bind fun i => i.answer a q

def runFunction (a : Ambient) (f : QueryFunction) (args : Json) : Program (Outcome QueryResult) :=
  (request .installed).bind fun i => (rule (i.resolve a.scope f args)).andThen fun q => i.answer a q

end Program
end RowGuard
