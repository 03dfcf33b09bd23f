import RowGuard.Mutation.Model

/-! # Mutators

The mutators of a caller are the mutations of every model, called by full name on behalf of one
identity in one environment.  Every call is an invocation of its own.
-/
namespace RowGuard

structure Mutators where
  identity : Option Identity
  environment : Environment
  gate : Gate
  server : Option ServerPart

namespace Mutators

def invocation (m : Mutators) (tx : TxRef) : Invocation :=
  ⟨tx, m.identity, m.environment, m.gate, m.server⟩

/-- Call a mutator and wait for it. -/
def call (m : Mutators) (tx : TxRef) (name : String) (args : Json) : Program (Outcome Unit) :=
  .call ⟨m.invocation tx, name, args⟩ .done

/-- Call mutators one after another, up to the first that fails. -/
def callAll (m : Mutators) (tx : TxRef) : List (String × Json) → Program (Outcome Unit)
  | [] => .done (.ok ())
  | (name, args) :: calls => (m.call tx name args).andThen fun _ => m.callAll tx calls

end Mutators

namespace Server

/-- The mutators of a caller on the server; deferred work goes into a bag. -/
def mutators (s : Server) (identity : Option Identity) (bag : Nat) : Program Mutators :=
  (Program.request .makeActions).bind fun actions =>
    .done ⟨identity, .server, s.gate, some ⟨actions, bag⟩⟩

end Server

namespace Client

/-- The mutators of whoever is logged in on the client. -/
def mutators (c : Client) (current : ClientInstance) : Mutators :=
  ⟨current.identity, .client, c.gate, none⟩

end Client
end RowGuard
