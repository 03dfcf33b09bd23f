import RowGuard.Mutation.Mutators
import RowGuard.Push.Basic

/-! # Answering pushes

The mutations of a push run in the order of their submission, each in a transaction of its own.  One
that fails is rolled back and reported in its place, and the later ones still run.  Deferred work
starts when all are through.
-/
namespace RowGuard.Server

/-- Settle the transaction of a mutation: commit it if the mutation succeeded, and else roll it
back. -/
def settle (tx : TxRef) : Outcome Unit → Program MutationOutcome
  | .ok () => (Program.request (.commit tx)).bind fun
    | .ok () => .done .ok
    | .error e => .done (.error e)
  | .error e => (Program.request (.rollback tx)).bind fun _ => .done (.error e)

/-- Run one mutation of a push in a transaction of its own. -/
def pushOne (s : Server) (m : Mutators) (p : PushMutation) : Program (Outcome MutationResult) :=
  (Program.begin s.database .done).andThen fun tx =>
    (m.call tx p.name p.args).bind fun r =>
      (settle tx r).bind fun o => .done (.ok ⟨p.id, p.clientId, o⟩)

def pushAll (s : Server) (m : Mutators) : List PushMutation → Program (Outcome (List MutationResult))
  | [] => .done (.ok [])
  | p :: ps => (s.pushOne m p).andThen fun r => .mapOk (r :: ·) (s.pushAll m ps)

/-- Answer a push: the response, and the bag of the deferred work.  The work is started, unless the
caller wants to do it. -/
def push (s : Server) (identity : Option Identity) (mutations : List PushMutation) (leaveWork : Bool) :
    Program (Outcome (PushResponse × Nat)) :=
  (Program.request .openBag).bind fun bag =>
    (s.mutators identity bag).bind fun m =>
      (s.pushAll m mutations).andThen fun results =>
        if leaveWork then .done (.ok (⟨results⟩, bag))
        else
          (Program.request (.takeBag bag)).bind fun work =>
            (Program.request (.launch work)).bind fun _ => .done (.ok (⟨results⟩, bag))

end RowGuard.Server
