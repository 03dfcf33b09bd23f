import RowGuard.Mutation.Mutators

/-! # Trusted code on the server

Trusted code runs in a transaction, which is committed if the code succeeds and rolled back if it
fails.  Inside a mutation it runs in the transaction of the mutation, which it leaves open.
-/
namespace RowGuard.Server

/-- Run code in a transaction. -/
def transaction {α : Type} (s : Server) (a : Ambient) (code : TxRef → Program (Outcome α)) :
    Program (Outcome α) :=
  match a.tx with
  | some tx => code tx
  | none => (Program.begin s.database .done).andThen fun tx =>
    (code tx).bind fun
      | .ok x => .mapOk (fun _ => x) (.request (.commit tx))
      | .error e => (Program.request (.rollback tx)).bind fun _ => .fail e

/-- The identity that trusted mutations run for: an admin, except where the caller says
otherwise. -/
def trusted : Option Identity → Identity
  | none => .admin
  | some a => { a with
      role := a.role <|> some Identity.adminRole
      email := a.email <|> Identity.admin.email }

/-- What deferred work comes to; the failures are named together. -/
def deferredOutcome (work : List Deferred) : Outcome Unit :=
  match work.filterMap Deferred.failure? with
  | [] => .ok ()
  | failures => .error (.mutation ("async tasks failed: " ++ "; ".intercalate failures))

/-- Mutate in a transaction on behalf of trusted code, and then wait for the deferred work. -/
def mutate (s : Server) (a : Ambient) (identity : Option Identity)
    (code : TxRef → Mutators → Program (Outcome Unit)) : Program (Outcome Unit) :=
  (Program.request .openBag).bind fun bag =>
    (s.mutators (some (trusted identity)) bag).bind fun m =>
      (s.transaction a fun tx => code tx m).andThen fun _ =>
        (Program.request (.takeBag bag)).bind fun work =>
          (Program.perform a.scope.inMutation work).bind fun _ => .done (deferredOutcome work)

/-- The result of a query, in the transaction of the mutation around the code if there is one. -/
def query (s : Server) (a : Ambient) (q : Outcome Query) : Program (Outcome QueryResult) :=
  match q with
  | .error e => .fail e
  | .ok q => .mapOk (⟨·, .complete⟩) (.readIn a s.database q)

end RowGuard.Server
