import RowGuard.Script.Query
import RowGuard.Server.Transaction
import RowGuard.Server.Push

/-! # Scripted requests to the server

Transactions of trusted code as lists of steps, and pushes with a report on their deferred work.
-/
namespace RowGuard.Script

/-- One step of a transaction: fail, query, commit or write a row.  A query gives rows. -/
def transactionStep (schema : Schema) (tx : TxRef) (st : Json) :
    Program (Outcome (Option (List Row))) :=
  match st.field? "fail", st.field? "query", st.field? "commit" with
  | some m, _, _ => .fail (.mutation (textOf m))
  | none, some q, _ =>
    (Program.ofOutcome (query schema .empty q)).andThen fun q => .mapOk some (.request (.run tx q))
  | none, none, some _ => .mapOk (fun _ => none) (.request (.commit tx))
  | none, none, none =>
    match Action.ofName? (textOf (st.field "action")) with
    | some action =>
      .mapOk (fun _ => none) (.request
        (.mutate tx (textOf (st.field "table")) action ((st.field "row").toRow?.getD .empty)))
    | none => .fail (.mutation "driver: unknown action")

/-- The steps of a transaction in order, with the rows of its queries. -/
def transactionSteps (schema : Schema) (tx : TxRef) : List Json → Program (Outcome (List (List Row)))
  | [] => .done (.ok [])
  | st :: rest => (transactionStep schema tx st).andThen fun r =>
    .mapOk (fun rs => r.toList ++ rs) (transactionSteps schema tx rest)

/-- What is known after a push: the response, the work left in the bag, what it came to if it was
then done, and the work left after that. -/
structure PushReport where
  response : PushResponse
  queued : Nat
  ran : Option (List (Option String))
  left : Nat

/-- Push, and then do the work that is left if that is wanted. -/
def pushReport (s : Server) (identity : Option Identity) (mutations : List PushMutation)
    (leaveWork runWork : Bool) : Program (Outcome PushReport) :=
  (s.push identity mutations leaveWork).andThen fun (response, bag) =>
    (Program.request (.bag bag)).bind fun work =>
      if runWork then
        (Program.request (.takeBag bag)).bind fun work =>
          (Program.perform false work).bind fun _ =>
            (Program.request (.bag bag)).bind fun rest =>
              .done (.ok ⟨response, work.length, some (work.map Deferred.failure?), rest.length⟩)
      else .done (.ok ⟨response, work.length, none, work.length⟩)

end RowGuard.Script
