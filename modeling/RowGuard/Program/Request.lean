import RowGuard.Mutation.Invocation
import RowGuard.Installation
import RowGuard.Store.Tables

/-! # What running code asks for

Code acts on the world only by requests, each with its own type of reply.  A request is answered at
once; what may have to wait is part of the program itself.
-/
namespace RowGuard

/-- Work to be done after a commit. -/
structure Deferred where
  name : String
  fails : Bool

def Deferred.failure? (d : Deferred) : Option String :=
  if d.fails then some ("task " ++ d.name ++ " failed") else none

inductive Entry where
  | consulted (label : String)
  /-- A step of a script came to an end. -/
  | reported (step : String) (result : Outcome Json)
  | performed (task : String) (inMutation : Bool)

structure Call where
  invocation : Invocation
  name : String
  args : Json

/-- Something that code asks for. -/
inductive Request where
  | note (entries : List Entry)
  | run (tx : TxRef) (q : Query)
  | mutate (tx : TxRef) (table : String) (action : Action) (row : Row)
  | commit (tx : TxRef)
  | rollback (tx : TxRef)
  /-- Committed rows, if the database has snapshots. -/
  | snapshot (database : Nat) (q : Query)
  | can (g : Gate) (w : Where) (s : Subject)
  /-- The record of the checks that passed in the running invocation. -/
  | checked
  | openBag
  | defer (bag : Nat) (d : Deferred)
  | bag (bag : Nat)
  /-- Everything in a bag, which is empty afterwards. -/
  | takeBag (bag : Nat)
  /-- Do deferred work in the background. -/
  | launch (work : List Deferred)
  | installed
  | makeActions

abbrev Request.Reply : Request → Type
  | note _ => Unit
  | run .. => Outcome (List Row)
  | mutate .. => Outcome Unit
  | commit _ => Outcome Unit
  | rollback _ => Outcome Unit
  | snapshot .. => Option (Outcome (List Row))
  | can .. => Outcome Unit
  | checked => Checked
  | openBag => Nat
  | defer .. => Nat
  | bag _ => List Deferred
  | takeBag _ => List Deferred
  | launch _ => Unit
  | installed => Installation
  | makeActions => Option String

end RowGuard
