import RowGuard.Json.Basic
import RowGuard.Failure

/-! # Pushes and their answers

A client pushes the mutations that it has queued; the answer holds one result for each, in order.
-/
namespace RowGuard

/-- A queued mutation of a client. -/
structure PushMutation where
  id : Nat
  clientId : String
  name : String
  args : Json

/-- The queued mutations of a group of clients, in the order of their submission. -/
structure PushRequest where
  clientGroupId : String
  mutations : List PushMutation

/-- What became of one mutation. -/
inductive MutationOutcome where
  | ok
  | error (e : Failure)
deriving DecidableEq, Repr

/-- The outcome of a mutation, and whose mutation it was. -/
structure MutationResult where
  id : Nat
  clientId : String
  outcome : MutationOutcome
deriving DecidableEq, Repr

/-- The results of a push, in the order of submission. -/
structure PushResponse where
  results : List MutationResult
deriving DecidableEq, Repr

namespace PushResponse

def errors (r : PushResponse) : List (MutationResult × Failure) :=
  r.results.filterMap fun m => match m.outcome with
    | .error e => some (m, e)
    | .ok => none

def allOk (r : PushResponse) : Bool := r.errors.isEmpty

end PushResponse

structure QueryRequest where
  name : String
  args : Json

structure QueryResponse where
  name : String
  rows : List Row

end RowGuard
