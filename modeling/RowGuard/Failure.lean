/-! # Failures

Every failure that reaches a caller has one of nine causes, so that an answer can tell a denied
mutation from a broken store and from one that took too long.  The wording, the code and the status
of each cause are functions on the cause.
-/
namespace RowGuard

inductive Failure where
  /-- A table, schema, predicate or query name is missing. -/
  | configuration (message : String)
  /-- The predicate was consulted and no row satisfied it. -/
  | denied (subject : String) (query : Option String)
  /-- The existence query itself failed. -/
  | checkFailed (subject : String) (message : String)
  | timeout (name : String) (millis : Nat)
  /-- A mutation context was needed and none is active. -/
  | notInMutator
  /-- An identity was needed and there is none. -/
  | notLoggedIn
  /-- The row store refused, under its own code. -/
  | store (code : String) (message : String)
  | invalid (message : String)
  | mutation (message : String)
deriving DecidableEq, Repr

namespace Failure

/-- The query line of a denial; an empty text gives none. -/
def queryLine : Option String → String
  | none => ""
  | some q => if q.isEmpty then "" else "\n " ++ q

def message : Failure → String
  | configuration m => "configuration error: " ++ m
  | denied s q => "[permission] Not Allowed: " ++ s ++ queryLine q
  | checkFailed s m => "Error running permission " ++ s ++ "\n" ++ m
  | timeout n t => "[mutator] " ++ n ++ " timeout after " ++ toString t ++ "ms"
  | notInMutator => "mutatorContext must be called within a mutator"
  | notLoggedIn => "not logged in"
  | store c m => "store error (" ++ c ++ "): " ++ m
  | invalid m => "invalid argument: " ++ m
  | mutation m => m

/-- The code of a failure; a store failure keeps the code of the store. -/
def code : Failure → String
  | configuration _ => "configuration"
  | denied .. => "authorization_denied"
  | checkFailed .. => "authorization_check_failed"
  | timeout .. => "mutation_timeout"
  | notInMutator => "not_in_mutator"
  | notLoggedIn => "not_logged_in"
  | store c _ => c
  | invalid _ => "invalid_argument"
  | mutation _ => "mutation_error"

/-- The HTTP status that answers a failure. -/
def status : Failure → Nat
  | configuration _ => 500
  | denied .. => 403
  | checkFailed .. => 500
  | timeout .. => 504
  | notInMutator => 500
  | notLoggedIn => 401
  | store .. => 503
  | invalid _ => 400
  | mutation _ => 422

def isDenied : Failure → Bool
  | denied .. => true
  | _ => false

def isTimeout : Failure → Bool
  | timeout .. => true
  | _ => false

end Failure

/-- A result, or the failure that took its place. -/
abbrev Outcome (α : Type) := Except Failure α

end RowGuard
