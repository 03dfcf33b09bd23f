import RowGuard.Synced.Function
import RowGuard.PermissionRegistry
import RowGuard.Gate

/-! # Synced queries

Query functions are grouped by namespace and found by `namespace.name` on both sides of the wire.
The query that answers whether an identity may act on a subject is built in, for every table with a
registered predicate.
-/
namespace RowGuard

/-- Query functions by namespace and name. -/
abbrev GroupedQueries := Dict (Dict QueryFunction)

namespace GroupedQueries

def add (g : GroupedQueries) (namespace_ name : String) (f : QueryFunction) : GroupedQueries :=
  g.insert namespace_ (((g.get? namespace_).getD .empty).insert name f)

/-- The functions with their dotted names, in order. -/
def named (g : GroupedQueries) : List (String × QueryFunction) :=
  g.entries.flatMap fun (ns, qs) => qs.entries.map fun (n, f) => (ns ++ "." ++ n, f)

end GroupedQueries

namespace NameRegistry

/-- Name every function of the groups, in order. -/
def registerAll (r : NameRegistry) (live : Nat → Bool) (g : GroupedQueries) : NameRegistry :=
  g.named.foldl (fun r nf => r.register live nf.2.place nf.1) r

end NameRegistry

/-- Split a text at its first point. -/
def splitAtPoint (s : String) : Option (String × String) :=
  match s.toList.dropWhile (· ≠ '.') with
  | '.' :: rest => some (String.ofList (s.toList.takeWhile (· ≠ '.')), String.ofList rest)
  | _ => none

/-- The queries that both sides of the wire know by name. -/
structure SyncedQueries where
  schema : Schema
  groups : GroupedQueries

namespace SyncedQueries

def get? (q : SyncedQueries) (dotted : String) : Option QueryFunction := do
  let (ns, name) ← splitAtPoint dotted
  (← q.groups.get? ns).get? name

def names (q : SyncedQueries) : List String := q.groups.named.map Prod.fst

def call (q : SyncedQueries) (s : Scope) (dotted : String) (args : Json) : Ruling Query :=
  match q.get? dotted with
  | some f => f.build s q.schema args
  | none => .ofOutcome (.error (.configuration ("CustomQuery '" ++ dotted
      ++ "' not found. Check that the query is exported and the namespace/name matches.")))

/-- The query that a function resolves to through its registered name. -/
def resolve (q : SyncedQueries) (r : NameRegistry) (live : Nat → Bool) (s : Scope) (f : QueryFunction)
    (args : Json) : Ruling Query :=
  match r.lookup live f.place with
  | some name => q.call s name args
  | none => .ofOutcome (.error (.configuration ("Query function '" ++ f.shownName
      ++ "' not registered. Ensure it is exported from a queries module and passed to the client via"
      ++ " grouped queries.")))

end SyncedQueries

/-- The question whether the current identity may act on a subject of a table. -/
structure PermissionCheck where
  table : String
  subject : Option Subject

namespace PermissionCheck

def queryName : String := "permission.check"

/-- The query that finds a row exactly when the identity may act on the subject; without a subject
it finds nothing. -/
def query (c : PermissionCheck) (g : Gate) (r : PermissionRegistry) (schema : Schema) (a : Actor)
    (auth : Option Identity) : Ruling Query :=
  match schema.query c.table with
  | .error e => .ofOutcome (.error e)
  | .ok base =>
    match c.subject with
    | none => .ofOutcome (.ok (base.restrict .alwaysFalse).one)
    | some s =>
      match r.get? c.table with
      | none => .ofOutcome (.error (.configuration
          ("[permission] no permission defined for table: " ++ c.table)))
      | some w =>
        (g.compile a auth c.table w s (some c.table)).map fun cond => (base.restrict cond).one

end PermissionCheck
end RowGuard
