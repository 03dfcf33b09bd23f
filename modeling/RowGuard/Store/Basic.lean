import RowGuard.Store.Tables

/-! # A store with transactions

A transaction works on a copy of the committed tables, taken when it begins and put in their place
when it commits.  Whoever begins takes the writer lock and keeps it until the transaction is
settled, that is committed, rolled back or dropped.  A settled handle refuses every further call.
-/
namespace RowGuard

/-- The committed tables, the working tables of the transactions that are not settled, and the
lock. -/
structure Store where
  schema : Schema
  committed : Tables
  /-- The working tables by handle. -/
  working : List (Nat × Tables)
  /-- The handle that holds the writer lock. -/
  writer : Option Nat
  /-- The number of handles given out so far. -/
  issued : Nat

def Failure.settled : Failure := .store "tx_closed" "transaction already settled"

namespace Store

def new (schema : Schema) : Store := ⟨schema, .empty, [], none, 0⟩

/-- Whether some transaction holds the lock. -/
def locked (s : Store) : Bool := s.writer.isSome

/-- Insert rows outside any transaction. -/
def seed (s : Store) (now : Nat) (table : String) (rows : List Row) : Outcome Unit × Store :=
  let (tables, r) := s.schema.seed now table s.committed rows
  (r, { s with committed := tables })

/-- Insert rows into tables one after another, until a table refuses a row. -/
def seedAll (now : Nat) : Store → List (String × List Row) → Outcome Unit × Store
  | s, [] => (.ok (), s)
  | s, (table, rows) :: rest =>
    match s.seed now table rows with
    | (.ok (), s) => s.seedAll now rest
    | (.error e, s) => (.error e, s)

/-- The committed rows of a table, in the order of its primary key. -/
def rows (s : Store) (table : String) : List Row := s.schema.listing s.committed table

def execute (s : Store) (q : Query) : Outcome (List Row) := s.schema.execute s.committed q

/-- Begin a transaction; `none` while another one holds the lock. -/
def begin? (s : Store) : Option (Nat × Store) :=
  if s.locked then none
  else some (s.issued, { s with
    working := (s.issued, s.committed) :: s.working
    writer := some s.issued
    issued := s.issued + 1 })

/-- The working tables of a handle; a settled one has none. -/
def tables? (s : Store) (handle : Nat) : Option Tables := s.working.lookup handle

def isOpen (s : Store) (handle : Nat) : Bool := (s.tables? handle).isSome

def run (s : Store) (handle : Nat) (q : Query) : Outcome (List Row) :=
  match s.tables? handle with
  | some ts => s.schema.execute ts q
  | none => .error .settled

def setTables (s : Store) (handle : Nat) (ts : Tables) : Store :=
  { s with working := s.working.map fun e => if e.1 = handle then (handle, ts) else e }

def mutate (s : Store) (now : Nat) (handle : Nat) (table : String) (action : Action) (row : Row) :
    Outcome Unit × Store :=
  match s.tables? handle with
  | none => (.error .settled, s)
  | some ts =>
    match s.schema.write now ts table action row with
    | .ok ts => (.ok (), s.setTables handle ts)
    | .error e => (.error e, s)

/-- Take the working tables from a handle, and the lock if the handle holds it. -/
def release (s : Store) (handle : Nat) : Store :=
  { s with
    working := s.working.filter fun e => e.1 ≠ handle
    writer := if s.writer = some handle then none else s.writer }

/-- Publish the working tables of a handle and settle it. -/
def commit (s : Store) (handle : Nat) : Outcome Unit × Store :=
  match s.tables? handle with
  | some ts => (.ok (), { s.release handle with committed := ts })
  | none => (.error .settled, s)

def rollback (s : Store) (handle : Nat) : Outcome Unit × Store :=
  match s.tables? handle with
  | some _ => (.ok (), s.release handle)
  | none => (.error .settled, s)

/-- Drop a handle: a transaction that is not settled is discarded. -/
def drop (s : Store) (handle : Nat) : Store := s.release handle

end Store
end RowGuard
