import RowGuard.Store.Basic

/-! # Databases

A database is a store behind a connection.  Over a connection that can fail, chosen calls are
refused; a refused commit discards the transaction and a refused rollback still rolls it back.  Such
a connection also has no snapshots, so that a read outside transactions is a transaction of its own.
-/
namespace RowGuard

inductive StoreCall where
  | begin
  | run
  | mutate
  | commit
  | rollback
deriving DecidableEq, Repr

def StoreCall.name : StoreCall → String
  | begin => "begin"
  | run => "run"
  | mutate => "mutate"
  | commit => "commit"
  | rollback => "rollback"

/-- A store behind a connection. -/
structure Database where
  store : Store
  /-- Whether committed rows can be read without a transaction. -/
  snapshots : Bool
  refused : List StoreCall

namespace Database

def direct (store : Store) : Database := ⟨store, true, []⟩

def refusing (store : Store) (calls : List StoreCall) : Database := ⟨store, false, calls⟩

def fault (c : StoreCall) : Failure := .store "io" (c.name ++ " fault")

def refuses (d : Database) (c : StoreCall) : Bool := d.refused.contains c

def withStore (d : Database) (s : Store) : Database := { d with store := s }

/-- Begin a transaction; `none` while another one holds the lock. -/
def begin? (d : Database) : Option (Outcome Nat × Database) :=
  if d.refuses .begin then some (.error (fault .begin), d)
  else d.store.begin?.map fun (handle, s) => (.ok handle, d.withStore s)

def run (d : Database) (handle : Nat) (q : Query) : Outcome (List Row) :=
  if d.refuses .run then .error (fault .run) else d.store.run handle q

def mutate (d : Database) (now : Nat) (handle : Nat) (table : String) (action : Action) (row : Row) :
    Outcome Unit × Database :=
  if d.refuses .mutate then (.error (fault .mutate), d)
  else
    let (r, s) := d.store.mutate now handle table action row
    (r, d.withStore s)

def commit (d : Database) (handle : Nat) : Outcome Unit × Database :=
  if d.refuses .commit then (.error (fault .commit), d.withStore (d.store.drop handle))
  else
    let (r, s) := d.store.commit handle
    (r, d.withStore s)

def rollback (d : Database) (handle : Nat) : Outcome Unit × Database :=
  if d.refuses .rollback then (.error (fault .rollback), d.withStore (d.store.drop handle))
  else
    let (r, s) := d.store.rollback handle
    (r, d.withStore s)

end Database
end RowGuard
