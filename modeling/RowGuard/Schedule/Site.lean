import RowGuard.Mutation.Model
import RowGuard.Store.Database

/-! # Where programs run

The site holds what running code shares: the databases, the journal, the bags of deferred work and
the installation.  It answers every request at once.
-/
namespace RowGuard

/-- Work that is started beside the running code. -/
inductive Job where
  | perform (work : List Deferred)
  | mutation (c : Call)

/-- What running code shares. -/
structure Site where
  /-- The time that writes see. -/
  clock : Nat
  databases : List Database
  journal : List Entry
  bags : List (List Deferred)
  /-- Jobs that were asked for and have not been started. -/
  outbox : List Job
  installation : Installation

/-- What belongs to one piece of running code: its invocation, if it is a mutation, its scope, and
the checks passed in it. -/
structure Post where
  invocation : Option Invocation
  scope : Scope
  checked : Checked

namespace Post

/-- Code that is no mutation. -/
def outside : Post := ⟨none, .outside, []⟩

/-- The body of a mutation, which runs in the scope of the mutation. -/
def ofInvocation (i : Invocation) : Post := ⟨some i, i.ambient.scope, []⟩

end Post

namespace Site

def new (clock : Nat) (databases : List Database) : Site := ⟨clock, databases, [], [], [], .empty⟩

def noDatabase : Failure := .store "io" "no such database"

def note (s : Site) (entries : List Entry) : Site := { s with journal := s.journal ++ entries }

def addDatabase (s : Site) (d : Database) : Site := { s with databases := s.databases ++ [d] }

def onDatabase {α : Type} (s : Site) (database : Nat) (f : Database → Outcome α × Database) :
    Outcome α × Site :=
  match s.databases[database]? with
  | none => (.error noDatabase, s)
  | some d =>
    let (r, d) := f d
    (r, { s with databases := s.databases.set database d })

def run (s : Site) (tx : TxRef) (q : Query) : Outcome (List Row) :=
  match s.databases[tx.database]? with
  | none => .error noDatabase
  | some d => d.run tx.handle q

/-- Begin a transaction; `none` while another one holds the lock. -/
def begin? (s : Site) (database : Nat) : Option (Outcome TxRef × Site) :=
  match s.databases[database]? with
  | none => some (.error noDatabase, s)
  | some d => d.begin?.map fun (r, d) =>
    (r.map fun handle => ⟨database, handle⟩, { s with databases := s.databases.set database d })

def drop (s : Site) (tx : TxRef) : Site :=
  (s.onDatabase tx.database fun d => (.ok (), d.withStore (d.store.drop tx.handle))).2

/-- The committed rows that a query selects, if the database has snapshots. -/
def snapshot (s : Site) (database : Nat) (q : Query) : Option (Outcome (List Row)) :=
  match s.databases[database]? with
  | none => some (.error noDatabase)
  | some d => if d.snapshots then some (d.store.execute q) else none

def bag (s : Site) (b : Nat) : List Deferred := (s.bags[b]?).getD []

def setBag (s : Site) (b : Nat) (work : List Deferred) : Site :=
  { s with bags := s.bags.set b work }

def post (s : Site) (j : Job) : Site := { s with outbox := s.outbox ++ [j] }

/-- Let a gate decide on an invocation.  A subject that passes is recorded. -/
def can (s : Site) (p : Post) (g : Gate) (w : Where) (subject : Subject) : Outcome Unit × Post × Site :=
  match p.invocation with
  | none => (.error .notInMutator, p, s)
  | some i =>
    let x := g.can p.scope.actor i.actor (s.run i.tx) w subject
    let s := s.note ((x.labels.filterMap id).map .consulted)
    match x.result with
    | .ok (some key) => (.ok (), { p with checked := p.checked.mark key }, s)
    | .ok none => (.ok (), p, s)
    | .error e => (.error e, p, s)

def answer (s : Site) (p : Post) : (r : Request) → r.Reply × Post × Site
  | .note entries => ((), p, s.note entries)
  | .run tx q => (s.run tx q, p, s)
  | .mutate tx table action row =>
    let (r, s') := s.onDatabase tx.database fun d => d.mutate s.clock tx.handle table action row
    (r, p, s')
  | .commit tx =>
    let (r, s) := s.onDatabase tx.database fun d => d.commit tx.handle
    (r, p, s)
  | .rollback tx =>
    let (r, s) := s.onDatabase tx.database fun d => d.rollback tx.handle
    (r, p, s)
  | .snapshot database q => (s.snapshot database q, p, s)
  | .can g w subject => s.can p g w subject
  | .checked => (p.checked, p, s)
  | .openBag => (s.bags.length, p, { s with bags := s.bags ++ [[]] })
  | .defer b d =>
    let s := s.setBag b (s.bag b ++ [d])
    ((s.bag b).length, p, s)
  | .bag b => (s.bag b, p, s)
  | .takeBag b => (s.bag b, p, s.setBag b [])
  | .launch work => ((), p, if work.isEmpty then s else s.post (.perform work))
  | .installed => (s.installation, p, s)
  | .makeActions =>
    let (r, i) := s.installation.makeActions
    (r, p, { s with installation := i })

end Site
end RowGuard
