import RowGuard.Condition.Match
import RowGuard.Schema

/-! # Queries on one table

A query filters the rows of one table, orders them, starts after a cursor row and keeps a limited
number.  The completed form appends the primary key to the requested ordering, so that results and
cursors are stable.
-/
namespace RowGuard

inductive Direction where
  | asc
  | desc
deriving DecidableEq, Repr

/-- Where a result begins: after the row, or at it when the cursor is not exclusive. -/
structure Cursor where
  row : Row
  exclusive : Bool

/-- The parts of a query that execution reads. -/
structure Plan where
  table : String
  filter : Option Condition
  limit : Option Nat
  order : List (String × Direction)
  start : Option Cursor

/-- A query: a plan with the primary key of its table, and whether a single row is asked for. -/
structure Query where
  plan : Plan
  primaryKey : List String
  single : Bool

namespace Query

/-- The query for all rows of a table. -/
def onTable (table : String) (primaryKey : List String) : Query :=
  ⟨⟨table, none, none, [], none⟩, primaryKey, false⟩

def table (q : Query) : String := q.plan.table

/-- Add a filter; a second one is joined to the first. -/
def restrict (q : Query) (c : Condition) : Query :=
  { q with plan := { q.plan with filter := some (match q.plan.filter with
    | some old => old.both c
    | none => c) } }

/-- Add a filter that is made for the table of the query. -/
def restrictBy (q : Query) (f : String → Condition) : Query := q.restrict (f q.table)

/-- Add a filter that is made for the table of the query, if that succeeds. -/
def tryRestrict {ε : Type} (q : Query) (f : String → Except ε Condition) : Except ε Query :=
  (f q.table).map q.restrict

def one (q : Query) : Query := { q with single := true, plan := { q.plan with limit := some 1 } }

def limit (q : Query) (n : Nat) : Query := { q with plan := { q.plan with limit := some n } }

/-- Begin after a row. -/
def start (q : Query) (row : Row) : Query :=
  { q with plan := { q.plan with start := some ⟨row, true⟩ } }

/-- Add an ordering column, less significant than those before it. -/
def orderBy (q : Query) (column : String) (d : Direction) : Query :=
  { q with plan := { q.plan with order := q.plan.order ++ [(column, d)] } }

/-- Append the key columns that an ordering lacks, in ascending direction. -/
def completeOrder (order : List (String × Direction)) : List String → List (String × Direction)
  | [] => order
  | k :: ks =>
    completeOrder (if order.any (·.1 = k) then order else order ++ [(k, .asc)]) ks

/-- The completed ordering of a query: the requested columns, then the rest of the primary key. -/
def fullOrder (q : Query) : List (String × Direction) := completeOrder q.plan.order q.primaryKey

def completed (q : Query) : Plan := { q.plan with order := q.fullOrder }

end Query

def Schema.query (s : Schema) (name : String) : Outcome Query :=
  match s.require name with
  | .ok t => .ok (Query.onTable name t.primaryKey)
  | .error e => .error e

theorem Schema.query_eq_ok_iff {s : Schema} {name : String} {q : Query} :
    s.query name = .ok q ↔ ∃ t, s.table? name = some t ∧ q = .onTable name t.primaryKey := by
  simp only [query, ← require_eq_ok_iff]
  cases s.require name with
  | error e => simp
  | ok t => simp [eq_comm]

end RowGuard
