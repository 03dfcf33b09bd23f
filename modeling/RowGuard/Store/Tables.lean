import RowGuard.Query.Execution
import RowGuard.Json.Diagnostic

/-! # Tables of rows

The rows of a table stand in the order of their insertion.  A row is found by its primary key,
compared structurally.  An insert refuses a key that is taken; an upsert inserts or merges; an
update merges into a row that is there and a delete removes it, and both leave the table alone
otherwise.  Whatever creates a row fills in defaults and refuses to leave a required column empty.
-/
namespace RowGuard

inductive Action where
  | insert
  | upsert
  | update
  | delete
deriving DecidableEq, Repr

namespace Action

/-- The writes, in the order in which mutations are listed. -/
def all : List Action := [insert, upsert, update, delete]

def name : Action → String
  | insert => "insert"
  | upsert => "upsert"
  | update => "update"
  | delete => "delete"

def ofName? (s : String) : Option Action := all.find? (·.name = s)

@[simp] theorem ofName?_name (a : Action) : ofName? a.name = some a := by
  cases a <;> decide

end Action

/-- The rows of every table, in the order of their insertion. -/
abbrev Tables := Dict (List Row)

namespace Tables

def rows (ts : Tables) (table : String) : List Row := (ts.get? table).getD []

def setRows (ts : Tables) (table : String) (rows : List Row) : Tables := ts.insert table rows

@[simp] theorem rows_empty (table : String) : rows (.empty : Tables) table = [] := rfl

theorem rows_setRows (ts : Tables) (table other : String) (rs : List Row) :
    (ts.setRows table rs).rows other = if table = other then rs else ts.rows other := by
  unfold rows setRows
  rw [Dict.get?_insert]
  split <;> simp

end Tables

def modifyFirst {α : Type} (test : α → Bool) (f : α → α) : List α → List α
  | [] => []
  | x :: xs => if test x then f x :: xs else x :: modifyFirst test f xs

namespace Table

/-- The value of a key column, which must be there. -/
def keyValue (t : Table) (row : Row) (column : String) : Outcome Json :=
  match row.get? column with
  | some v =>
    if v.isNull then
      .error (.invalid (t.name ++ ": missing primary key column '" ++ column ++ "'"))
    else .ok v
  | none => .error (.invalid (t.name ++ ": missing primary key column '" ++ column ++ "'"))

def keyOf (t : Table) (row : Row) : Outcome (List Json) := t.primaryKey.mapM (t.keyValue row)

/-- Whether a row has the given values in the given columns. -/
def agrees (row : Row) : List String → List Json → Bool
  | c :: cs, v :: vs =>
    (match row.get? c with
      | some w => w.same v
      | none => false) && agrees row cs vs
  | _, _ => true

def hasKey (t : Table) (key : List Json) (row : Row) : Bool := agrees row t.primaryKey key

/-- Every column of a row must be declared. -/
def checkColumns (t : Table) (row : Row) : Outcome Unit :=
  match row.keys.find? (fun c => !t.declares c) with
  | some c => .error (.invalid (t.name ++ ": unknown column '" ++ c ++ "'"))
  | none => .ok ()

/-- Fill one column of a row, unless it has a value. -/
def fillColumn (t : Table) (now : Nat) (row : Row) (c : Column) : Outcome Row :=
  if (row.value c.name).isNull then
    match c.default with
    | some d => .ok (row.insert c.name (d.produce now))
    | none =>
      if c.optional then .ok row
      else .error (.invalid (t.name ++ ": column '" ++ c.name ++ "' is required"))
  else .ok row

def withDefaults (t : Table) (now : Nat) (row : Row) : Outcome Row :=
  t.columns.foldlM (t.fillColumn now) row

/-- The row with the columns of another one overwritten. -/
def merge (row change : Row) : Row := row.insertMany change.entries

/-- Add a row, with its defaults, at the end. -/
def append (t : Table) (now : Nat) (rows : List Row) (row : Row) : Outcome (List Row) :=
  (t.withDefaults now row).map fun r => rows ++ [r]

def duplicate (table : String) (key : List Json) : Failure :=
  .store "duplicate_key" (table ++ ": row " ++ Json.diagnosticList key ++ " already exists")

/-- Apply a write to the rows of a table, for a row with the given key. -/
def applyAt (t : Table) (now : Nat) (table : String) (rows : List Row) (action : Action) (row : Row)
    (key : List Json) : Outcome (List Row) :=
  let found := rows.any (t.hasKey key)
  match action, found with
  | .insert, true => .error (duplicate table key)
  | .insert, false => t.append now rows row
  | .upsert, false => t.append now rows row
  | .upsert, true => .ok (modifyFirst (t.hasKey key) (merge · row) rows)
  | .update, true => .ok (modifyFirst (t.hasKey key) (merge · row) rows)
  | .update, false => .ok rows
  | .delete, true => .ok (rows.eraseP (t.hasKey key))
  | .delete, false => .ok rows

def applyTo (t : Table) (now : Nat) (table : String) (rows : List Row) (action : Action) (row : Row) :
    Outcome (List Row) := do
  t.checkColumns row
  let key ← t.keyOf row
  t.applyAt now table rows action row key

end Table

namespace Schema

/-- Apply a write to the tables, at a time in milliseconds. -/
def write (s : Schema) (now : Nat) (ts : Tables) (table : String) (action : Action) (row : Row) :
    Outcome Tables := do
  let t ← s.require table
  let rows ← t.applyTo now table (ts.rows table) action row
  return ts.setRows table rows

/-- Insert rows one after another until one fails; those before it stay. -/
def seed (s : Schema) (now : Nat) (table : String) : Tables → List Row → Tables × Outcome Unit
  | ts, [] => (ts, .ok ())
  | ts, r :: rs =>
    match s.write now ts table .insert r with
    | .ok ts => s.seed now table ts rs
    | .error e => (ts, .error e)

def execute (s : Schema) (ts : Tables) (q : Query) : Outcome (List Row) :=
  match s.require q.table with
  | .ok _ => .ok (q.completed.select (ts.rows q.table))
  | .error e => .error e

/-- The rows of a table in the order of its primary key, or as they stand if it is not declared. -/
def listing (s : Schema) (ts : Tables) (table : String) : List Row :=
  match s.table? table with
  | some t => sortBy (compareRows (t.primaryKey.map fun c => (c, .asc))) (ts.rows table)
  | none => ts.rows table

end Schema
end RowGuard
