import RowGuard.Json.Basic
import RowGuard.Failure

/-! # Schemas

Tables declare their columns, the defaults that an insert fills in and their primary key.  A table
is usable when its primary key is not empty and made of declared columns.
-/
namespace RowGuard

inductive ColumnType where
  | string
  | number
  | boolean
  | json
deriving DecidableEq, Repr

/-- The value of a column that an insert leaves out. -/
inductive ColumnDefault where
  | value (v : Json)
  | nowMillis

def ColumnDefault.produce (now : Nat) : ColumnDefault → Json
  | value v => v
  | nowMillis => Json.ofNat now

structure Column where
  name : String
  type : ColumnType
  optional : Bool
  default : Option ColumnDefault

/-- Whether an insert may leave the column out. -/
def Column.mayOmit (c : Column) : Bool := c.optional || c.default.isSome

structure Table where
  name : String
  columns : List Column
  primaryKey : List String

namespace Table

def column? (t : Table) (name : String) : Option Column := t.columns.find? (·.name = name)

def declares (t : Table) (name : String) : Bool := (t.column? name).isSome

/-- A table is usable if it has a primary key made of declared columns. -/
def validate (t : Table) : Outcome Unit :=
  if t.primaryKey.isEmpty then
    .error (.configuration ("table '" ++ t.name ++ "' has no primary key"))
  else
    match t.primaryKey.find? (fun c => !t.declares c) with
    | some c => .error (.configuration
        ("table '" ++ t.name ++ "' primary key column '" ++ c ++ "' is not declared"))
    | none => .ok ()

end Table

/-- The declared tables, each under its name. -/
structure Schema where
  tables : Dict Table

namespace Schema

def empty : Schema := ⟨.empty⟩

def addTable (s : Schema) (t : Table) : Schema := ⟨s.tables.insert t.name t⟩

def table? (s : Schema) (name : String) : Option Table := s.tables.get? name

/-- The table of a name; an unknown name is a configuration failure. -/
def require (s : Schema) (name : String) : Outcome Table :=
  match s.table? name with
  | some t => .ok t
  | none => .error (.configuration ("no schema for table '" ++ name ++ "'"))

/-- Every table is usable; the first one that is not gives the failure. -/
def validate (s : Schema) : Outcome Unit := s.tables.values.forM Table.validate

theorem require_eq_ok_iff {s : Schema} {name : String} {t : Table} :
    s.require name = .ok t ↔ s.table? name = some t := by
  unfold require
  split <;> simp_all

end Schema
end RowGuard
