import RowGuard.Wire.Decode
import RowGuard.Schema

/-! # Schemas on the wire

A default is tagged by `kind` with its data beside the tag under `value`; tables stand under their
keys.
-/
namespace RowGuard

namespace ColumnType

def names : List (String × ColumnType) :=
  [("string", .string), ("number", .number), ("boolean", .boolean), ("json", .json)]

def name : ColumnType → String
  | .string => "string"
  | .number => "number"
  | .boolean => "boolean"
  | .json => "json"

def encode (t : ColumnType) : Json := .str t.name

def decode : Wire.Decoder ColumnType := Wire.choice names false

end ColumnType

namespace ColumnDefault

inductive Kind where
  | value
  | nowMillis

def kinds : List (String × Kind) := [("value", .value), ("now_millis", .nowMillis)]

def encode : ColumnDefault → Json
  | .value v => .object [("kind", .str "value"), ("value", v)]
  | .nowMillis => .object [("kind", .str "now_millis")]

/-- The default of a kind, with the data beside the tag if there is some. -/
def ofKind : Kind → Option Json → Except String ColumnDefault
  | .value, some v => .ok (.value v)
  | .value, none => .error (Wire.missingField "value")
  | .nowMillis, none => .ok .nowMillis
  | .nowMillis, some v => do
    Wire.unit false v
    return .nowMillis

def decode : Wire.Decoder ColumnDefault
  | .obj fields =>
    match findEntry "kind" fields with
    | some t => do
      let k ← Wire.choice kinds false t
      ofKind k (findEntry "value" fields)
    | none => .error (Wire.missingField "kind")
  | .arr [t, v] => do
    let k ← Wire.tagName kinds false t
    ofKind k (some v)
  | .arr items => .error ("invalid length " ++ toString items.length
      ++ ", expected adjacently tagged enum ColumnDefault")
  | v => .error (Wire.wrongKind v "adjacently tagged enum ColumnDefault")

end ColumnDefault

namespace Column

def encode (c : Column) : Json := .object
  [("name", .str c.name), ("type", c.type.encode), ("optional", .bool c.optional),
    ("default", (c.default.map ColumnDefault.encode).getD .null)]

def decode : Wire.Decoder Column := Wire.record "Column" 4 fun p => do
  return ⟨← p.required 0 "name" Wire.string, ← p.required 1 "type" ColumnType.decode,
    ← p.defaulted 2 "optional" false Wire.bool, ← p.optional 3 "default" ColumnDefault.decode⟩

end Column

namespace Table

def encode (t : Table) : Json := .object
  [("name", .str t.name), ("columns", .arr (t.columns.map Column.encode)),
    ("primaryKey", .arr (t.primaryKey.map .str))]

def decode : Wire.Decoder Table := Wire.record "Table" 3 fun p => do
  return ⟨← p.required 0 "name" Wire.string, ← p.required 1 "columns" (Wire.list Column.decode),
    ← p.required 2 "primaryKey" (Wire.list Wire.string)⟩

end Table

namespace Schema

def encode (s : Schema) : Json :=
  .object [("tables", .obj (s.tables.mapValues Table.encode).entries)]

def decode : Wire.Decoder Schema := Wire.record "Schema" 1 fun p => do
  return ⟨← p.required 0 "tables" (Wire.dict Table.decode)⟩

end Schema
end RowGuard
