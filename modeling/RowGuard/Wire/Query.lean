import RowGuard.Wire.Condition
import RowGuard.Query.Rendering

/-! # Plans on the wire

A plan is an object; parts that are empty are left out.
-/
namespace RowGuard

namespace Direction

def encode (d : Direction) : Json := .str d.name

def decode : Wire.Decoder Direction := Wire.choice [("asc", .asc), ("desc", .desc)] false

end Direction

namespace Cursor

def encode (c : Cursor) : Json := .object [("row", .ofRow c.row), ("exclusive", .bool c.exclusive)]

def decode : Wire.Decoder Cursor := Wire.record "Cursor" 2 fun p => do
  return ⟨← p.required 0 "row" Wire.row, ← p.required 1 "exclusive" Wire.bool⟩

end Cursor

namespace Plan

def encodeOrder (o : String × Direction) : Json := .arr [.str o.1, o.2.encode]

def decodeOrder : Wire.Decoder (String × Direction)
  | .arr [c, d] => do
    let c ← Wire.string c
    let d ← d |> Direction.decode
    return (c, d)
  | .arr items => .error ("invalid length " ++ toString items.length ++ ", expected a tuple of size 2")
  | v => .error (Wire.wrongKind v "a tuple of size 2")

def encode (p : Plan) : Json :=
  .object ([("table", .str p.table)]
    ++ (p.filter.map fun c => ("where", c.encode)).toList
    ++ (p.limit.map fun n => ("limit", Json.ofNat n)).toList
    ++ (if p.order.isEmpty then [] else [("orderBy", .arr (p.order.map encodeOrder))])
    ++ (p.start.map fun c => ("start", c.encode)).toList)

def decode : Wire.Decoder Plan := Wire.record "Plan" 5 fun p => do
  return ⟨← p.required 0 "table" Wire.string,
    ← p.optional 1 "where" (Condition.decode false),
    ← p.optional 2 "limit" (Wire.natural "usize"),
    ← p.defaulted 3 "orderBy" [] (Wire.list decodeOrder),
    ← p.optional 4 "start" Cursor.decode⟩

end Plan
end RowGuard
