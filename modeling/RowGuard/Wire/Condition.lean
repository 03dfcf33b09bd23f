import RowGuard.Wire.Decode
import RowGuard.Condition.Basic

/-! # Operators, operands and conditions on the wire

An operator is its text; operands and conditions are objects tagged by `type`.
-/
namespace RowGuard

namespace Operator

def encode (op : Operator) : Json := .str op.text

def decode (buffered : Bool) : Wire.Decoder Operator :=
  Wire.choice (all.map fun op => (op.text, op)) buffered

end Operator

namespace Operand

inductive Tag where
  | column
  | literal

def tags : List (String × Tag) := [("column", .column), ("literal", .literal)]

def encode : Operand → Json
  | .column name => .object [("type", .str "column"), ("name", .str name)]
  | .literal v => .object [("type", .str "literal"), ("value", v)]

def decode (buffered : Bool) : Wire.Decoder Operand := fun v => do
  match ← Wire.tagged "Operand" "type" tags buffered v with
  | (.column, source) => Wire.variant "Operand::Column" 1 source fun p => do
    return .column (← p.required 0 "name" Wire.string)
  | (.literal, source) => Wire.variant "Operand::Literal" 1 source fun p => do
    return .literal (← p.required 0 "value" Wire.value)

end Operand

namespace Condition

inductive Tag where
  | simple
  | and
  | or

def tags : List (String × Tag) := [("simple", .simple), ("and", .and), ("or", .or)]

mutual
def encode : Condition → Json
  | .simple op l r => .object
    [("type", .str "simple"), ("op", op.encode), ("left", l.encode), ("right", r.encode)]
  | .and cs => .object [("type", .str "and"), ("conditions", .arr (encodeAll cs))]
  | .or cs => .object [("type", .str "or"), ("conditions", .arr (encodeAll cs))]

def encodeAll : List Condition → List Json
  | [] => []
  | c :: cs => c.encode :: encodeAll cs
end

/-- Build a condition from its tag, its parts and the conditions found among them. -/
def ofParts (source : List (String × Json) ⊕ List Json)
    (inner : Option (Except String (List Condition))) : Tag → Except String Condition
  | .simple => Wire.variant "Condition::Simple" 3 source fun p => do
    return .simple (← p.required 0 "op" (Operator.decode true))
      (← p.required 1 "left" (Operand.decode true)) (← p.required 2 "right" (Operand.decode true))
  | .and => Wire.variant "Condition::And" 1 source fun p => do
    return .and (← inner.getD (.error (p.missing 0 "conditions")))
  | .or => Wire.variant "Condition::Or" 1 source fun p => do
    return .or (← inner.getD (.error (p.missing 0 "conditions")))

mutual
def decode (buffered : Bool) : Wire.Decoder Condition
  | .obj fields => do
    let (tag, source) ← Wire.tagged "Condition" "type" tags buffered (.obj fields)
    ofParts source (decodeField fields) tag
  | .arr items => do
    let (tag, source) ← Wire.tagged "Condition" "type" tags buffered (.arr items)
    ofParts source (decodeSecond items) tag
  | v => do
    let (tag, source) ← Wire.tagged "Condition" "type" tags buffered v
    ofParts source none tag

/-- The conditions in the field of that name. -/
def decodeField : List (String × Json) → Option (Except String (List Condition))
  | [] => none
  | (k, v) :: fields => if k = "conditions" then some (decodeList v) else decodeField fields

/-- The conditions in the item after the tag. -/
def decodeSecond : List Json → Option (Except String (List Condition))
  | _ :: v :: _ => some (decodeList v)
  | _ => none

/-- The conditions of an array. -/
def decodeList : Json → Except String (List Condition)
  | .arr items => decodeAll items
  | v => .error (Wire.wrongKind v "a sequence")

def decodeAll : List Json → Except String (List Condition)
  | [] => .ok []
  | v :: vs => do
    let c ← decode true v
    let cs ← decodeAll vs
    return c :: cs
end

end Condition
end RowGuard
