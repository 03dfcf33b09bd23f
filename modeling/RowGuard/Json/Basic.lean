import RowGuard.Dict
import RowGuard.Number.Basic

/-! # JSON values

Values of JSON documents, rows of tables and their structural equality.  Readers and builders keep
the fields of an object in ascending order of name; a `Row` carries that order in its type.
-/
namespace RowGuard

/-- A JSON value.  The fields of an object stand in ascending order of name. -/
inductive Json where
  | null
  | bool (b : Bool)
  | num (n : Number)
  | str (s : String)
  | arr (items : List Json)
  | obj (fields : List (String × Json))
deriving Inhabited

/-- A row: a finite map from column names to values. -/
abbrev Row := Dict Json

mutual
/-- Structural equality of values. -/
def Json.same : Json → Json → Bool
  | .null, .null => true
  | .bool a, .bool b => a == b
  | .num a, .num b => a.same b
  | .str a, .str b => a == b
  | .arr xs, .arr ys => sameItems xs ys
  | .obj xs, .obj ys => sameFields xs ys
  | _, _ => false

def sameItems : List Json → List Json → Bool
  | [], [] => true
  | x :: xs, y :: ys => x.same y && sameItems xs ys
  | _, _ => false

def sameFields : List (String × Json) → List (String × Json) → Bool
  | [], [] => true
  | (k, x) :: xs, (l, y) :: ys => k == l && x.same y && sameFields xs ys
  | _, _ => false
end

namespace Json

def ofNat (n : Nat) : Json := .num (.natural n)

/-- The object of the given fields; of two with one name the later stays. -/
def object (fields : List (String × Json)) : Json := .obj (Dict.ofList fields).entries

def ofRow (r : Row) : Json := .obj r.entries

/-- The string as a value, and `null` for no string. -/
def ofString? : Option String → Json
  | none => .null
  | some s => .str s

def toRow? : Json → Option Row
  | .obj fields => some (Dict.ofList fields)
  | _ => none

def isNull : Json → Bool
  | .null => true
  | _ => false

def toString? : Json → Option String
  | .str s => some s
  | _ => none

def toList? : Json → Option (List Json)
  | .arr items => some items
  | _ => none

def toNat? : Json → Option Nat
  | .num n => n.toNat?
  | _ => none

/-- The field of an object, and `null` where there is none. -/
def field (v : Json) (name : String) : Json :=
  match v with
  | .obj fields => (findEntry name fields).getD .null
  | _ => .null

def field? (v : Json) (name : String) : Option Json :=
  match v with
  | .obj fields => findEntry name fields
  | _ => none

instance : BEq Json := ⟨same⟩

mutual
theorem same_refl : (v : Json) → v.same v = true
  | .null => rfl
  | .bool b => by simp [same]
  | .num n => by simpa [same] using n.same_refl
  | .str s => by simp [same]
  | .arr xs => by simpa [same] using sameItems_refl xs
  | .obj fs => by simpa [same] using sameFields_refl fs

theorem sameItems_refl : (xs : List Json) → sameItems xs xs = true
  | [] => rfl
  | x :: xs => by simp [sameItems, same_refl x, sameItems_refl xs]

theorem sameFields_refl : (fs : List (String × Json)) → sameFields fs fs = true
  | [] => rfl
  | (_, v) :: fs => by simp [sameFields, same_refl v, sameFields_refl fs]
end

end Json

namespace Row

/-- The value in a column, `null` where the row has none. -/
def value (r : Row) (column : String) : Json := (r.get? column).getD .null

def same (r s : Row) : Bool := sameFields r.entries s.entries

end Row
end RowGuard
