import RowGuard.Json.Printer
import RowGuard.Text.Debug

/-! # Decoding values into structures

A structure arrives as an object, by name, or as an array, in order of declaration.  A choice
without data arrives as its name, or as an object with the name as its only field.  A tagged choice
arrives as an object with its tag among the fields, or as an array with the tag in front; its parts
are then *buffered*, and a buffered tag may also be given by position.  Unknown fields are ignored.
A decoder that refuses a value says why.
-/
namespace RowGuard.Wire

/-- A decoder gives a value or the reason why there is none. -/
abbrev Decoder (α : Type) := Json → Except String α

/-- What a value is, in the words of a refusal. -/
def kindOf : Json → String
  | .null => "null"
  | .bool true => "boolean `true`"
  | .bool false => "boolean `false`"
  | .num (.double u) => "floating point `" ++ String.ofList (Number.double u).text ++ "`"
  | .num .minusZero => "floating point `" ++ String.ofList Number.minusZero.text ++ "`"
  | .num n => "integer `" ++ String.ofList n.text ++ "`"
  | .str s => "string " ++ String.ofList (Text.debugString s)
  | .arr _ => "sequence"
  | .obj _ => "map"

def wrongKind (v : Json) (expected : String) : String :=
  "invalid type: " ++ kindOf v ++ ", expected " ++ expected

/-- A list of names as alternatives. -/
def alternatives (names : List String) : String :=
  match names.map (fun n => "`" ++ n ++ "`") with
  | [] => "there are no variants"
  | [a] => a
  | [a, b] => a ++ " or " ++ b
  | ns => "one of " ++ ", ".intercalate ns

def unknownName (name : String) (names : List String) : String :=
  "unknown variant `" ++ name ++ "`, expected " ++ alternatives names

def missingField (name : String) : String := "missing field `" ++ name ++ "`"

def elements (n : Nat) : String := toString n ++ (if n = 1 then " element" else " elements")

def value : Decoder Json := .ok

def string : Decoder String
  | .str s => .ok s
  | v => .error (wrongKind v "a string")

def bool : Decoder Bool
  | .bool b => .ok b
  | v => .error (wrongKind v "a boolean")

/-- A natural number; `what` names its width in a refusal. -/
def natural (what : String) : Decoder Nat
  | .num (.natural n) => .ok n
  | .num (.negative n) =>
    .error ("invalid value: " ++ kindOf (.num (.negative n)) ++ ", expected " ++ what)
  | v => .error (wrongKind v what)

def list {α : Type} (decode : Decoder α) : Decoder (List α)
  | .arr xs => xs.mapM decode
  | v => .error (wrongKind v "a sequence")

def dict {α : Type} (decode : Decoder α) : Decoder (Dict α)
  | .obj fields => do
    let entries ← fields.mapM fun (k, v) => do
      let x ← decode v
      pure (k, x)
    pure (Dict.ofList entries)
  | v => .error (wrongKind v "a map")

def row : Decoder Row := dict value

/-- A value, or `null` for none. -/
def option {α : Type} (decode : Decoder α) : Decoder (Option α)
  | .null => .ok none
  | v => (decode v).map some

/-- The parts of a structure, as they arrive. -/
structure Parts where
  /-- The fields of an object, or the items of an array. -/
  source : List (String × Json) ⊕ List Json
  /-- What the structure is called in a refusal. -/
  name : String
  /-- The number of fields that are declared. -/
  count : Nat

namespace Parts

/-- The part at a position, under a name. -/
def get? (p : Parts) (i : Nat) (name : String) : Option Json :=
  match p.source with
  | .inl fields => findEntry name fields
  | .inr items => items[i]?

def missing (p : Parts) (i : Nat) (name : String) : String :=
  match p.source with
  | .inl _ => missingField name
  | .inr _ =>
    "invalid length " ++ toString i ++ ", expected " ++ p.name ++ " with " ++ elements p.count

def required {α : Type} (p : Parts) (i : Nat) (name : String) (decode : Decoder α) : Except String α :=
  match p.get? i name with
  | some v => decode v
  | none => .error (p.missing i name)

def defaulted {α : Type} (p : Parts) (i : Nat) (name : String) (default : α) (decode : Decoder α) :
    Except String α :=
  match p.get? i name with
  | some v => decode v
  | none => .ok default

/-- A part that may be `null`, and may be missing from an object. -/
def nullable {α : Type} (p : Parts) (i : Nat) (name : String) (decode : Decoder α) :
    Except String (Option α) :=
  match p.get? i name, p.source with
  | some v, _ => option decode v
  | none, .inl _ => .ok none
  | none, .inr _ => .error (p.missing i name)

/-- A part that may be `null` or missing. -/
def optional {α : Type} (p : Parts) (i : Nat) (name : String) (decode : Decoder α) :
    Except String (Option α) :=
  p.defaulted i name none (option decode)

/-- Refuse the first field of an object, in order of name, that its own check refuses. -/
def screen (p : Parts) (checks : List (String × (Json → Except String Unit))) : Except String Unit :=
  match p.source with
  | .inl fields => fields.forM fun (k, v) => match checks.lookup k with
    | some check => check v
    | none => .ok ()
  | .inr _ => .ok ()

/-- Refuse an array that is longer than the declaration. -/
def finish (p : Parts) (buffered : Bool) : Except String Unit :=
  match p.source with
  | .inl _ => .ok ()
  | .inr items =>
    if items.length ≤ p.count then .ok ()
    else if buffered then .error ("invalid length " ++ toString items.length ++ ", expected "
      ++ elements p.count ++ " in sequence")
    else .error ("invalid length " ++ toString items.length ++ ", expected fewer elements in array")

end Parts

def parts (name : String) (count : Nat) : Decoder Parts
  | .obj fields => .ok ⟨.inl fields, "struct " ++ name, count⟩
  | .arr items => .ok ⟨.inr items, "struct " ++ name, count⟩
  | v => .error (wrongKind v ("struct " ++ name))

/-- Decode a structure: its parts, and then that no item of an array is left. -/
def record {α : Type} (name : String) (count : Nat) (build : Parts → Except String α) : Decoder α :=
  fun v => do
    let p ← parts name count v
    let x ← build p
    p.finish false
    pure x

def unit (buffered : Bool) : Decoder Unit
  | .null => .ok ()
  | .obj [] => if buffered then .ok () else .error (wrongKind (.obj []) "unit")
  | v => .error (wrongKind v "unit")

def nameOf {α : Type} (choices : List (String × α)) (s : String) : Except String α :=
  match choices.lookup s with
  | some a => .ok a
  | none => .error (unknownName s (choices.map Prod.fst))

/-- A choice without data: its name, or an object with its name as the only field. -/
def choice {α : Type} (choices : List (String × α)) (buffered : Bool) : Decoder α
  | .str s => nameOf choices s
  | .obj [(k, v)] => do
    let a ← nameOf choices k
    unit buffered v
    pure a
  | .obj _ => .error "invalid value: map, expected map with a single key"
  | v => .error (wrongKind v "string or map")

/-- The name of a tag; a buffered tag may be given by its position. -/
def tagName {α : Type} (choices : List (String × α)) (buffered : Bool) : Decoder α
  | .str s => nameOf choices s
  | .num (.natural n) =>
    if buffered then
      match choices[n]? with
      | some c => .ok c.2
      | none => .error ("invalid value: integer `" ++ toString n
          ++ "`, expected variant index 0 <= i < " ++ toString choices.length)
    else .error (wrongKind (.num (.natural n)) "variant identifier")
  | v => .error (wrongKind v "variant identifier")

/-- A tagged choice: the choice that the tag makes, with the fields or items beside the tag. -/
def tagged {α : Type} (name tag : String) (choices : List (String × α)) (buffered : Bool) :
    Decoder (α × (List (String × Json) ⊕ List Json))
  | .obj fields =>
    match findEntry tag fields with
    | some t => (tagName choices buffered t).map fun a => (a, .inl fields)
    | none => .error (missingField tag)
  | .arr (t :: items) => (tagName choices buffered t).map fun a => (a, .inr items)
  | .arr [] => .error (missingField tag)
  | v => .error (wrongKind v ("internally tagged enum " ++ name))

def variant {α : Type} (name : String) (count : Nat) (source : List (String × Json) ⊕ List Json)
    (build : Parts → Except String α) : Except String α := do
  let p : Parts := ⟨source, "struct variant " ++ name, count⟩
  let x ← build p
  p.finish true
  pure x

def bareVariant {α : Type} (source : List (String × Json) ⊕ List Json) (a : α) : Except String α :=
  variant "" 0 source fun _ => .ok a

end RowGuard.Wire
