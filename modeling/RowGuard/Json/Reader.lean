import RowGuard.Json.Basic
import RowGuard.Number.Reading

/-! # Reading a JSON document

`parse?` reads one document that fills the whole text.  Arrays and objects may nest at most
`depthLimit` deep, a string holds no raw control character, and an escaped surrogate stands in a
pair.  Of two fields with one name the later stays.
-/
namespace RowGuard.Json

/-- The deepest nesting of arrays and objects that is read. -/
def depthLimit : Nat := 127

/-- Whether a character may stand between the parts of a document. -/
def isGap (c : Char) : Bool := c = ' ' || c = '\n' || c = '\t' || c = '\r'

def skipGap (s : List Char) : List Char := s.dropWhile isGap

def dropStart? : List Char → List Char → Option (List Char)
  | [], s => some s
  | c :: cs, d :: s => if c = d then dropStart? cs s else none
  | _ :: _, [] => none

def hexValue? (c : Char) : Option Nat :=
  if '0' ≤ c ∧ c ≤ '9' then some (c.toNat - '0'.toNat)
  else if 'a' ≤ c ∧ c ≤ 'f' then some (c.toNat - 'a'.toNat + 10)
  else if 'A' ≤ c ∧ c ≤ 'F' then some (c.toNat - 'A'.toNat + 10)
  else none

/-- Four hexadecimal digits and the text after them. -/
def readUnit? : List Char → Option (Nat × List Char)
  | a :: b :: c :: d :: s => do
    let a ← hexValue? a
    let b ← hexValue? b
    let c ← hexValue? c
    let d ← hexValue? d
    some (((a * 16 + b) * 16 + c) * 16 + d, s)
  | _ => none

/-- The character of a hexadecimal escape, of two units where the first is a leading surrogate. -/
def readEscapedPoint? (s : List Char) : Option (Char × List Char) := do
  let (u, s) ← readUnit? s
  if 0xD800 ≤ u ∧ u < 0xDC00 then
    match s with
    | '\\' :: 'u' :: s =>
      let (v, s) ← readUnit? s
      if 0xDC00 ≤ v ∧ v < 0xE000 then
        some (Char.ofNat (0x10000 + (u - 0xD800) * 0x400 + (v - 0xDC00)), s)
      else none
    | _ => none
  else if 0xDC00 ≤ u ∧ u < 0xE000 then none
  else some (Char.ofNat u, s)

/-- The character of an escape, after its backslash. -/
def readEscape? : List Char → Option (Char × List Char)
  | '"' :: s => some ('"', s)
  | '\\' :: s => some ('\\', s)
  | '/' :: s => some ('/', s)
  | 'b' :: s => some ('\x08', s)
  | 'f' :: s => some ('\x0c', s)
  | 'n' :: s => some ('\n', s)
  | 'r' :: s => some ('\r', s)
  | 't' :: s => some ('\t', s)
  | 'u' :: s => readEscapedPoint? s
  | _ => none

/-- The rest of a string after its opening quote, and the text after its closing one. -/
def readString? : Nat → List Char → List Char → Option (String × List Char)
  | 0, _, _ => none
  | fuel + 1, acc, s =>
    match s with
    | [] => none
    | '"' :: s => some (String.ofList acc.reverse, s)
    | '\\' :: s => do
      let (c, s) ← readEscape? s
      readString? fuel (c :: acc) s
    | c :: s => if c.toNat < 32 then none else readString? fuel (c :: acc) s

def isDecimal (c : Char) : Bool := '0' ≤ c && c ≤ '9'

/-- Split digits off the front; at least one must be there. -/
def readDigits? (s : List Char) : Option (List Char × List Char) :=
  match s.takeWhile isDecimal with
  | [] => none
  | ds => some (ds, s.dropWhile isDecimal)

/-- The digits before the point; a leading zero stands alone. -/
def readWhole? (s : List Char) : Option (List Char × List Char) :=
  match readDigits? s with
  | some ('0' :: _ :: _, _) => none
  | r => r

def readFraction? (s : List Char) : Option (Option (List Char) × List Char) :=
  match s with
  | '.' :: s => (readDigits? s).map fun (ds, s) => (some ds, s)
  | s => some (none, s)

/-- The exponent of a number literal after its letter. -/
def readSignedDigits? (s : List Char) : Option ((Bool × List Char) × List Char) :=
  match s with
  | '+' :: s => (readDigits? s).map fun (ds, s) => ((true, ds), s)
  | '-' :: s => (readDigits? s).map fun (ds, s) => ((false, ds), s)
  | s => (readDigits? s).map fun (ds, s) => ((true, ds), s)

def readExponent? (s : List Char) : Option (Option (Bool × List Char) × List Char) :=
  match s with
  | 'e' :: s => (readSignedDigits? s).map fun (e, s) => (some e, s)
  | 'E' :: s => (readSignedDigits? s).map fun (e, s) => (some e, s)
  | s => some (none, s)

/-- A number at the front of the text, without its sign. -/
def readNumber? (negative : Bool) (s : List Char) : Option (Number × List Char) := do
  let (whole, s) ← readWhole? s
  let (fraction, s) ← readFraction? s
  let (exponent, s) ← readExponent? s
  let n ← Number.ofLiteral ⟨negative, whole, fraction, exponent⟩
  some (n, s)

mutual
/-- A value at the front of the text; `depth` more levels may open. -/
def readValue? : Nat → Nat → List Char → Option (Json × List Char)
  | 0, _, _ => none
  | fuel + 1, depth, s =>
    match skipGap s with
    | 'n' :: s => (dropStart? ['u', 'l', 'l'] s).map fun s => (.null, s)
    | 't' :: s => (dropStart? ['r', 'u', 'e'] s).map fun s => (.bool true, s)
    | 'f' :: s => (dropStart? ['a', 'l', 's', 'e'] s).map fun s => (.bool false, s)
    | '"' :: s => (readString? fuel [] s).map fun (t, s) => (.str t, s)
    | '-' :: s => (readNumber? true s).map fun (n, s) => (.num n, s)
    | '[' :: s =>
      match depth with
      | 0 => none
      | depth + 1 =>
        match skipGap s with
        | ']' :: s => some (.arr [], s)
        | s => (readItems? fuel depth s).map fun (xs, s) => (.arr xs, s)
    | '\x7b' :: s =>
      match depth with
      | 0 => none
      | depth + 1 =>
        match skipGap s with
        | '\x7d' :: s => some (.obj [], s)
        | s => (readFields? fuel depth s).map fun (fs, s) => (object fs, s)
    | s => (readNumber? false s).map fun (n, s) => (.num n, s)

/-- The items of an array up to its closing bracket. -/
def readItems? : Nat → Nat → List Char → Option (List Json × List Char)
  | 0, _, _ => none
  | fuel + 1, depth, s => do
    let (v, s) ← readValue? fuel depth s
    match skipGap s with
    | ']' :: s => some ([v], s)
    | ',' :: s =>
      let (vs, s) ← readItems? fuel depth s
      some (v :: vs, s)
    | _ => none

/-- The fields of an object up to its closing brace. -/
def readFields? : Nat → Nat → List Char → Option (List (String × Json) × List Char)
  | 0, _, _ => none
  | fuel + 1, depth, s =>
    match skipGap s with
    | '"' :: s => do
      let (name, s) ← readString? fuel [] s
      match skipGap s with
      | ':' :: s =>
        let (v, s) ← readValue? fuel depth s
        match skipGap s with
        | '\x7d' :: s => some ([(name, v)], s)
        | ',' :: s =>
          let (fs, s) ← readFields? fuel depth s
          some ((name, v) :: fs, s)
        | _ => none
      | _ => none
    | _ => none
end

def parse? (text : String) : Option Json :=
  let s := text.toList
  match readValue? (2 * s.length + 2) depthLimit s with
  | some (v, rest) => if (skipGap rest).isEmpty then some v else none
  | none => none

end RowGuard.Json
