import RowGuard.Json.Basic
import RowGuard.Number.Shortest

/-! # The compact text of a value

Values are written without spaces.  In strings only the quote, the backslash and the control
characters below the space are escaped, the common ones by a letter and the others by four
hexadecimal digits.
-/
namespace RowGuard.Json

def hexDigit (n : Nat) : Char := Nat.digitChar n

/-- A character inside a string. -/
def escape (c : Char) : List Char :=
  match c with
  | '"' => ['\\', '"']
  | '\\' => ['\\', '\\']
  | '\n' => ['\\', 'n']
  | '\r' => ['\\', 'r']
  | '\t' => ['\\', 't']
  | '\x08' => ['\\', 'b']
  | '\x0c' => ['\\', 'f']
  | c =>
    if c.toNat < 32 then ['\\', 'u', '0', '0', hexDigit (c.toNat / 16), hexDigit (c.toNat % 16)]
    else [c]

def quoted (s : String) : List Char := '"' :: s.toList.flatMap escape ++ ['"']

mutual
/-- The compact text of a value. -/
def text : Json → List Char
  | .null => ['n', 'u', 'l', 'l']
  | .bool true => ['t', 'r', 'u', 'e']
  | .bool false => ['f', 'a', 'l', 's', 'e']
  | .num n => n.text
  | .str s => quoted s
  | .arr xs => '[' :: itemsText xs ++ [']']
  | .obj fs => '\x7b' :: fieldsText fs ++ ['\x7d']

def itemsText : List Json → List Char
  | [] => []
  | [x] => x.text
  | x :: y :: r => x.text ++ ',' :: itemsText (y :: r)

def fieldsText : List (String × Json) → List Char
  | [] => []
  | [(k, v)] => quoted k ++ ':' :: v.text
  | (k, v) :: f :: r => quoted k ++ ':' :: (v.text ++ ',' :: fieldsText (f :: r))
end

def compact (v : Json) : String := String.ofList v.text

end RowGuard.Json
