import RowGuard.Json.Printer
import RowGuard.Text.Debug

/-! # Values in diagnostics

In a diagnostic every value is shown with the name of its kind.
-/
namespace RowGuard.Json

mutual
/-- The diagnostic text of a value. -/
def diagnostic : Json → List Char
  | .null => "Null".toList
  | .bool b => "Bool(".toList ++ (Json.bool b).text ++ [')']
  | .num n => "Number(".toList ++ n.text ++ [')']
  | .str s => "String(".toList ++ Text.debugString s ++ [')']
  | .arr xs => "Array [".toList ++ diagnosticItems xs ++ [']']
  | .obj fs => "Object \x7b".toList ++ diagnosticFields fs ++ ['\x7d']

def diagnosticItems : List Json → List Char
  | [] => []
  | [x] => x.diagnostic
  | x :: y :: r => x.diagnostic ++ ',' :: ' ' :: diagnosticItems (y :: r)

def diagnosticFields : List (String × Json) → List Char
  | [] => []
  | [(k, v)] => Text.debugString k ++ ':' :: ' ' :: v.diagnostic
  | (k, v) :: f :: r =>
    Text.debugString k ++ ':' :: ' ' :: (v.diagnostic ++ ',' :: ' ' :: diagnosticFields (f :: r))
end

/-- The diagnostic text of a list of values between brackets. -/
def diagnosticList (vs : List Json) : String := String.ofList ('[' :: diagnosticItems vs ++ [']'])

end RowGuard.Json
