/-! # Runs of letters

Tables of letter mappings are lists of runs: letters at a fixed distance from one another that are
all shifted by the same amount.
-/
namespace RowGuard.Text

/-- The letters from `first` to `last`, `step` apart, each mapped `shift` code points away. -/
structure LetterRun where
  first : Nat
  last : Nat
  step : Nat
  shift : Int

def LetterRun.holds (r : LetterRun) (c : Nat) : Bool :=
  r.first ≤ c && c ≤ r.last && (c - r.first) % r.step == 0

/-- A code point under a table of runs; one that no run holds stays. -/
def mapLetter (table : List LetterRun) (c : Nat) : Nat :=
  match table.find? (·.holds c) with
  | some r => (c + r.shift).toNat
  | none => c

theorem mapLetter_nil (c : Nat) : mapLetter [] c = c := rfl

end RowGuard.Text
