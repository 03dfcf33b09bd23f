import RowGuard.Dict
import RowGuard.Text.Blank

/-! # Configuration

The settings of gate and mutators, read once from environment variables with safe defaults.
-/
namespace RowGuard

inductive RunMode where
  | development
  | test
  | production
deriving DecidableEq, Repr

structure Config where
  mode : RunMode
  /-- The longest that a single mutation may take, in milliseconds. -/
  mutationTimeout : Nat
  developmentLogging : Bool

namespace Config

def defaultTimeout : Nat := 60000

/-- The settings of a mode; only production does without development logging. -/
def forMode (mode : RunMode) : Config := ⟨mode, defaultTimeout, mode ≠ .production⟩

def isProduction (c : Config) : Bool := c.mode = .production

/-- Whether denials carry the query that was run: everywhere but in production. -/
def diagnostics (c : Config) : Bool := !c.isProduction

end Config

/-- A text in lower case, as far as ASCII goes.  The words of the settings hold no letter to which a
character outside ASCII lowers, so no other text is mistaken for one of them. -/
def lowerAscii (s : List Char) : String := String.ofList (s.map Char.toLower)

namespace RunMode

def spellings : List (String × RunMode) :=
  [("development", .development), ("dev", .development), ("test", .test), ("testing", .test),
    ("production", .production), ("prod", .production)]

/-- Read a mode, whatever its case and the blanks around it. -/
def parse? (s : String) : Option RunMode := spellings.lookup (lowerAscii (Text.trim s.toList))

end RunMode

namespace Config

/-- A natural number below a bound, with an optional plus sign. -/
def parseWord? (s : List Char) : Option Nat :=
  let ds := match s with
    | '+' :: r => r
    | r => r
  if ds.isEmpty || !ds.all (fun c => '0' ≤ c && c ≤ '9') then none
  else
    let n := ds.foldl (fun acc c => acc * 10 + (c.toNat - '0'.toNat)) 0
    if n < Nat.pow 2 64 then some n else none

def switches : List (String × Bool) :=
  [("1", true), ("true", true), ("yes", true), ("on", true),
    ("0", false), ("false", false), ("no", false), ("off", false)]

/-- Read a switch, whatever its case. -/
def parseSwitch? (s : String) : Option Bool := switches.lookup (lowerAscii s.toList)

/-- The settings that the environment variables ask for; a value that cannot be read counts as
unset, and so does a timeout of zero. -/
def ofVariables (env : Dict String) : Config :=
  let mode := ((env.get? "ROWGATE_ENV").bind RunMode.parse?).getD .development
  let timeout := ((env.get? "ROWGATE_MUTATION_TIMEOUT_MS").bind fun s =>
    parseWord? (Text.trim s.toList)).filter (· > 0)
  let logging := (env.get? "ROWGATE_DEV_LOGGING").bind parseSwitch?
  let base := forMode mode
  ⟨mode, timeout.getD base.mutationTimeout, logging.getD base.developmentLogging⟩

end Config
end RowGuard
