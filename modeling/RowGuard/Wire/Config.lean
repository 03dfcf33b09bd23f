import RowGuard.Wire.Decode
import RowGuard.Config

/-! # Settings on the wire -/
namespace RowGuard

namespace RunMode

def name : RunMode → String
  | development => "development"
  | test => "test"
  | production => "production"

def decode : Wire.Decoder RunMode :=
  Wire.choice [("development", .development), ("test", .test), ("production", .production)] false

end RunMode

namespace Config

def encode (c : Config) : Json := .object
  [("mode", .str c.mode.name), ("mutation_timeout_ms", .ofNat c.mutationTimeout),
    ("development_logging", .bool c.developmentLogging)]

/-- The settings of a value; only the mode must be there. -/
def decode : Wire.Decoder Config := Wire.record "Config" 3 fun p => do
  return ⟨← p.required 0 "mode" RunMode.decode,
    ← p.defaulted 1 "mutation_timeout_ms" defaultTimeout (Wire.natural "u64"),
    ← p.defaulted 2 "development_logging" false Wire.bool⟩

end Config
end RowGuard
