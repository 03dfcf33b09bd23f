import RowGuard.Wire.Decode
import RowGuard.Connection
import RowGuard.PermissionState
import RowGuard.Query.Result
import RowGuard.Store.Tables
import RowGuard.Synced.Queries

/-! # Small choices on the wire

Statuses, states, events, writes and permission questions.
-/
namespace RowGuard

namespace Action

def encode (a : Action) : Json := .str a.name

def decode : Wire.Decoder Action := Wire.choice (all.map fun a => (a.name, a)) false

end Action

namespace ResultStatus

def names : List (String × ResultStatus) := [("unknown", .unknown), ("complete", .complete)]

def encode (s : ResultStatus) : Json := .str s.name

def decode : Wire.Decoder ResultStatus := Wire.choice names false

end ResultStatus

namespace RunOptions

/-- Run options as a value: the status that is waited for. -/
def encode (wanted : ResultStatus) : Json := .object [("type", wanted.encode)]

/-- The status that run options wait for; any, if they do not say. -/
def decode : Wire.Decoder ResultStatus := Wire.record "RunOptions" 1 fun p =>
  p.defaulted 0 "type" .unknown ResultStatus.decode

end RunOptions

namespace PermissionState

def encode (s : PermissionState) : Json := .str s.name

def decode : Wire.Decoder PermissionState :=
  Wire.choice [("loading", .loading), ("allowed", .allowed), ("denied", .denied)] false

end PermissionState

namespace ConnectionState

/-- The states of the connection without their reasons. -/
inductive Tag where
  | connecting
  | connected
  | disconnected
  | error
  | needsAuth

def tags : List (String × Tag) :=
  [("connecting", .connecting), ("connected", .connected), ("disconnected", .disconnected),
    ("error", .error), ("needs-auth", .needsAuth)]

def encode (s : ConnectionState) : Json :=
  match s with
  | error r => .object [("name", .str s.name), ("reason", .ofString? r)]
  | needsAuth r => .object [("name", .str s.name), ("reason", .ofString? r)]
  | _ => .object [("name", .str s.name)]

def decode : Wire.Decoder ConnectionState := fun v => do
  match ← Wire.tagged "ConnectionState" "name" tags false v with
  | (.connecting, source) => Wire.bareVariant source .connecting
  | (.connected, source) => Wire.bareVariant source .connected
  | (.disconnected, source) => Wire.bareVariant source .disconnected
  | (.error, source) => Wire.variant "ConnectionState::Error" 1 source fun p => do
    return .error (← p.nullable 0 "reason" Wire.string)
  | (.needsAuth, source) => Wire.variant "ConnectionState::NeedsAuth" 1 source fun p => do
    return .needsAuth (← p.nullable 0 "reason" Wire.string)

end ConnectionState

namespace SyncEvent

def encode : SyncEvent → Json
  | error m => .object [("type", .str "error"), ("message", .str m)]

def decode : Wire.Decoder SyncEvent := fun v => do
  let (_, source) ← Wire.tagged "SyncEvent" "type" [("error", ())] false v
  Wire.variant "SyncEvent::Error" 1 source fun p => do
    return .error (← p.required 0 "message" Wire.string)

end SyncEvent

namespace Subject

/-- The subject of a value; every value is one. -/
def decode : Wire.Decoder Subject := fun v => .ok (ofJson v)

end Subject

namespace PermissionCheck

def encode (c : PermissionCheck) : Json := .object
  ([("table", .str c.table)] ++ (c.subject.map fun s => ("objOrId", s.toJson)).toList)

/-- The permission question of a value; `null` is no subject. -/
def decode : Wire.Decoder PermissionCheck := Wire.record "PermissionCheckArgs" 2 fun p => do
  return ⟨← p.required 0 "table" Wire.string, ← p.optional 1 "objOrId" Subject.decode⟩

end PermissionCheck
end RowGuard
