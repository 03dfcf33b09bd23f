import RowGuard.Wire.Failure
import RowGuard.Push.Basic

/-! # Pushes and query requests on the wire -/
namespace RowGuard

namespace PushMutation

def encode (m : PushMutation) : Json := .object
  [("id", .ofNat m.id), ("clientID", .str m.clientId), ("name", .str m.name), ("args", m.args)]

/-- The queued mutation of a value; missing arguments are `null`. -/
def decode : Wire.Decoder PushMutation := Wire.record "PushMutation" 4 fun p => do
  return ⟨← p.required 0 "id" (Wire.natural "u64"), ← p.required 1 "clientID" Wire.string,
    ← p.required 2 "name" Wire.string, ← p.defaulted 3 "args" .null Wire.value⟩

end PushMutation

namespace PushRequest

def encode (r : PushRequest) : Json := .object
  [("clientGroupID", .str r.clientGroupId), ("mutations", .arr (r.mutations.map PushMutation.encode))]

def decode : Wire.Decoder PushRequest := Wire.record "PushRequest" 2 fun p => do
  return ⟨← p.required 0 "clientGroupID" Wire.string,
    ← p.required 1 "mutations" (Wire.list PushMutation.decode)⟩

end PushRequest

namespace MutationOutcome

def encode : MutationOutcome → Json
  | ok => .object [("status", .str "ok")]
  | error e => .object [("status", .str "error"), ("error", e.encode)]

def decode : Wire.Decoder MutationOutcome := fun v => do
  match ← Wire.tagged "MutationOutcome" "status" [("ok", true), ("error", false)] false v with
  | (true, source) => Wire.bareVariant source .ok
  | (false, source) => Wire.variant "MutationOutcome::Error" 1 source fun p => do
    return .error (← p.required 0 "error" (Failure.decode true))

end MutationOutcome

namespace MutationResult

def encode (r : MutationResult) : Json := .object
  [("id", .ofNat r.id), ("clientID", .str r.clientId), ("result", r.outcome.encode)]

def decode : Wire.Decoder MutationResult := Wire.record "MutationResult" 3 fun p => do
  return ⟨← p.required 0 "id" (Wire.natural "u64"), ← p.required 1 "clientID" Wire.string,
    ← p.required 2 "result" MutationOutcome.decode⟩

end MutationResult

namespace PushResponse

def encode (r : PushResponse) : Json := .object
  [("mutations", .arr (r.results.map MutationResult.encode))]

def decode : Wire.Decoder PushResponse := Wire.record "PushResponse" 1 fun p => do
  return ⟨← p.required 0 "mutations" (Wire.list MutationResult.decode)⟩

end PushResponse

namespace QueryRequest

def encode (r : QueryRequest) : Json := .object [("name", .str r.name), ("args", r.args)]

/-- The query request of a value; missing arguments are `null`. -/
def decode : Wire.Decoder QueryRequest := Wire.record "QueryRequest" 2 fun p => do
  return ⟨← p.required 0 "name" Wire.string, ← p.defaulted 1 "args" .null Wire.value⟩

end QueryRequest

namespace QueryResponse

def encode (r : QueryResponse) : Json := .object
  [("name", .str r.name), ("rows", .arr (r.rows.map .ofRow))]

def decode : Wire.Decoder QueryResponse := Wire.record "QueryResponse" 2 fun p => do
  return ⟨← p.required 0 "name" Wire.string, ← p.required 1 "rows" (Wire.list Wire.row)⟩

end QueryResponse
end RowGuard
