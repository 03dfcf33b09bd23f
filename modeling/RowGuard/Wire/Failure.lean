import RowGuard.Wire.Decode
import RowGuard.Failure

/-! # Failures on the wire

A failure is an object tagged by `type`, with the parts of its cause beside the tag.
-/
namespace RowGuard.Failure

/-- The causes of failure. -/
inductive Tag where
  | configuration
  | denied
  | checkFailed
  | timeout
  | notInMutator
  | notLoggedIn
  | store
  | invalid
  | mutation
deriving DecidableEq

def tags : List (String × Tag) :=
  [("configuration", .configuration), ("authorization_denied", .denied),
    ("authorization_check_failed", .checkFailed), ("mutation_timeout", .timeout),
    ("not_in_mutator", .notInMutator), ("not_logged_in", .notLoggedIn), ("store", .store),
    ("invalid_argument", .invalid), ("mutation", .mutation)]

def tag : Failure → String
  | configuration _ => "configuration"
  | denied .. => "authorization_denied"
  | checkFailed .. => "authorization_check_failed"
  | timeout .. => "mutation_timeout"
  | notInMutator => "not_in_mutator"
  | notLoggedIn => "not_logged_in"
  | store .. => "store"
  | invalid _ => "invalid_argument"
  | mutation _ => "mutation"

/-- The parts of a failure beside its tag. -/
def parts : Failure → List (String × Json)
  | configuration m => [("message", .str m)]
  | denied s q => [("subject", .str s), ("query", .ofString? q)]
  | checkFailed s m => [("subject", .str s), ("message", .str m)]
  | timeout n t => [("name", .str n), ("timeout_ms", .ofNat t)]
  | notInMutator => []
  | notLoggedIn => []
  | store c m => [("code", .str c), ("message", .str m)]
  | invalid m => [("message", .str m)]
  | mutation m => [("message", .str m)]

def encode (e : Failure) : Json := .object (("type", .str e.tag) :: e.parts)

/-- A failure as callers see it: its cause, code, status and wording. -/
def shown (e : Failure) : Json := .object
  [("error", .str e.tag), ("code", .str e.code), ("status", .ofNat e.status),
    ("message", .str e.message)]

/-- A check that only looks whether a value decodes. -/
def decodes {α : Type} (decode : Wire.Decoder α) (v : Json) : Except String Unit :=
  (decode v).map fun _ => ()

/-- A cause that carries a message. -/
def ofMessage (name : String) (build : String → Failure) (source : List (String × Json) ⊕ List Json) :
    Except String Failure :=
  Wire.variant name 1 source fun p => do
    return build (← p.required 0 "message" Wire.string)

/-- A cause that carries two strings. -/
def ofStrings (name first second : String) (build : String → String → Failure)
    (source : List (String × Json) ⊕ List Json) : Except String Failure :=
  Wire.variant name 2 source fun p => do
    p.screen [(first, decodes Wire.string), (second, decodes Wire.string)]
    return build (← p.required 0 first Wire.string) (← p.required 1 second Wire.string)

def decode (buffered : Bool) : Wire.Decoder Failure := fun v => do
  let (tag, source) ← Wire.tagged "GateError" "type" tags buffered v
  match tag with
  | .configuration => ofMessage "GateError::Configuration" .configuration source
  | .denied => Wire.variant "GateError::AuthorizationDenied" 2 source fun p => do
    p.screen [("query", decodes (Wire.option Wire.string)), ("subject", decodes Wire.string)]
    return .denied (← p.required 0 "subject" Wire.string) (← p.nullable 1 "query" Wire.string)
  | .checkFailed =>
    ofStrings "GateError::AuthorizationCheckFailed" "subject" "message" .checkFailed source
  | .timeout => Wire.variant "GateError::MutationTimeout" 2 source fun p => do
    p.screen [("name", decodes Wire.string), ("timeout_ms", decodes (Wire.natural "u64"))]
    return .timeout (← p.required 0 "name" Wire.string)
      (← p.required 1 "timeout_ms" (Wire.natural "u64"))
  | .notInMutator => Wire.bareVariant source .notInMutator
  | .notLoggedIn => Wire.bareVariant source .notLoggedIn
  | .store => ofStrings "GateError::Store" "code" "message" .store source
  | .invalid => ofMessage "GateError::InvalidArgument" .invalid source
  | .mutation => ofMessage "GateError::Mutation" .mutation source

end RowGuard.Failure

namespace RowGuard.Wire

/-- An outcome as callers see it. -/
def outcome {α : Type} (encode : α → Json) : Outcome α → Json
  | .ok a => .object [("ok", encode a)]
  | .error e => e.shown

def unitOutcome : Outcome Unit → Json := outcome fun _ => .null

def rows (rs : List Row) : Json := .arr (rs.map .ofRow)

end RowGuard.Wire
