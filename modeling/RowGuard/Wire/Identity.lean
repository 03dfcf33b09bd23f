import RowGuard.Wire.Decode
import RowGuard.Identity

/-! # Identities on the wire

The claims of an identity stand beside its id, role and email; of two fields with one name the claim
is written last and stays.
-/
namespace RowGuard

namespace Environment

def encode (e : Environment) : Json := .str e.name

def decode : Wire.Decoder Environment :=
  Wire.choice [("client", .client), ("server", .server)] false

end Environment

namespace Identity

/-- The names that are not claims. -/
def ownNames : List String := ["id", "role", "email"]

def encode (a : Identity) : Json :=
  .object ([("id", .str a.id)]
    ++ (a.role.map fun r => ("role", Json.str r)).toList
    ++ (a.email.map fun e => ("email", Json.str e)).toList
    ++ a.claims.entries)

def decode : Wire.Decoder Identity
  | .obj fields => do
    let p : Wire.Parts := ⟨.inl fields, "struct Identity", 3⟩
    return ⟨← p.required 0 "id" Wire.string, ← p.optional 1 "role" Wire.string,
      ← p.optional 2 "email" Wire.string,
      Dict.ofList (fields.filter fun f => !ownNames.contains f.1)⟩
  | v => .error (Wire.wrongKind v "struct Identity")

end Identity
end RowGuard
