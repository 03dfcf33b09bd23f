import RowGuard.Json.Basic
import RowGuard.Environment
import RowGuard.Failure

/-! # Identities and scopes

An identity is set once per request and never changed.  Code runs in a scope, which tells the
identity and the environment of the mutation or the request around it; an active mutation wins over
the request.
-/
namespace RowGuard

/-- Who a request or mutation runs for. -/
structure Identity where
  id : String
  role : Option String
  email : Option String
  /-- Claims of the application, readable from predicates. -/
  claims : Dict Json

namespace Identity

/-- The role that bypasses predicates. -/
def adminRole : String := "admin"

def ofId (id : String) : Identity := ⟨id, none, none, .empty⟩

def withRole (a : Identity) (role : String) : Identity := { a with role := some role }

def withEmail (a : Identity) (email : String) : Identity := { a with email := some email }

def withClaim (a : Identity) (name : String) (v : Json) : Identity :=
  { a with claims := a.claims.insert name v }

def adminEmail : String := "admin@localhost"

/-- The identity for trusted code on the server. -/
def admin : Identity := ((ofId "").withRole adminRole).withEmail adminEmail

/-- Equality of texts that ignores the case of ASCII letters only. -/
def sameAscii (s t : String) : Bool :=
  s.toList.map Char.toLower == t.toList.map Char.toLower

/-- Whether the role is the one that bypasses predicates, in any case of its letters. -/
def isAdmin (a : Identity) : Bool :=
  match a.role with
  | some r => sameAscii r adminRole
  | none => false

def claim? (a : Identity) (name : String) : Option Json := a.claims.get? name

theorem isAdmin_ofId (id : String) : (ofId id).isAdmin = false := rfl

theorem isAdmin_admin : admin.isAdmin = true := by decide

end Identity

/-- The request that code runs for, outside mutations. -/
structure RequestScope where
  identity : Option Identity
  environment : Environment
  /-- Whether the request carries an id of its own. -/
  hasId : Bool

namespace RequestScope

def server (identity : Option Identity) : RequestScope := ⟨identity, .server, true⟩

def client (identity : Option Identity) : RequestScope := ⟨identity, .client, false⟩

/-- The scope of a request about which nothing is known. -/
def unknown : RequestScope := ⟨none, .server, false⟩

end RequestScope

/-- Who code runs for, and in which environment. -/
structure Actor where
  identity : Option Identity
  environment : Environment

/-- What surrounds running code. -/
structure Scope where
  mutation : Option Actor
  request : Option RequestScope

namespace Scope

/-- No mutation and no request. -/
def outside : Scope := ⟨none, none⟩

def inMutation (s : Scope) : Bool := s.mutation.isSome

def requestIdentity (s : Scope) : Option Identity := s.request.bind (·.identity)

/-- The identity of whoever runs: that of the active mutation, else that of the request. -/
def identity (s : Scope) : Option Identity :=
  match s.mutation with
  | some m => m.identity
  | none => s.requestIdentity

/-- The environment of the active mutation, else of the request; outside both it is the server, so
that server-only predicates stay enforced. -/
def environment (s : Scope) : Environment :=
  match s.mutation, s.request with
  | some m, _ => m.environment
  | none, some r => r.environment
  | none, none => .server

def actor (s : Scope) : Actor := ⟨s.identity, s.environment⟩

/-- The identity of the active mutation; there must be one. -/
def requireLogin (s : Scope) : Outcome Identity :=
  match s.mutation with
  | none => .error .notInMutator
  | some m =>
    match m.identity with
    | some a => .ok a
    | none => .error .notLoggedIn

end Scope
end RowGuard
