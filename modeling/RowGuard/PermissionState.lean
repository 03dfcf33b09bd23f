/-! # The permission that a client shows -/
namespace RowGuard

/-- The permission that a client shows before the server has spoken. -/
inductive PermissionState where
  /-- Only local data was seen, and it does not allow. -/
  | loading
  | allowed
  | denied
deriving DecidableEq, Repr

namespace PermissionState

def name : PermissionState → String
  | loading => "loading"
  | allowed => "allowed"
  | denied => "denied"

def isAllowed (s : PermissionState) : Bool := s = .allowed

end PermissionState
end RowGuard
