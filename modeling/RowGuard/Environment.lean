/-! # Environment

Where code runs: on a client, optimistically, or on the server, which has the last word.
-/
namespace RowGuard

/-- Where code runs. -/
inductive Environment where
  | client
  | server
deriving DecidableEq, Repr

def Environment.name : Environment → String
  | client => "client"
  | server => "server"

end RowGuard
