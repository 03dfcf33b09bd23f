import RowGuard.Gate

/-! # Invocations of mutations

Every call of a mutation has a transaction, an identity and an environment of its own, and keeps a
record of the subjects that the gate has passed in it.
-/
namespace RowGuard

/-- A transaction: a handle of one of the databases. -/
structure TxRef where
  database : Nat
  handle : Nat
deriving DecidableEq, Repr

/-- What only an invocation on the server has. -/
structure ServerPart where
  /-- The actions that were made for the caller, if the server makes any. -/
  actions : Option String
  /-- The bag that collects work to be done after the commit. -/
  bag : Nat

structure Invocation where
  tx : TxRef
  identity : Option Identity
  environment : Environment
  gate : Gate
  server : Option ServerPart

/-- Code with its scope and the transaction of the mutation around it. -/
structure Ambient where
  scope : Scope
  tx : Option TxRef

def Ambient.none : Ambient := ⟨.outside, .none⟩

namespace Invocation

def actor (i : Invocation) : Actor := ⟨i.identity, i.environment⟩

def ambient (i : Invocation) : Ambient := ⟨⟨some i.actor, none⟩, some i.tx⟩

end Invocation

/-- The texts of the subjects that the gate has passed in an invocation. -/
abbrev Checked := List String

namespace Checked

def any (c : Checked) : Bool := !c.isEmpty

/-- Whether a check has passed for a subject of a table, judged by the beginning of the recorded
text. -/
def on (c : Checked) (table : String) : Bool :=
  List.any c fun key => (table ++ ":").toList.isPrefixOf key.toList

def passed (c : Checked) (g : Gate) (table : String) (s : Subject) : Outcome Bool :=
  (g.subjectKey table s).map fun key => c.contains key

/-- Whether a subject needs no further check.  A subject without a full primary key counts as
checked once any subject of its table has passed. -/
def covers (c : Checked) (g : Gate) (table : String) (s : Subject) : Bool :=
  match c.passed g table s with
  | .ok b => b
  | .error _ => c.on table

def mark (c : Checked) (key : String) : Checked := if c.contains key then c else key :: c

end Checked
end RowGuard
