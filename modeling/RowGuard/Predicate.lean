import RowGuard.Condition.Match
import RowGuard.Identity

/-! # Permission predicates

A predicate looks at a table name and an identity and answers with a blanket permission, with a
condition on the rows, or not at all.  Its answer may also depend on the actor, on whose behalf the
code runs that consults it.  A `Where` is a predicate with the table that it guards.  Every
consultation of a predicate is recorded, so that results come as a `Consulted` value.
-/
namespace RowGuard

/-- The answer of a predicate: a blanket permission, or a condition on the row. -/
inductive Permit where
  | blanket (allowed : Bool)
  | rows (condition : Condition)

/-- A predicate: its answer to an actor who asks about a table and an identity; `none` is no
answer. -/
abbrev Decide := Actor → String → Option Identity → Option Permit

/-- A predicate with the table that it guards. -/
structure Where where
  /-- The name under which consultations are recorded, if any. -/
  label : Option String
  decide : Decide
  table : Option String
  /-- Whether the predicate only means something on the server; on a client it always passes. -/
  serverOnly : Bool

namespace Where

def new (decide : Decide) : Where := ⟨none, decide, none, false⟩

def withTable (w : Where) (table : String) : Where := { w with table := some table }

def withLabel (w : Where) (label : String) : Where := { w with label := some label }

def onTable (table : String) (decide : Decide) : Where := (new decide).withTable table

/-- A predicate whose clauses only mean something on the server. -/
def onServer (table : String) (decide : Decide) : Where :=
  { onTable table decide with serverOnly := true }

def allowAll (table : String) : Where := onTable table fun _ _ _ => some (.blanket true)

def denyAll (table : String) : Where := onTable table fun _ _ _ => some (.blanket false)

end Where

/-- A result with the labels of the predicates that were consulted for it, in order. -/
structure Consulted (α : Type) where
  result : α
  labels : List (Option String)

namespace Consulted

def pure {α : Type} (a : α) : Consulted α := ⟨a, []⟩

def bind {α β : Type} (x : Consulted α) (f : α → Consulted β) : Consulted β :=
  let y := f x.result
  ⟨y.result, x.labels ++ y.labels⟩

instance : Monad Consulted where
  pure := pure
  bind := bind

@[simp] theorem result_pure {α : Type} (a : α) : (Pure.pure a : Consulted α).result = a := rfl

@[simp] theorem labels_pure {α : Type} (a : α) : (Pure.pure a : Consulted α).labels = [] := rfl

@[simp] theorem result_bind {α β : Type} (x : Consulted α) (f : α → Consulted β) :
    (x >>= f).result = (f x.result).result := rfl

@[simp] theorem labels_bind {α β : Type} (x : Consulted α) (f : α → Consulted β) :
    (x >>= f).labels = x.labels ++ (f x.result).labels := rfl

end Consulted

/-- A result or a failure, with the consultations that led to it. -/
abbrev Ruling (α : Type) := Consulted (Outcome α)

namespace Ruling

def andThen {α β : Type} (x : Ruling α) (f : α → Ruling β) : Ruling β :=
  match x.result with
  | .ok a => ⟨(f a).result, x.labels ++ (f a).labels⟩
  | .error e => ⟨.error e, x.labels⟩

def ofOutcome {α : Type} (x : Outcome α) : Ruling α := ⟨x, []⟩

def map {α β : Type} (f : α → β) (x : Ruling α) : Ruling β := ⟨x.result.map f, x.labels⟩

end Ruling

namespace Where

def consult (w : Where) (a : Actor) (table : String) (auth : Option Identity) :
    Consulted (Option Permit) :=
  ⟨w.decide a table auth, [w.label]⟩

def skippedIn (w : Where) (env : Environment) : Bool := w.serverOnly && env = .client

/-- The condition of an answer: a blanket one becomes a comparison of numbers. -/
def conditionOf : Permit → Condition
  | .blanket true => .compareLiterals (.ofNat 0) .eq (.ofNat 0)
  | .blanket false => .compareLiterals (.ofNat 1) .eq (.ofNat 0)
  | .rows c => c

/-- The predicate as a condition, if it has an answer; where it is skipped, the empty
conjunction. -/
def apply (w : Where) (a : Actor) (table : String) (auth : Option Identity) (env : Environment) :
    Consulted (Option Condition) :=
  if w.skippedIn env then ⟨some (.all []), []⟩
  else
    let x := w.consult a table auth
    ⟨x.result.map conditionOf, x.labels⟩

def applyFor (w : Where) (a : Actor) (table : String) : Consulted (Option Condition) :=
  w.apply a table a.identity a.environment

end Where
end RowGuard
