import RowGuard.Program.Request

/-! # Programs

A program is a tree of requests: what it does next depends on the replies so far.  Besides requests
it can sleep, wait forever, begin a transaction, call a mutator and wait for it, and step aside for
one turn.
-/
namespace RowGuard

inductive Program (α : Type) where
  | done (a : α)
  | ask (r : Request) (next : r.Reply → Program α)
  | sleep (ms : Nat) (next : Program α)
  | hang
  | begin (database : Nat) (next : Outcome TxRef → Program α)
  | call (c : Call) (next : Outcome Unit → Program α)
  | stepAside (next : Program α)

namespace Program
variable {α β : Type}

def bind : Program α → (α → Program β) → Program β
  | done a, f => f a
  | ask r next, f => ask r fun x => (next x).bind f
  | sleep ms next, f => sleep ms (next.bind f)
  | hang, _ => hang
  | begin d next, f => begin d fun x => (next x).bind f
  | call c next, f => call c fun x => (next x).bind f
  | stepAside next, f => stepAside (next.bind f)

instance : Monad Program where
  pure := done
  bind := bind

theorem bind_done (p : Program α) : p.bind done = p := by
  induction p with
  | done a => rfl
  | ask r next ih => exact congrArg (ask r) (funext ih)
  | sleep ms next ih => exact congrArg (sleep ms) ih
  | hang => rfl
  | begin d next ih => exact congrArg (begin d) (funext ih)
  | call c next ih => exact congrArg (call c) (funext ih)
  | stepAside next ih => exact congrArg stepAside ih

theorem bind_assoc {γ : Type} (p : Program α) (f : α → Program β) (g : β → Program γ) :
    (p.bind f).bind g = p.bind fun a => (f a).bind g := by
  induction p with
  | done a => rfl
  | ask r next ih => exact congrArg (ask r) (funext ih)
  | sleep ms next ih => exact congrArg (sleep ms) ih
  | hang => rfl
  | begin d next ih => exact congrArg (begin d) (funext ih)
  | call c next ih => exact congrArg (call c) (funext ih)
  | stepAside next ih => exact congrArg stepAside ih

def request (r : Request) : Program r.Reply := ask r done

def note (entries : List Entry) : Program Unit := request (.note entries)

/-- Write the consultations behind a ruling into the journal. -/
def rule (x : Ruling α) : Program (Outcome α) :=
  match x.labels.filterMap id with
  | [] => done x.result
  | labels => (note (labels.map .consulted)).bind fun _ => done x.result

def andThen (p : Program (Outcome α)) (f : α → Program (Outcome β)) : Program (Outcome β) :=
  p.bind fun
    | .ok a => f a
    | .error e => done (.error e)

def mapOk (f : α → β) (p : Program (Outcome α)) : Program (Outcome β) :=
  p.bind fun x => done (x.map f)

def ofOutcome (x : Outcome α) : Program (Outcome α) := done x

def fail (e : Failure) : Program (Outcome α) := done (.error e)

/-- The rows that a query selects in committed state.  A database without snapshots is read through
a transaction of its own. -/
def read (database : Nat) (q : Query) : Program (Outcome (List Row)) :=
  (request (.snapshot database q)).bind fun
    | some rows => done rows
    | none => (begin database done).andThen fun tx =>
      (request (.run tx q)).bind fun
        | .ok rows => mapOk (fun _ => rows) (request (.commit tx))
        | .error e => andThen (request (.rollback tx)) fun _ => fail e

/-- The rows that a query selects, in the transaction of the mutation around the code if there is
one. -/
def readIn (a : Ambient) (database : Nat) (q : Query) : Program (Outcome (List Row)) :=
  match a.tx with
  | some tx => request (.run tx q)
  | none => read database q

def perform (inMutation : Bool) (work : List Deferred) : Program Unit :=
  note (work.map fun d => .performed d.name inMutation)

end Program
end RowGuard
