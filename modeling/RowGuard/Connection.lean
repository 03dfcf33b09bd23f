/-! # The state of the connection

Only a change of the connection's state tells listeners something, and only a change to a state that
has gone wrong.  The channel keeps the last events up to its capacity; a listener that missed some
is told how many.
-/
namespace RowGuard

inductive ConnectionState where
  | connecting
  | connected
  | disconnected
  | error (reason : Option String)
  | needsAuth (reason : Option String)
deriving DecidableEq, Repr

namespace ConnectionState

def name : ConnectionState → String
  | connecting => "connecting"
  | connected => "connected"
  | disconnected => "disconnected"
  | error _ => "error"
  | needsAuth _ => "needs-auth"

/-- The message of a state that has gone wrong: its reason, or its name. -/
def complaint? : ConnectionState → Option String
  | error r => some (r.getD "error")
  | needsAuth r => some (r.getD "needs-auth")
  | _ => none

end ConnectionState

inductive SyncEvent where
  | error (message : String)
deriving DecidableEq, Repr

/-- The name of the last state, and the events that were sent. -/
structure ConnectionMonitor where
  last : String
  /-- The number of events that the channel keeps. -/
  capacity : Nat
  /-- The latest events, the oldest first, up to the capacity. -/
  kept : List SyncEvent
  sent : Nat

namespace ConnectionMonitor

/-- The least power of two that is at least a number. -/
def roundUp : Nat → Nat → Nat → Nat
  | 0, p, _ => p
  | fuel + 1, p, n => if p < n then roundUp fuel (2 * p) n else p

def new (capacity : Nat) : ConnectionMonitor :=
  ⟨ConnectionState.connecting.name, roundUp 64 1 (max capacity 1), [], 0⟩

/-- Send an event; the channel forgets the oldest one when it is full. -/
def send (m : ConnectionMonitor) (e : SyncEvent) : ConnectionMonitor :=
  let all := m.kept ++ [e]
  { m with kept := all.drop (all.length - m.capacity), sent := m.sent + 1 }

/-- Observe a state.  An event results when the state has changed to one that has gone wrong. -/
def observe (m : ConnectionMonitor) (s : ConnectionState) : ConnectionMonitor × Option SyncEvent :=
  if m.last = s.name then (m, none)
  else
    let m := { m with last := s.name }
    match s.complaint? with
    | some text => (m.send (.error text), some (.error text))
    | none => (m, none)

/-- What a listener receives that has seen the first `seen` events: the number of events it missed,
and the events still kept. -/
def receive (m : ConnectionMonitor) (seen : Nat) : Nat × List SyncEvent :=
  let pending := m.sent - seen
  (pending - m.kept.length, m.kept.drop (m.kept.length - pending))

end ConnectionMonitor
end RowGuard
