import RowGuard.Predicate
import RowGuard.Query.Basic

/-! # Query functions and their names

A query function is told from others by where it lives, not by what it does, and its clones live at
the same place.  The name registry remembers for every address which allocation was named there, so
that a function that is given the address of a dropped one is not taken for it.
-/
namespace RowGuard

/-- Where a function lives: its address, and the number of the allocation that put it there. -/
structure Place where
  address : Nat
  allocation : Nat
deriving DecidableEq, Repr

/-- A query function; its arguments are one value. -/
structure QueryFunction where
  place : Place
  debugName : Option String
  build : Scope → Schema → Json → Ruling Query

namespace QueryFunction

def shownName (f : QueryFunction) : String := f.debugName.getD "anonymous"

end QueryFunction

/-- The name that was given to an allocation. -/
structure NameEntry where
  allocation : Nat
  name : String
deriving Repr

/-- Names of query functions by address. -/
structure NameRegistry where
  entries : List (Nat × NameEntry)

namespace NameRegistry

def empty : NameRegistry := ⟨[]⟩

def entry? (r : NameRegistry) (address : Nat) : Option NameEntry := r.entries.lookup address

/-- Name a function; the entries of functions that are no longer live are dropped. -/
def register (r : NameRegistry) (live : Nat → Bool) (f : Place) (name : String) : NameRegistry :=
  ⟨(f.address, ⟨f.allocation, name⟩) ::
    r.entries.filter fun e => live e.2.allocation && e.1 != f.address⟩

/-- The name of a function; an entry of a function that is no longer live names nothing. -/
def lookup (r : NameRegistry) (live : Nat → Bool) (f : Place) : Option String :=
  match r.entry? f.address with
  | some e => if live e.allocation then some e.name else none
  | none => none

/-- The number of live functions that have a name. -/
def size (r : NameRegistry) (live : Nat → Bool) : Nat :=
  (r.entries.filter fun e => live e.2.allocation).length

def isEmpty (r : NameRegistry) (live : Nat → Bool) : Bool := r.size live == 0

end NameRegistry
end RowGuard
