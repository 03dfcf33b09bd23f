import RowGuard.Script.Query
import RowGuard.Store.Basic
import RowGuard.Wire.Failure

/-! # Scripted store calls

A scripted call names the transaction that it works in.  A name is free for another transaction once
its own is settled.
-/
namespace RowGuard.Script

/-- A store with names for its transactions. -/
structure Desk where
  store : Store
  handles : Dict Nat

namespace Desk

def new (store : Store) : Desk := ⟨store, .empty⟩

/-- The answer to a call, with the store as it is left. -/
def reply {α : Type} (d : Desk) (encode : α → Json) (r : Outcome α × Store) : Json × Desk :=
  (Wire.outcome encode r.1, { d with store := r.2 })

def unit (d : Desk) (r : Outcome Unit × Store) : Json × Desk := d.reply (fun _ => .null) r

def rows (d : Desk) (r : Outcome (List Row)) : Json × Desk := d.reply Wire.rows (r, d.store)

/-- Begin a transaction under a name; the transaction that had the name is dropped. -/
def begin (d : Desk) (name : String) : Json × Desk :=
  match d.store.begin? with
  | none => (.str "blocked", d)
  | some (handle, store) =>
    let store := match d.handles.get? name with
      | some old => store.drop old
      | none => store
    (Wire.unitOutcome (.ok ()), ⟨store, d.handles.insert name handle⟩)

def withHandle (d : Desk) (name : String) (f : Nat → Json × Desk) : Json × Desk :=
  match d.handles.get? name with
  | some handle => f handle
  | none => (.str "no such transaction", d)

/-- The row of a value; a value that is no object counts as a row without columns. -/
def rowOf (v : Json) : Row := v.toRow?.getD .empty

def rowsOf (v : Json) : List Row := (v.toList?.getD []).map rowOf

/-- The name of the transaction of a call. -/
def nameOf (v : Json) : String := (v.field "tx").toString?.getD "t"

/-- Answer a scripted call; `none` if there is no such call. -/
def call (d : Desk) (now : Nat) (st : Json) : Option (Json × Desk) :=
  let table := textOf (st.field "table")
  let q := query d.store.schema .empty (st.field "query")
  match st.field "do" with
  | .str "seed" => some (d.unit (d.store.seed now table (rowsOf (st.field "rows"))))
  | .str "rows" => some (d.rows (.ok (d.store.rows table)))
  | .str "execute" => some (d.rows (q.bind d.store.execute))
  | .str "read" => some (d.rows (q.bind d.store.execute))
  | .str "begin" => some (d.begin (nameOf st))
  | .str "mutate" =>
    (Action.ofName? (textOf (st.field "action"))).map fun action =>
      d.withHandle (nameOf st) fun h =>
        d.unit (d.store.mutate now h table action (rowOf (st.field "row")))
  | .str "run" => some (d.withHandle (nameOf st) fun h => d.rows (q.bind (d.store.run h)))
  | .str "commit" => some (d.withHandle (nameOf st) fun h => d.unit (d.store.commit h))
  | .str "rollback" => some (d.withHandle (nameOf st) fun h => d.unit (d.store.rollback h))
  | .str "drop" => some (d.withHandle (nameOf st) fun h =>
      (Wire.unitOutcome (.ok ()), ⟨d.store.drop h, d.handles.erase (nameOf st)⟩))
  | _ => none

end Desk
end RowGuard.Script
