import RowGuard.Proofs.Schedule.Interleaving
import RowGuard.Proofs.Store.History

/-! # The writes of an interleaving

A run leaves a log: the calls of the main programs, with the transactions in which they were made, and
the rows that were written, each with the transaction and the time.  A write that was refused is not
in it.  Whose writes they were can be read off the log.
-/
namespace RowGuard

/-- What a step adds to the log. -/
inductive Mark where
  /-- The main program of this number has called a mutator in a transaction. -/
  | called (i : Nat) (tx : TxRef)
  | wrote (tx : TxRef) (w : Write)

def Request.writes (site : Site) (post : Post) : Request → List Mark
  | .mutate tx table a row =>
    match (site.answer post (.mutate tx table a row)).1 with
    | .ok () => [.wrote tx ⟨site.clock, table, a, row⟩]
    | .error _ => []
  | _ => []

/-- What the next move of a strand writes at a site. -/
def Strand.writes {α : Type} (site : Site) (k : Strand α) : List Mark :=
  match k.standing with
  | .running (.ask r _) => r.writes site k.post
  | _ => []

/-- The call that the next move of a main program makes. -/
def Strand.calls {α : Type} (i : Nat) (k : Strand α) : List Mark :=
  match k.standing with
  | .running (.call c _) => [.called i c.invocation.tx]
  | _ => []

/-- A run with its log. -/
abbrev Scene.Logged {α : Type} (app : Application) : Scene α → List Mark → Scene α → Prop :=
  Scene.Recorded app (fun i site k => k.calls i ++ k.writes site) fun site k => k.writes site

/-- The transactions in which a main program has called, in order. -/
def callsOf (i : Nat) (es : List Mark) : List TxRef :=
  es.filterMap fun
    | .called j tx => if j = i then some tx else none
    | .wrote .. => none

/-- The writes through a transaction, in order. -/
def writesThrough (tx : TxRef) (es : List Mark) : List Write :=
  es.filterMap fun
    | .called .. => none
    | .wrote t w => if t = tx then some w else none

/-- The writes through the transaction of a call, which is given by its main program and by the
number of the calls before it there. -/
def writesAt (es : List Mark) (a : Nat × Nat) : List Write :=
  ((callsOf a.1 es)[a.2]?.map (writesThrough · es)).getD []

section Readers
variable (i : Nat) (tx : TxRef)

@[simp] theorem callsOf_nil : callsOf i [] = [] := rfl

@[simp] theorem writesThrough_nil : writesThrough tx [] = [] := rfl

@[simp] theorem callsOf_append (es ds : List Mark) :
    callsOf i (es ++ ds) = callsOf i es ++ callsOf i ds := List.filterMap_append

@[simp] theorem writesThrough_append (es ds : List Mark) :
    writesThrough tx (es ++ ds) = writesThrough tx es ++ writesThrough tx ds :=
  List.filterMap_append

@[simp] theorem callsOf_called (j : Nat) :
    callsOf i [.called j tx] = if j = i then [tx] else [] := by
  by_cases h : j = i <;> simp [callsOf, h]

variable {i tx} {es ds : List Mark}

theorem writesAt_of_calls {k : Nat} (h : (callsOf i es)[k]? = some tx) :
    writesAt es (i, k) = writesThrough tx es := by simp [writesAt, h]

/-- Later marks leave the writes of a call alone that are not through its transaction. -/
theorem writesAt_append {k : Nat} (h : (callsOf i es)[k]? = some tx)
    (hd : writesThrough tx ds = []) : writesAt (es ++ ds) (i, k) = writesAt es (i, k) := by
  have hlt := (List.getElem?_eq_some_iff.1 h).1
  have h' : (callsOf i (es ++ ds))[k]? = some tx := by
    rw [callsOf_append, List.getElem?_append_left hlt, h]
  rw [writesAt_of_calls h, writesAt_of_calls h', writesThrough_append, hd, List.append_nil]

end Readers

/-- What a move does in a transaction: nothing, or a write, given with the tables that it leaves. -/
inductive Amendment where
  | nothing
  | wrote (w : Write) (W : Tables)

namespace Amendment

def writes : Amendment → List Write
  | nothing => []
  | wrote w _ => [w]

/-- The marks of a change in a transaction. -/
def marks (tx : TxRef) (x : Amendment) : List Mark := x.writes.map (.wrote tx)

variable (x : Amendment) (tx : TxRef)

@[simp] theorem callsOf_marks (i : Nat) : callsOf i (x.marks tx) = [] := by
  cases x <;> rfl

@[simp] theorem writesThrough_marks : writesThrough tx (x.marks tx) = x.writes := by
  cases x <;> simp [marks, writes, writesThrough]

theorem writesThrough_marks_of_ne {t : TxRef} (h : tx ≠ t) : writesThrough t (x.marks tx) = [] := by
  cases x <;> simp [marks, writes, writesThrough, h]

end Amendment
end RowGuard
