import RowGuard.Script.Predicate
import RowGuard.Script.Query
import RowGuard.Synced.Queries

/-! # Scripted query functions

A scripted query function fails, or filters a table by a predicate as whoever runs is permitted, or
builds a query from its arguments.
-/
namespace RowGuard.Script

/-- The failure of a query function whose predicate has no answer. -/
def undefinedAnswer : Failure := .mutation "undefined"

/-- The rows of a table that a predicate permits to whoever runs. -/
def permitted (schema : Schema) (a : Actor) (table : String) (w : Where) : Ruling Query :=
  match schema.query table with
  | .error e => .ofOutcome (.error e)
  | .ok q =>
    let x := w.applyFor a table
    ⟨match x.result with
      | some c => .ok (q.restrict c)
      | none => .error undefinedAnswer, x.labels⟩

def build (v : Json) (scope : Scope) (schema : Schema) (args : Json) : Ruling Query :=
  match v.field? "fail", v.field? "ambient" with
  | some m, _ => .ofOutcome (.error (.mutation (textOf m)))
  | none, some w =>
    match where? "ambient" w with
    | some w => permitted schema scope.actor (textOf (v.field "table")) w
    | none => .ofOutcome (.error undefinedAnswer)
  | none, none => .ofOutcome (query schema ⟨scope.identity, args, scope.actor⟩ (v.field "query"))

def function (place : Place) (v : Json) : QueryFunction :=
  ⟨place, (v.field? "debug").map textOf, build v⟩

/-- The functions of an object, each at a place of its own. -/
def functions (v : Json) : Dict QueryFunction :=
  match v with
  | .obj fields => .ofList (fields.zipIdx.map fun ((name, f), n) => (name, function ⟨n, n⟩ f))
  | _ => .empty

/-- Groups of functions: for each entry a namespace, a name and the name of a function. -/
def groups (fs : Dict QueryFunction) (v : Json) : Option GroupedQueries :=
  (v.toList?.getD []).foldlM (fun g e => do
    let f ← fs.get? (textOf (itemAt e 2))
    return GroupedQueries.add g (textOf (itemAt e 0)) (textOf (itemAt e 1)) f) Dict.empty

end RowGuard.Script
