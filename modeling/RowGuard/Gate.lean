import RowGuard.Predicate
import RowGuard.Query.Rendering
import RowGuard.Query.Execution

/-! # The gate

The gate compiles a predicate and a subject into a condition, and decides whether a mutation may act
on a subject by running a query for one row inside the transaction.  A condition is joined with
equality on every column of the primary key; a blanket answer becomes a comparison of booleans
without a key.  On a client the gate always opens, because the server decides again; an admin always
passes.
-/
namespace RowGuard

/-- What a permission is asked for: a key value, or a row that may be partial. -/
inductive Subject where
  | row (r : Row)
  | id (v : Json)

namespace Subject

/-- An object is a row, any other value an id. -/
def ofJson : Json → Subject
  | .obj fields => .row (Dict.ofList fields)
  | v => .id v

def toJson : Subject → Json
  | row r => .ofRow r
  | id v => v

/-- The value of a key column; an id stands for every column. -/
def keyValue (t : Table) (s : Subject) (column : String) : Outcome (String × Json) :=
  match s with
  | id v => .ok (column, v)
  | row r =>
    match r.get? column with
    | some v => .ok (column, v)
    | none => .error (.configuration
        ("subject for " ++ t.name ++ " is missing primary key column " ++ column))

def keyValues (t : Table) (s : Subject) : Outcome (List (String × Json)) :=
  t.primaryKey.mapM (s.keyValue t)

end Subject

structure Gate where
  environment : Environment
  schema : Schema
  /-- Whether a denial carries the query that was run. -/
  diagnostics : Bool

namespace Gate

/-- The table that a predicate is compiled for: the given one, else the one that it guards. -/
def resolve (g : Gate) (w : Where) (override : Option String) : Outcome (String × Table) :=
  match override <|> w.table with
  | none => .error (.configuration "Must use a table-bound Where for build_permission_query")
  | some name =>
    match g.schema.table? name with
    | some t => .ok (name, t)
    | none => .error (.configuration ("No schema for table " ++ name))

/-- The answer of a predicate, or the empty conjunction where it is skipped. -/
def answer (a : Actor) (env : Environment) (auth : Option Identity) (builder : String) (w : Where) :
    Consulted (Option Permit) :=
  if w.skippedIn env then ⟨some (.rows (.all [])), []⟩ else w.consult a builder auth

/-- The condition of an answer for a subject: a condition is joined with the key of the subject. -/
def conditionFor (name : String) (t : Table) (s : Subject) : Option Permit → Outcome Condition
  | none => .error (.configuration ("No permission defined for " ++ name))
  | some (.blanket b) => .ok (.compareLiterals (.bool true) .eq (.bool b))
  | some (.rows c) =>
    (s.keyValues t).map fun key => .all (c :: key.map fun kv => .columnIs kv.1 kv.2)

/-- Compile a predicate for a subject, as the given environment sees it. -/
def compileIn (g : Gate) (a : Actor) (env : Environment) (auth : Option Identity) (builder : String)
    (w : Where) (s : Subject) (override : Option String) : Ruling Condition :=
  match g.resolve w override with
  | .error e => .ofOutcome (.error e)
  | .ok (name, t) =>
    let x := answer a env auth builder w
    ⟨conditionFor name t s x.result, x.labels⟩

def compile (g : Gate) (a : Actor) (auth : Option Identity) (builder : String) (w : Where)
    (s : Subject) (override : Option String) : Ruling Condition :=
  g.compileIn a g.environment auth builder w s override

/-- The query that finds a row exactly when the subject is permitted, in the given environment. -/
def existenceIn (g : Gate) (a : Actor) (env : Environment) (auth : Option Identity) (w : Where)
    (s : Subject) (override : Option String) : Ruling Query :=
  match g.resolve w override with
  | .error e => .ofOutcome (.error e)
  | .ok (name, _) =>
    match g.schema.query name with
    | .error e => .ofOutcome (.error e)
    | .ok q => (g.compileIn a env auth name w s override).map fun c => (q.restrict c).one

def existence (g : Gate) (a : Actor) (auth : Option Identity) (w : Where) (s : Subject)
    (override : Option String) : Ruling Query :=
  g.existenceIn a g.environment auth w s override

/-- The text that stands for a subject among the subjects already checked. -/
def subjectKey (g : Gate) (table : String) (s : Subject) : Outcome String := do
  let t ← g.schema.require table
  let key ← s.keyValues t
  return table ++ ":" ++ (Json.arr (key.map Prod.snd)).compact

/-- Whether the identity is one that every predicate admits. -/
def bypasses (auth : Option Identity) : Bool :=
  match auth with
  | some a => a.isAdmin
  | none => false

/-- How a denial or a failed check names its subject. -/
def title (table : String) (auth : Option Identity) : String :=
  table ++ " with auth id: " ++ ((auth.map (·.id)).getD "none")

/-- The verdict on the rows that the existence query found. -/
def verdict (g : Gate) (table : String) (auth : Option Identity) (q : Query) :
    Outcome (List Row) → Outcome Unit
  | .ok (_ :: _) => .ok ()
  | .ok [] => .error (.denied (title table auth) (if g.diagnostics then some q.renderFull else none))
  | .error e => .error (.checkFailed (title table auth) e.message)

/-- Ask the store, through `read`, whether the predicate admits the subject of the mutation `m`. -/
def enforce (g : Gate) (a m : Actor) (read : Query → Outcome (List Row)) (table : String)
    (w : Where) (s : Subject) : Ruling Unit :=
  if bypasses m.identity then .ofOutcome (.ok ())
  else
    (g.existenceIn a m.environment m.identity w s none).andThen fun q =>
      .ofOutcome (g.verdict table m.identity q (read q))

/-- Authorize the mutation `m` on a subject; `a` is whoever asks, as a rule the mutation itself.
The result is the text under which the subject counts as checked; on a client nothing is checked. -/
def can (g : Gate) (a m : Actor) (read : Query → Outcome (List Row)) (w : Where) (s : Subject) :
    Ruling (Option String) :=
  match m.environment, w.table with
  | .client, _ => .ofOutcome (.ok none)
  | .server, none =>
    .ofOutcome (.error (.configuration "Must use a table-bound Where to pass to can()"))
  | .server, some table =>
    (g.enforce a m read table w s).andThen fun _ =>
      .ofOutcome ((g.subjectKey table s).map some)

end Gate
end RowGuard
