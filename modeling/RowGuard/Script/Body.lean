import RowGuard.Script.Function
import RowGuard.Server.Transaction
import RowGuard.Client.Runner
import RowGuard.Wire.Failure
import RowGuard.Wire.Identity
import RowGuard.Wire.Client

/-! # Scripted mutation bodies

A scripted body is a list of steps.  Every step is reported when it comes to an end; a failure ends
the body, unless the step catches it.
-/
namespace RowGuard.Script

/-- What scripts can name. -/
structure Book where
  schema : Schema
  predicates : Dict Where
  functions : Dict QueryFunction

structure Stage where
  ambient : Ambient
  invocation : Invocation
  args : Json

namespace Stage

/-- What the templates of a body are filled from. -/
def setting (g : Stage) : Setting := ⟨g.invocation.identity, g.args, g.ambient.scope.actor⟩

/-- A filled template; an undefined one is `null`. -/
def value (g : Stage) (v : Json) : Json := (fill g.setting v).getD .null

end Stage

/-- The failure of a step that names something missing. -/
def missing (what name : String) : Failure :=
  .mutation ("driver: " ++ what ++ " '" ++ name ++ "' not found")

def noServer : Failure := .mutation "driver: no server"

/-- The outcome of something that has to be there. -/
def found {α : Type} (what name : String) : Option α → Outcome α
  | some a => .ok a
  | none => .error (missing what name)

def resultValue (r : QueryResult) : Json := .object
  [("status", r.status.encode), ("empty", .bool r.rows.isEmpty),
    ("first", (r.first?.map .ofRow).getD .null), ("rows", .arr (r.rows.map .ofRow))]

def unitValue : Unit → Json := fun _ => .null

/-- Who code finds itself running for, in its scope. -/
def whoami (s : Scope) : Json := .object
  [("in_mutation", .bool s.inMutation),
    ("context", match s.mutation with
      | some m => .object [("ok", .ofString? (m.identity.map (·.id)))]
      | none => Failure.notInMutator.shown),
    ("auth", .ofString? (s.identity.map (·.id))),
    ("request_auth", .ofString? (s.requestIdentity.map (·.id))),
    ("request", match s.request with
      | some r => .object [("env", r.environment.encode), ("auth", .ofString? (r.identity.map (·.id))),
        ("has_id", .bool r.hasId)]
      | none => .null),
    ("environment", s.environment.encode)]

/-- The options of a run, which only have to be readable if there are any. -/
def runOptions (v : Option Json) : Outcome Unit :=
  match v.map RunOptions.decode with
  | some (.error m) => .error (.invalid m)
  | _ => .ok ()

/-- Run a query function through what is installed. -/
def runNamed (b : Book) (a : Ambient) (st : Json) : Program (Outcome QueryResult) :=
  let name := textOf (st.field "fn")
  (Program.ofOutcome (found "fn" name (b.functions.get? name))).andThen fun f =>
    (Program.ofOutcome (runOptions (st.field? "options"))).andThen fun _ =>
      .runFunction a f (st.field "args")

/-- Run a query through what is installed. -/
def runBuilt (b : Book) (a : Ambient) (s : Setting) (st : Json) : Program (Outcome QueryResult) :=
  (Program.ofOutcome (query b.schema s (st.field "query"))).andThen (.runQuery a)

def withServer {α : Type} (code : Server → Program (Outcome α)) : Program (Outcome α) :=
  (Program.request .installed).bind fun i =>
    match i.server with
    | some s => code s
    | none => .fail noServer

def calls (v : Json) : List (String × Json) :=
  (v.toList?.getD []).map fun c => (textOf (c.field "name"), c.field "args")

/-- A gate's decision for code in a scope; outside mutations only a client passes. -/
def canIn (a : Ambient) (g : Gate) (w : Where) (s : Subject) : Program (Outcome Unit) :=
  if a.scope.inMutation then .request (.can g w s)
  else match g.environment with
    | .client => .done (.ok ())
    | .server => .fail .notInMutator

def checkStep (b : Book) (g : Stage) (st : Json) (code : Where → Subject → Program (Outcome Unit)) :
    Program (Outcome Json) :=
  let name := textOf (st.field "where")
  (Program.ofOutcome (found "where" name (b.predicates.get? name))).andThen fun w =>
    .mapOk unitValue (code w (.ofJson (g.value (st.field "subject"))))

def checkReport (g : Stage) (table : String) (s : Subject) (c : Checked) : Json := .object
  [("any", .bool c.any), ("on", .bool (c.on table)),
    ("for", match c.passed g.invocation.gate table s with
      | .ok b => .object [("ok", .bool b)]
      | .error e => e.shown)]

/-- What a body knows of its invocation. -/
def contextValue (g : Stage) : Json := .object
  [("env", g.invocation.environment.encode), ("gate_env", g.invocation.gate.environment.encode),
    ("auth", (g.invocation.identity.map Identity.encode).getD .null), ("args", g.args),
    ("actions", .ofString? (g.invocation.server.bind (·.actions))),
    ("ambient_is_ctx", .bool g.ambient.scope.inMutation)]

def identityOf (v : Json) : Outcome (Option Identity) :=
  match v with
  | .null => .ok none
  | v => match Identity.decode v with
    | .ok a => .ok (some a)
    | .error m => .error (.invalid m)

def writeStep (g : Stage) (st : Json) : Program (Outcome Unit) :=
  let name := textOf (st.field "action")
  (Program.ofOutcome (found "action" name (Action.ofName? name))).andThen fun action =>
    .request (.mutate g.invocation.tx (textOf (st.field "table")) action
      ((g.value (st.field "row")).toRow?.getD .empty))

/-- Put off work until after the commit. -/
def deferStep (g : Stage) (st : Json) : Program (Outcome Json) :=
  match g.invocation.server with
  | none => .fail (.mutation "server context missing")
  | some p =>
    (Program.request
      (.defer p.bag ⟨textOf (st.field "name"), st.field "fail" == .bool true⟩)).bind fun n =>
        .done (.ok (.ofNat n))

/-- A transaction inside the mutation; the value tells whether it is the same transaction. -/
def nestedStep (g : Stage) (st : Json) : Program (Outcome Json) :=
  withServer fun s => s.transaction g.ambient fun tx =>
    match st.field "message" with
    | .str m => .fail (.mutation m)
    | _ => .done (.ok (.object [("same_tx", .bool (tx == g.invocation.tx))]))

def trustedStep (g : Stage) (st : Json) : Program (Outcome Unit) :=
  withServer fun s =>
    (Program.ofOutcome (identityOf (st.field "auth"))).andThen fun identity =>
      s.mutate g.ambient identity fun tx m => m.callAll tx (calls (st.field "calls"))

/-- What one step does. -/
def action (b : Book) (g : Stage) (st : Json) (name : String) : Program (Outcome Json) :=
  match name with
  | "mutate" => .mapOk unitValue (writeStep g st)
  | "tx_run" =>
    (Program.ofOutcome (query b.schema g.setting (st.field "query"))).andThen fun q =>
      .mapOk (fun rows => .arr (rows.map .ofRow)) (.request (.run g.invocation.tx q))
  | "commit" => .mapOk unitValue (.request (.commit g.invocation.tx))
  | "rollback" => .mapOk unitValue (.request (.rollback g.invocation.tx))
  | "can" => checkStep b g st fun w s => .request (.can g.invocation.gate w s)
  | "ambient_can" => checkStep b g st (canIn g.ambient g.invocation.gate)
  | "fresh_can" => checkStep b g st fun w s =>
    let env : Environment := if st.field "env" == .str "client" then .client else .server
    canIn g.ambient ⟨env, b.schema, true⟩ w s
  | "did_run" =>
    (Program.request .checked).bind fun c =>
      .done (.ok (checkReport g (textOf (st.field "table")) (.ofJson (g.value (st.field "subject"))) c))
  | "fail" => .fail (.mutation (textOf (st.field "message")))
  | "anyhow" => .fail (.mutation (textOf (st.field "message")))
  | "error" =>
    match Failure.decode false (st.field "value") with
    | .ok e => .fail e
    | .error m => .fail (.invalid m)
  | "login" => .done (g.ambient.scope.requireLogin.map Identity.encode)
  | "after_commit" => deferStep g st
  | "sleep" => .sleep ((st.field "ms").toNat?.getD 0) (.done (.ok .null))
  | "hang" => .hang
  | "ctx" => .done (.ok (contextValue g))
  | "whoami" => .done (.ok (whoami g.ambient.scope))
  | "spawned_whoami" => .stepAside (.done (.ok (whoami .outside)))
  | "nested_tx" => nestedStep g st
  | "server_query" =>
    .mapOk resultValue (withServer fun s =>
      s.query g.ambient (query b.schema (.plain g.ambient.scope.actor) (g.value (st.field "query"))))
  | "server_mutate" => .mapOk unitValue (trustedStep g st)
  | "run" => .mapOk resultValue (runNamed b g.ambient st)
  | "run_query" => .mapOk resultValue (runBuilt b g.ambient g.setting st)
  | _ => .fail (missing "step" name)

def steps (b : Book) (g : Stage) : List Json → Program (Outcome Unit)
  | [] => .done (.ok ())
  | st :: rest =>
    let name := textOf (st.field "do")
    (action b g st name).bind fun r =>
      (Program.note [.reported name r]).bind fun _ =>
        match r with
        | .ok _ => steps b g rest
        | .error e => if st.field "catch" == .bool true then steps b g rest else .fail e

def body (b : Book) (v : Json) : Body := fun i args =>
  steps b ⟨i.ambient, i, args⟩ (v.toList?.getD [])

/-- A scripted model: a table model if it names a predicate. -/
def model (b : Book) (v : Json) : Option Model := do
  let name := textOf (v.field "name")
  let m ← match v.field "crud" with
    | .str w => (b.predicates.get? w).map (.table name)
    | _ => some (.plain name)
  let named := match v.field "mutations" with
    | .obj fields => fields
    | _ => []
  return named.foldl (fun m (n, s) => m.mutation n (body b s)) m

def models (b : Book) (v : Json) : Option Models := ((v.toList?.getD []).mapM (model b)).map .ofList

def predicates (v : Json) : Option (Dict Where) :=
  match v with
  | .obj fields => (fields.mapM fun (name, w) => (where? name w).map fun w => (name, w)).map .ofList
  | _ => some .empty

end RowGuard.Script
