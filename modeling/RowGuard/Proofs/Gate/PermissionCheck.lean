import RowGuard.Proofs.Gate.Exactness
import RowGuard.Proofs.Program.Running
import RowGuard.Server.Answer

/-! # The permission check and the gate

The server answers the question whether an identity may act on a subject with a query, and the gate
of a mutation answers it with a check.  Both compile the registered predicate in the same way and
read the rows of its table.  But the gate lets some identities bypass it, and the query does not: so
the two agree unless someone bypasses the gate whom the predicate does not admit.
-/
namespace RowGuard

namespace Model

/-- The predicate of the model guards the table of the model. -/
def Bound (m : Model) : Prop := ∀ w, m.guard = some w → w.table = some m.name

theorem bound_table (name : String) (w : Where) : (table name w).Bound := fun _ h => by
  rw [← Option.some.inj h]
  rfl

end Model

/-- A predicate is registered for the table that it guards. -/
theorem Models.table_of_registry {models : List Model} (hm : ∀ m ∈ models, m.Bound) {table : String}
    {w : Where} (hw : (ofList models).registry.get? table = some w) : w.table = some table := by
  have hall : ∀ (models : List Model) (ms : Models), (∀ m ∈ models, m.Bound) →
      (∀ w, ms.registry.get? table = some w → w.table = some table) →
      ∀ w, (models.foldl add ms).registry.get? table = some w → w.table = some table := by
    intro models
    induction models with
    | nil => exact fun ms _ h => h
    | cons m models ih =>
      intro ms hm h
      refine ih (ms.add m) (fun m' hm' => hm m' (List.mem_cons_of_mem _ hm')) fun w hw => ?_
      unfold add at hw
      cases hg : m.guard with
      | none =>
        rw [hg] at hw
        exact h w hw
      | some v =>
        simp only [hg, Dict.get?_insert] at hw
        split at hw
        · rename_i hn
          rw [← Option.some.inj hw, hm m List.mem_cons_self v hg, hn]
        · exact h w hw
  exact hall models .empty hm (fun w hw => by simp [empty] at hw) w hw

section
variable {g : Gate} {registry : PermissionRegistry} {table : String} {t : Table} {w : Where}
  {x : Subject}

/-- The question for a subject is the query of the gate for the registered predicate. -/
theorem PermissionCheck.query_eq (henv : g.environment = .server)
    (ht : g.schema.table? table = some t) (hw : registry.get? table = some w) (a : Actor)
    (auth : Option Identity) :
    ((⟨table, some x⟩ : PermissionCheck).query g registry g.schema a auth).result =
      (Gate.conditionFor table t x (w.decide a table auth)).map (Gate.existenceQuery table t) := by
  have hq : g.schema.query table = .ok (Query.onTable table t.primaryKey) :=
    Schema.query_eq_ok_iff.2 ⟨t, ht, rfl⟩
  simp only [query, hq, hw, Gate.compile, henv, Gate.compileIn_server (some table) auth table rfl ht,
    Ruling.map]
  rfl

end

/-- What a query request that is read from committed rows comes to. -/
theorem Server.advance_answer {s : Server} {queries : SyncedQueries} (hq : s.queries = some queries)
    {site : Site} {st : Store} (hst : site.HasStore s.database st) (identity : Option Identity)
    (r : QueryRequest) (app : Application) (waiting : List Nat) (credit : Nat) (p : Post) :
    ∃ turn, (s.answer identity r).advance app waiting ⟨credit, p, site⟩ = (.finished
      (((s.requested queries ⟨none, some (.server identity)⟩ identity r).result.bind st.execute).map
        fun rows => ⟨r.name, rows⟩), turn) := by
  obtain ⟨journal, hrule⟩ := Program.advance_rule
    (s.requested queries ⟨none, some (.server identity)⟩ identity r) app waiting ⟨credit, p, site⟩
  simp only [answer, hq]
  cases hx : (s.requested queries ⟨none, some (.server identity)⟩ identity r).result with
  | error e =>
    rw [hx] at hrule
    exact ⟨_, Program.advance_andThen_error hrule⟩
  | ok q =>
    rw [hx] at hrule
    have hread : (Program.read s.database q).advance app waiting
        ⟨credit, p, { site with journal }⟩ =
          (.finished (st.execute q), ⟨credit, p, { site with journal }⟩) := by
      have hd : site.databases[s.database]? = some (.direct st) := hst
      simp only [Program.read, Program.request, Program.bind, Program.advance, Site.answer,
        Site.snapshot, hd]
      rfl
    exact ⟨_, (Program.advance_andThen_ok hrule).trans (Program.advance_mapOk hread)⟩

section
variable {models : List Model} {queries : SyncedQueries} {identity : Option Identity}
  {r : QueryRequest} {table : String} {t : Table} {w : Where} {x : Subject}
  {key : List (String × Json)} {st : Store} {i : Invocation}

/-- The permission check returns a row exactly when the predicate admits the subject on account of a
committed row. -/
theorem requested_rows_iff {s : Server} (henv : s.gate.environment = .server)
    (hw : s.registry.get? table = some w) (hname : r.name = PermissionCheck.queryName)
    (hargs : PermissionCheck.decode r.args = .ok ⟨table, some x⟩)
    (ht : s.gate.schema.table? table = some t) (hx : x.keyValues t = .ok key)
    (hschema : st.schema = s.gate.schema) :
    (∃ rows, (s.requested queries ⟨none, some (.server identity)⟩ identity r).result.bind
        st.execute = .ok rows ∧ rows ≠ []) ↔
      ∃ row ∈ st.committed.rows table,
        Permit.Admits key row (w.decide ⟨identity, .server⟩ table identity) := by
  have hr : (s.requested queries ⟨none, some (.server identity)⟩ identity r).result =
      (Gate.conditionFor table t x (w.decide ⟨identity, .server⟩ table identity)).map
        (Gate.existenceQuery table t) := by
    simp only [Server.requested, hname, ↓reduceIte, hargs]
    exact PermissionCheck.query_eq henv ht hw _ identity
  rw [hr]
  cases hp : w.decide ⟨identity, .server⟩ table identity with
  | none => simp [Gate.conditionFor, Except.map, Except.bind, Permit.Admits]
  | some p =>
    obtain ⟨c, hc, hiff⟩ := Gate.conditionFor_admits (t := t) (p := p) table fun _ _ => hx
    obtain ⟨rows, hrows, hne⟩ := Gate.execute_existenceQuery (T := st.committed) ht c
    rw [hc]
    simp only [Except.map, Except.bind, Store.execute, hschema, hrows, Except.ok.injEq,
      exists_eq_left', hne, hiff]

/-- The gate of a mutation opens exactly for those who bypass it and on account of a row that the
transaction of the mutation shows. -/
theorem Site.can_eq_ok_iff {site : Site} (hi : i.environment = .server)
    (hw : w.table = some table) (ht : i.gate.schema.table? table = some t)
    (hx : x.keyValues t = .ok key) {rows : List Row} (hrows : site.shown i.tx table = .ok rows) :
    (site.can (.ofInvocation i) i.gate w x).1 = .ok () ↔ Gate.bypasses i.identity = true ∨
      ∃ row ∈ rows, Permit.Admits key row (w.decide i.actor table i.identity) := by
  obtain ⟨checked, journal, hcan, -⟩ :=
    site.can_of_key (p := .ofInvocation i) (g := i.gate) rfl hi hw ht hx
  rw [hcan]
  cases hb : Gate.bypasses i.identity with
  | true => exact iff_of_true (Gate.enforce_of_bypasses hb) (.inl rfl)
  | false =>
    have hans := site.enforce_answers (g := i.gate) hi hb hw ht i.actor key fun _ _ => hx
    have hact : (Post.ofInvocation i).scope.actor = i.actor := rfl
    rw [hact, hans.eq_ok_iff, hrows]
    simp only [Except.ok.injEq, exists_eq_left', Bool.false_eq_true, false_or]

/-- Over one and the same committed state, the permission check and the gate of a mutation agree
exactly if nobody bypasses the gate, or the predicate admits the subject anyway. -/
theorem permission_check_agrees_iff {d : Nat} {schema : Schema} {config : Config} {actions : Bool}
    {s : Server} {site site' : Site} {st' : Store} (hm : ∀ m ∈ models, m.Bound)
    (hs : s = .new d schema config (Models.ofList models).registry (some queries) actions)
    (hw : s.registry.get? table = some w) (hname : r.name = PermissionCheck.queryName)
    (hargs : PermissionCheck.decode r.args = .ok ⟨table, some x⟩)
    (ht : schema.table? table = some t) (hx : x.keyValues t = .ok key)
    (hst : site.HasStore s.database st) (hschema : st.schema = schema)
    (hi : i.environment = .server) (hid : i.identity = identity) (hg : i.gate = s.gate)
    (hst' : site'.HasStore i.tx.database st') (hschema' : st'.schema = schema)
    (hh : st'.Held i.tx.handle st.committed) (app : Application) (waiting : List Nat)
    (credit : Nat) :
    ∃ answer turn, (s.answer identity r).advance app waiting ⟨credit, .outside, site⟩ =
        (.finished answer, turn) ∧
      (((∃ response, answer = .ok response ∧ response.rows ≠ []) ↔
          (site'.can (.ofInvocation i) s.gate w x).1 = .ok ()) ↔
        Gate.bypasses identity = false ∨ ∃ row ∈ st.committed.rows table,
          Permit.Admits key row (w.decide ⟨identity, .server⟩ table identity)) := by
  have hq : s.queries = some queries := by
    rw [hs]
    rfl
  have hgs : s.gate.schema = schema := by
    rw [hs]
    rfl
  have henv : s.gate.environment = .server := by
    rw [hs]
    rfl
  have hreg : s.registry = (Models.ofList models).registry := by
    rw [hs]
    rfl
  have hact : i.actor = ⟨identity, .server⟩ := by
    rw [Invocation.actor, hid, hi]
  have hcheck := @requested_rows_iff queries identity r table t w x key st s henv hw hname hargs
    (hgs ▸ ht) hx (hschema.trans hgs.symm)
  have hgate := site'.can_eq_ok_iff hi (Models.table_of_registry hm (hreg ▸ hw))
    (hg ▸ hgs ▸ ht) hx (hst'.shown hh (hschema' ▸ ht))
  rw [hid, hact, hg] at hgate
  obtain ⟨turn, hrun⟩ := Server.advance_answer hq hst identity r app waiting credit .outside
  refine ⟨_, turn, hrun, ?_⟩
  -- The query asks the predicate alone; the gate opens also for those who bypass it.
  rw [hgate]
  cases hrows : (s.requested queries ⟨none, some (.server identity)⟩ identity r).result.bind
      st.execute with
  | error e =>
    rw [hrows] at hcheck
    rw [← hcheck]
    cases Gate.bypasses identity <;> simp [Except.map]
  | ok rows =>
    rw [hrows] at hcheck
    rw [← hcheck]
    cases Gate.bypasses identity <;> simp [Except.map]

end

namespace ProjectTasks

/-- The tasks before a transaction has begun. -/
def idleStore : Store := (Store.new schema).after [.seed 0 "task" [mine, shared]]

def server (w : Where) : Server :=
  .new 0 schema (.forMode .production) (Models.ofList [.table "task" w]).registry
    (some ⟨schema, .empty⟩) false

/-- The question whether someone may act on a task. -/
def request (n : Nat) : QueryRequest :=
  ⟨PermissionCheck.queryName, .object [("table", .str "task"), ("objOrId", (subject n).toJson)]⟩

end ProjectTasks

open ProjectTasks in
theorem permission_check_agrees_for_tasks : ∃ response turn,
    ((server visible).answer (some (.ofId "u1")) (request 2)).advance ⟨.empty, 0⟩ []
        ⟨0, .outside, Site.new 0 [.direct idleStore]⟩ = (.finished (.ok response), turn) ∧
      response.rows ≠ [] := by
  have hbound : ∀ m ∈ [Model.table "task" visible], m.Bound := by
    intro m hm
    obtain rfl := List.mem_singleton.1 hm
    exact Model.bound_table "task" visible
  obtain ⟨answer, turn, hrun, hiff⟩ := @permission_check_agrees_iff [.table "task" visible]
    ⟨schema, .empty⟩ (some (.ofId "u1")) (request 2) "task" table visible (subject 2) _ idleStore
    invocation 0 schema (.forMode .production) false (server visible)
    (Site.new 0 [.direct idleStore]) (Site.new 0 [.direct store]) store hbound rfl rfl rfl rfl rfl
    rfl rfl rfl rfl rfl rfl rfl rfl held ⟨.empty, 0⟩ [] 0
  have hopen : ((Site.new 0 [.direct store]).can (.ofInvocation invocation) (server visible).gate
      visible (subject 2)).1 = .ok () := (@Site.can_eq_ok_iff "task" table visible (subject 2) _
    invocation (.new 0 [.direct store]) rfl rfl rfl rfl [mine, shared] rfl).2
      (.inr ⟨shared, by simp, by decide +kernel, by decide +kernel⟩)
  obtain ⟨response, rfl, hne⟩ := (hiff.2 (.inl rfl)).2 hopen
  exact ⟨response, turn, hrun, hne⟩

open ProjectTasks in
/-- An admin passes the gate for a task about which the permission check finds nothing. -/
theorem admin_passes_where_check_finds_nothing : ∃ response turn,
    ((server (.denyAll "task")).answer (some .admin) (request 2)).advance ⟨.empty, 0⟩ []
        ⟨0, .outside, Site.new 0 [.direct idleStore]⟩ = (.finished (.ok response), turn) ∧
      response.rows = [] ∧
      ((Site.new 0 [.direct store]).can (.ofInvocation (plainInvocation schema 0 (some .admin)))
        (server (.denyAll "task")).gate (.denyAll "task") (subject 2)).1 = .ok () :=
  ⟨_, _, rfl, rfl, rfl⟩

end RowGuard
