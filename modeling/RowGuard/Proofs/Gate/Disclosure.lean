import RowGuard.Proofs.Gate.PermissionCheck

/-! # What the permission check reveals

The answer to the permission check carries a row of the table.  A predicate that answers with a
condition has this row found by the key of the subject, so that the answer tells nothing about other
rows.  A blanket permission is asked without a key: the row is then the first of the table, whatever
the subject is.
-/
namespace RowGuard

/-- Every row that a plan selects stands in the table and passes the filter. -/
theorem Plan.mem_select {p : Plan} {rows : List Row} {r : Row} (h : r ∈ p.select rows) :
    r ∈ rows ∧ p.passes r = true := by
  have hcut : ∀ xs : List Row, r ∈ p.cut xs → r ∈ xs := fun xs h => by
    unfold cut at h
    split at h
    · exact List.mem_of_mem_take h
    · exact h
  have hsorted := (List.mem_filter.1 (hcut _ h)).1
  rw [(sortBy_perm (compareRows p.order) (rows.filter p.passes)).mem_iff] at hsorted
  exact List.mem_filter.1 hsorted

namespace Subject
variable {t : Table} {x : Subject} {row : Row}

/-- A row has, in every key column of a table, a value that compares as equal to the one that the
subject gives for it. -/
def Names (x : Subject) (t : Table) (row : Row) : Prop :=
  ∀ c ∈ t.primaryKey, ∃ v, x.keyValue t c = .ok (c, v) ∧
    Json.compareValues (row.value c) v = some .eq

/-- A key has an entry for every key column. -/
theorem keyValue_of_mem {key : List (String × Json)} (h : x.keyValues t = .ok key) {c : String}
    (hc : c ∈ t.primaryKey) : ∃ e ∈ key, x.keyValue t c = .ok e := by
  have hcolumns := forall₂_keyValues h
  clear h
  generalize t.primaryKey = columns at hc hcolumns
  induction hcolumns with
  | nil => cases hc
  | @cons d e columns es hv _ ih =>
    rcases List.mem_cons.1 hc with rfl | hc
    · exact ⟨e, List.mem_cons_self, hv⟩
    · obtain ⟨e', he', hv'⟩ := ih hc
      exact ⟨e', List.mem_cons_of_mem _ he', hv'⟩

/-- The rows that match the key of a subject are the ones that it names. -/
theorem names_of_matches {key : List (String × Json)} (hx : x.keyValues t = .ok key)
    (h : row.Matches key) : x.Names t row := by
  intro c hc
  obtain ⟨⟨d, v⟩, he, hv⟩ := keyValue_of_mem hx hc
  obtain rfl : d = c := fst_keyValue hv
  exact ⟨v, hv, (h _ he).2⟩

end Subject

/-- The first row of a table in the order of its key, if there is one. -/
def Table.firstRow (t : Table) (rows : List Row) : List Row :=
  (sortBy (compareRows (Query.completeOrder [] t.primaryKey)) rows).take 1

section
variable {table : String} {t : Table} {x : Subject} {rows : List Row} {p : Option Permit}
  {c : Condition}

/-- The row that is found under a condition is named by the subject. -/
theorem Gate.names_of_mem_select
    (hc : Gate.conditionFor table t x p = .ok c) {row : Row}
    (h : row ∈ (Gate.existenceQuery table t c).completed.select rows) :
    row ∈ rows ∧ (p = some (.blanket true) ∨
      ∃ cond, p = some (.rows cond) ∧ cond.holds row = true ∧ x.Names t row) := by
  obtain ⟨hrow, hpass⟩ := Plan.mem_select h
  have hholds : c.holds row = true := hpass
  refine ⟨hrow, ?_⟩
  match p with
  | none => cases hc
  | some (.blanket b) =>
    rw [← Except.ok.inj hc, Condition.holds_compareLiterals] at hholds
    exact .inl (by rw [hholds])
  | some (.rows cond) =>
    cases hx : x.keyValues t with
    | error e => simp [Gate.conditionFor, hx, Except.map] at hc
    | ok key =>
      simp only [Gate.conditionFor, hx, Except.map, Except.ok.injEq] at hc
      rw [← hc, Condition.holds_all] at hholds
      simp only [List.all_cons, List.all_map, Bool.and_eq_true, List.all_eq_true] at hholds
      exact .inr ⟨cond, rfl, hholds.1, Subject.names_of_matches hx (Row.matches_iff.2 hholds.2)⟩

/-- Under a blanket permission the subject plays no part. -/
theorem Gate.select_of_blanket (table : String) (t : Table) (rows : List Row) :
    (Gate.existenceQuery table t (.compareLiterals (.bool true) .eq (.bool true))).completed.select
      rows = t.firstRow rows := by
  have hpasses : ∀ r, (Gate.existenceQuery table t
      (.compareLiterals (.bool true) .eq (.bool true))).completed.passes r = true := fun r =>
    Condition.holds_compareLiterals r true
  have hreaches : ∀ r, (Gate.existenceQuery table t
      (.compareLiterals (.bool true) .eq (.bool true))).completed.reaches r = true := fun _ => rfl
  rw [Plan.select, List.filter_eq_self.2 fun r _ => hpasses r,
    List.filter_eq_self.2 fun r _ => hreaches r]
  rfl

/-- A query that no row can satisfy selects nothing. -/
theorem Gate.select_of_alwaysFalse (table : String) (t : Table) (rows : List Row) :
    (Gate.existenceQuery table t .alwaysFalse).completed.select rows = [] :=
  List.eq_nil_iff_forall_not_mem.2 fun _ h => nomatch (Plan.mem_select h).2

/-- A query is answered from the committed rows of its table. -/
theorem Store.execute_eq_ok_iff {st : Store} {q : Query} {rows : List Row} :
    st.execute q = .ok rows ↔ (∃ t, st.schema.table? q.table = some t) ∧
      rows = q.completed.select (st.committed.rows q.table) := by
  unfold Store.execute Schema.execute
  cases ht : st.schema.table? q.table with
  | none => simp [Schema.require, ht]
  | some t => simp [Schema.require_eq_ok_iff.2 ht, eq_comm]

end

section
variable {d : Nat} {schema : Schema} {config : Config} {registry : PermissionRegistry}
  {queries : SyncedQueries} {actions : Bool} {site : Site} {st : Store} {r : QueryRequest}
  {check : PermissionCheck}

/-- The query behind a permission check, table by table and subject by subject. -/
theorem PermissionCheck.query_cases {g : Gate} (henv : g.environment = .server) (a : Actor)
    (auth : Option Identity) {q : Query}
    (hq : (check.query g registry g.schema a auth).result = .ok q) :
    ∃ t, g.schema.table? check.table = some t ∧
      (check.subject = none ∧ q = Gate.existenceQuery check.table t .alwaysFalse ∨
        ∃ x w c, check.subject = some x ∧ registry.get? check.table = some w ∧
          Gate.conditionFor check.table t x (w.decide a check.table auth) = .ok c ∧
          q = Gate.existenceQuery check.table t c) := by
  obtain ⟨table, subject⟩ := check
  cases ht : g.schema.table? table with
  | none => simp [query, Schema.query, Schema.require, ht, Ruling.ofOutcome] at hq
  | some t =>
    refine ⟨t, rfl, ?_⟩
    cases subject with
    | none =>
      simp only [query, Schema.query, Schema.require_eq_ok_iff.2 ht, Ruling.ofOutcome,
        Except.ok.injEq] at hq
      exact .inl ⟨rfl, hq.symm⟩
    | some x =>
      cases hw : registry.get? table with
      | none =>
        simp [query, Schema.query, Schema.require_eq_ok_iff.2 ht, hw, Ruling.ofOutcome] at hq
      | some w =>
        rw [query_eq henv ht hw] at hq
        cases hc : Gate.conditionFor table t x (w.decide a table auth) with
        | error e => simp [hc, Except.map] at hq
        | ok c =>
          rw [hc] at hq
          exact .inr ⟨x, w, c, rfl, rfl, hc, (Except.ok.inj hq).symm⟩

/-- What the permission check reveals.  Without a subject the answer is empty.  Every row of an answer
is a committed row of the table; it is named by the subject and satisfies the condition with which
the predicate has answered, unless the predicate has answered with a blanket permission.  Then the
row is the first of the table, for every subject. -/
theorem permission_check_discloses (hst : site.HasStore d st)
    (hname : r.name = PermissionCheck.queryName) (identity : Option Identity) (app : Application)
    (waiting : List Nat) (credit : Nat) :
    ∃ answer turn, ((Server.new d schema config registry (some queries) actions).answer identity
        r).advance app waiting ⟨credit, .outside, site⟩ = (.finished answer, turn) ∧
      (∀ check t t', PermissionCheck.decode r.args = .ok check → check.subject = none →
        schema.table? check.table = some t → st.schema.table? check.table = some t' →
          answer = .ok ⟨r.name, []⟩) ∧
      ∀ response, answer = .ok response → ∃ check t,
        PermissionCheck.decode r.args = .ok check ∧ schema.table? check.table = some t ∧
        (check.subject = none → response.rows = []) ∧
        ∀ x, check.subject = some x → ∃ w, registry.get? check.table = some w ∧
          (w.decide ⟨identity, .server⟩ check.table identity = some (.blanket true) →
            response.rows = t.firstRow (st.committed.rows check.table)) ∧
          ∀ row ∈ response.rows, row ∈ st.committed.rows check.table ∧
            (w.decide ⟨identity, .server⟩ check.table identity = some (.blanket true) ∨
              ∃ c, w.decide ⟨identity, .server⟩ check.table identity = some (.rows c) ∧
                c.holds row = true ∧ x.Names t row) := by
  obtain ⟨turn, hrun⟩ := Server.advance_answer
    (s := .new d schema config registry (some queries) actions) rfl hst identity r app waiting
    credit .outside
  have hreq : ∀ check, PermissionCheck.decode r.args = .ok check →
      ((Server.new d schema config registry (some queries) actions).requested queries
        ⟨none, some (.server identity)⟩ identity r).result =
        (check.query ⟨.server, schema, config.diagnostics⟩ registry schema
          ⟨identity, .server⟩ identity).result := fun check hd => by
    simp only [Server.requested, hname, ↓reduceIte, hd]
    rfl
  refine ⟨_, turn, hrun, ?_, ?_⟩
  · intro check t t' hd hx ht ht'
    have hq : (check.query ⟨.server, schema, config.diagnostics⟩ registry schema
        ⟨identity, .server⟩ identity).result =
          .ok (Gate.existenceQuery check.table t .alwaysFalse) := by
      simp only [PermissionCheck.query, Schema.query, Schema.require_eq_ok_iff.2 ht, hx]
      rfl
    have hrows : st.execute (Gate.existenceQuery check.table t .alwaysFalse) = .ok [] :=
      Store.execute_eq_ok_iff.2 ⟨⟨t', ht'⟩, (Gate.select_of_alwaysFalse ..).symm⟩
    rw [hreq check hd, hq]
    simp only [Except.bind, hrows]
    rfl
  · intro response hresponse
    cases hd : PermissionCheck.decode r.args with
    | error m =>
      simp [Server.requested, hname, hd, Ruling.ofOutcome, Except.bind, Except.map] at hresponse
    | ok check =>
      rw [hreq check hd] at hresponse
      cases hq : (check.query ⟨.server, schema, config.diagnostics⟩ registry schema
          ⟨identity, .server⟩ identity).result with
      | error e => simp [hq, Except.bind, Except.map] at hresponse
      | ok q =>
        cases he : st.execute q with
        | error e => simp [hq, he, Except.bind, Except.map] at hresponse
        | ok rows =>
          simp only [hq, he, Except.bind, Except.map, Except.ok.injEq] at hresponse
          subst hresponse
          obtain ⟨-, rfl⟩ := Store.execute_eq_ok_iff.1 he
          obtain ⟨t, ht, ⟨hx, rfl⟩ | ⟨x, w, c, hx, hw, hc, rfl⟩⟩ := PermissionCheck.query_cases
            (g := ⟨.server, schema, config.diagnostics⟩) rfl _ _ hq
          · refine ⟨check, t, rfl, ht, fun _ => Gate.select_of_alwaysFalse .., fun y hy => ?_⟩
            exact absurd (hx.symm.trans hy) (by simp)
          · refine ⟨check, t, rfl, ht, fun h => absurd (hx.symm.trans h) (by simp), fun y hy => ?_⟩
            obtain rfl : x = y := Option.some.inj (hx.symm.trans hy)
            refine ⟨w, hw, fun hp => ?_, fun row hrow => Gate.names_of_mem_select hc hrow⟩
            rw [hp] at hc
            obtain rfl := Except.ok.inj hc
            exact Gate.select_of_blanket ..

end

open ProjectTasks in
theorem permission_check_discloses_for_tasks : ∃ response turn,
    ((server visible).answer (some (.ofId "u1")) (request 2)).advance ⟨.empty, 0⟩ []
        ⟨0, .outside, Site.new 0 [.direct idleStore]⟩ = (.finished (.ok response), turn) ∧
      response.rows ≠ [] ∧ ∀ row ∈ response.rows, (subject 2).Names table row := by
  obtain ⟨answer, turn, hrun, -, hrows⟩ := @permission_check_discloses 0 schema
    (.forMode .production) (Models.ofList [.table "task" visible]).registry ⟨schema, .empty⟩ false
    (Site.new 0 [.direct idleStore]) idleStore (request 2) rfl rfl (some (.ofId "u1"))
    ⟨.empty, 0⟩ [] 0
  have htasks : idleStore.committed.rows "task" = [mine, shared] := rfl
  have hshared : shared ∈ idleStore.committed.rows "task" := by simp [htasks]
  obtain ⟨rows, hx, hne⟩ := (@requested_rows_iff ⟨schema, .empty⟩ (some (.ofId "u1")) (request 2)
    "task" table visible (subject 2) _ idleStore (server visible) rfl rfl rfl rfl rfl rfl rfl).2
    ⟨shared, hshared, by decide +kernel, by decide +kernel⟩
  obtain ⟨turn', hrun'⟩ := @Server.advance_answer (server visible) ⟨schema, .empty⟩ rfl
    (Site.new 0 [.direct idleStore]) idleStore rfl (some (.ofId "u1")) (request 2) ⟨.empty, 0⟩ [] 0
    .outside
  rw [hx] at hrun'
  obtain rfl := Stop.finished.inj (Prod.mk.inj (hrun.symm.trans hrun')).1
  obtain ⟨check, t, hd, ht, -, hnames⟩ := hrows _ rfl
  obtain rfl : check = ⟨"task", some (subject 2)⟩ := Except.ok.inj (hd.symm.trans rfl)
  obtain rfl : t = table := Option.some.inj (ht.symm.trans rfl)
  obtain ⟨w, hw, -, hall⟩ := hnames _ rfl
  obtain rfl : w = visible := Option.some.inj (hw.symm.trans rfl)
  refine ⟨_, turn, hrun, hne, fun row hrow => ?_⟩
  obtain ⟨-, hblanket | ⟨c, -, -, hn⟩⟩ := hall row hrow
  · cases hblanket
  · exact hn

open ProjectTasks in
/-- Under a blanket permission the answer about one task is the row of another one. -/
theorem blanket_answer_of_other_task : ∃ turn,
    ((server (.allowAll "task")).answer (some (.ofId "u1")) (request 2)).advance ⟨.empty, 0⟩ []
        ⟨0, .outside, Site.new 0 [.direct idleStore]⟩ =
      (.finished (.ok ⟨PermissionCheck.queryName, [mine]⟩), turn) ∧
    ¬ (subject 2).Names table mine := by
  obtain ⟨turn, hrun⟩ := @Server.advance_answer (server (.allowAll "task")) ⟨schema, .empty⟩ rfl
    (Site.new 0 [.direct idleStore]) idleStore rfl (some (.ofId "u1")) (request 2) ⟨.empty, 0⟩ [] 0
    .outside
  have hfirst : table.firstRow [mine, shared] = [mine] := by
    have hc : compareRows (Query.completeOrder [] table.primaryKey) shared mine ≠ .lt := by
      decide +kernel
    simp [Table.firstRow, sortBy, insertDescending, hc]
  have hrows : idleStore.execute (Gate.existenceQuery "task" table
      (.compareLiterals (.bool true) .eq (.bool true))) = .ok [mine] :=
    Store.execute_eq_ok_iff.2 ⟨⟨table, rfl⟩, hfirst.symm.trans (Gate.select_of_blanket ..).symm⟩
  refine ⟨turn, hrun.trans ?_, fun h => ?_⟩
  · have hq : ((server (.allowAll "task")).requested ⟨schema, .empty⟩
        ⟨none, some (.server (some (.ofId "u1")))⟩ (some (.ofId "u1")) (request 2)).result =
        .ok (Gate.existenceQuery "task" table
          (.compareLiterals (.bool true) .eq (.bool true))) := rfl
    rw [hq]
    simp only [Except.bind, hrows]
    rfl
  · obtain ⟨v, hv, he⟩ := h "number" (by decide)
    obtain rfl : v = .ofNat 2 := (Prod.mk.inj (Except.ok.inj (hv.symm.trans rfl))).2
    exact absurd he (by decide +kernel)

end RowGuard
