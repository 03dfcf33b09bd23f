import RowGuard.Proofs.Query.Selection
import RowGuard.Synced.Queries

/-! # Filters

A filter is added to a query as a condition, or as a function that makes one for the table of the
query and may fail.  A call that makes a filter comes to the clause with the condition that is made.
So a list of calls either fails as the first filter does that cannot be made, or builds the query of
its clauses, and a row passes that query exactly if it satisfies every filter.
-/
namespace RowGuard

namespace Query

/-- A call that builds a query: a clause, or a filter that is made for the table of the query. -/
inductive Call (ε : Type) where
  | clause (c : Clause)
  | restrictBy (f : String → Condition)
  | tryRestrict (f : String → Except ε Condition)

namespace Call
variable {ε : Type}

def apply (q : Query) : Call ε → Except ε Query
  | clause c => .ok (c.apply q)
  | restrictBy f => .ok (q.restrictBy f)
  | tryRestrict f => q.tryRestrict f

/-- The clause that a call on a table comes to, if the call succeeds. -/
def settle (table : String) : Call ε → Except ε Clause
  | clause c => .ok c
  | restrictBy f => .ok (.restrict (f table))
  | tryRestrict f => (f table).map .restrict

/-- A call does what its clause does. -/
theorem apply_eq (q : Query) (call : Call ε) :
    call.apply q = (call.settle q.table).map (Clause.apply q) := by
  cases call with
  | clause c => rfl
  | restrictBy f => rfl
  | tryRestrict f =>
    simp only [apply, settle, Query.tryRestrict]
    cases f q.table <;> rfl

end Call

section Perform
variable {ε : Type} (q : Query)

def perform (calls : List (Call ε)) : Except ε Query := calls.foldlM Call.apply q

/-- Calls do what their clauses do, or fail as the first of them does that fails. -/
theorem perform_eq (calls : List (Call ε)) :
    q.perform calls = (calls.mapM (Call.settle q.table)).map q.build := by
  induction calls generalizing q with
  | nil => rfl
  | cons call calls ih =>
    rw [perform, List.foldlM_cons, Call.apply_eq, List.mapM_cons]
    cases call.settle q.table with
    | error e => rfl
    | ok c =>
      -- A clause leaves the table alone, so the other filters are still made for the same one.
      have htable : (c.apply q).table = q.table := (build_fixed q [c]).1
      have hrest : (c.apply q).perform calls =
          (calls.mapM (Call.settle q.table)).map (c.apply q).build := htable ▸ ih (c.apply q)
      refine Eq.trans hrest ?_
      simp only [bind, Except.bind]
      cases calls.mapM (Call.settle q.table) <;> rfl

/-- A filter that may fail, and then a single row. -/
theorem perform_one (f : String → Except ε Condition) :
    q.perform [.tryRestrict f, .clause .one] = (f q.table).map fun c => (q.restrict c).one := by
  rw [perform, List.foldlM_cons, Call.apply, tryRestrict]
  cases f q.table <;> rfl

end Perform

end Query

section Gate
variable {g : Gate} {a : Actor} {auth : Option Identity} {w : Where} {s : Subject}

/-- The gate adds what it compiles to the query for all rows of the table. -/
theorem Gate.existenceIn_eq_perform (env : Environment) (override : Option String) :
    (g.existenceIn a env auth w s override).result =
      (g.resolve w override).bind fun x => (g.schema.query x.1).bind fun q => q.perform
        [.tryRestrict fun builder => (g.compileIn a env auth builder w s override).result,
          .clause .one] := by
  rw [existenceIn]
  cases g.resolve w override with
  | error e => rfl
  | ok x =>
    simp only [Except.bind]
    cases hq : g.schema.query x.1 with
    | error e => rfl
    | ok q =>
      obtain ⟨t, -, rfl⟩ := Schema.query_eq_ok_iff.1 hq
      simp only [Query.perform_one]
      rfl

/-- So does the permission check, with the predicate that is registered for the table. -/
theorem PermissionCheck.query_eq_perform {r : PermissionRegistry} {table : String}
    (hw : r.get? table = some w) (schema : Schema) :
    ((⟨table, some s⟩ : PermissionCheck).query g r schema a auth).result =
      (schema.query table).bind fun q => q.perform
        [.tryRestrict fun builder => (g.compile a auth builder w s (some table)).result,
          .clause .one] := by
  simp only [query, hw]
  cases hq : schema.query table with
  | error e => rfl
  | ok q =>
    obtain ⟨t, -, rfl⟩ := Schema.query_eq_ok_iff.1 hq
    simp only [Except.bind, Query.perform_one]
    rfl

end Gate

/-- Conditions are flattened and keep their meaning.  A conjunction holds exactly if all its members
do, whether they come as a list or as two, and a disjunction exactly if some member does.  Calls that
build a query fail as the first filter does that cannot be made, or leave a filter that a row passes
exactly if it passed before and satisfies every condition that they added. -/
theorem Condition.flattening_preserves_meaning {ε : Type} (row : Row) :
    (∀ cs, (all cs).holds row = true ↔ ∀ c ∈ cs, c.holds row = true) ∧
    (∀ cs, (any cs).holds row = true ↔ ∃ c ∈ cs, c.holds row = true) ∧
    (∀ a b, (both a b).holds row = true ↔ a.holds row = true ∧ b.holds row = true) ∧
    ∀ (q : Query) (calls : List (Query.Call ε)),
      match calls.mapM (Query.Call.settle q.table) with
      | .ok clauses => ∃ q', q.perform calls = .ok q' ∧
          (q'.plan.passes row = true ↔ q.plan.passes row = true ∧
            ∀ c ∈ Query.Clause.conditions clauses, c.holds row = true)
      | .error e => q.perform calls = .error e := by
  refine ⟨fun cs => ?_, fun cs => ?_, fun a b => ?_, fun q calls => ?_⟩
  · rw [holds_all, List.all_eq_true]
  · rw [holds_any, List.any_eq_true]
  · rw [holds_both, Bool.and_eq_true]
  · rw [Query.perform_eq]
    cases calls.mapM (Query.Call.settle q.table) with
    | error e => rfl
    | ok clauses =>
      refine ⟨q.build clauses, rfl, ?_⟩
      rw [Query.build_passes, Bool.and_eq_true, List.all_eq_true]

end RowGuard
