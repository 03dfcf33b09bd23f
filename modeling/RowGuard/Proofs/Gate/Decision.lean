import RowGuard.Gate
import RowGuard.Proofs.Condition.Flattening
import RowGuard.Proofs.Store.Writes

/-! # When the gate opens

For an ordinary identity on the server, the gate opens exactly when some row of the table satisfies
the compiled condition.  What that condition says of a row is read off the answer of the predicate.
-/
namespace RowGuard

namespace Condition

theorem compares_eq_iff (a b : Json) :
    Operator.compares a b [.eq] = true ↔ Json.compareValues a b = some .eq := by
  unfold Operator.compares
  cases h : Json.compareValues a b with
  | none => simp
  | some o => cases o <;> simp

/-- A row passes an equation with a value if its column compares equal; `null` passes none. -/
theorem holds_columnIs (row : Row) (c : String) (v : Json) : (columnIs c v).holds row = true ↔
    (row.value c).isNull = false ∧ v.isNull = false ∧
      Json.compareValues (row.value c) v = some .eq := by
  have he : (columnIs c v).holds row =
      if (row.value c).isNull || v.isNull then false
      else Operator.compares (row.value c) v [.eq] := rfl
  rw [← compares_eq_iff, he]
  cases (row.value c).isNull <;> cases v.isNull <;> simp

theorem holds_compareLiterals (row : Row) (b : Bool) :
    (compareLiterals (.bool true) .eq (.bool b)).holds row = b := by
  cases b <;> rfl

end Condition

/-- The first of the selected rows, without a cursor: there is one if any row passes the filter. -/
theorem Plan.select_ne_nil_iff {p : Plan} (hl : p.limit = some 1) (hs : p.start = none)
    (rows : List Row) : p.select rows ≠ [] ↔ ∃ r ∈ rows, p.passes r = true := by
  have hr : ∀ xs : List Row, xs.filter p.reaches = xs := fun xs =>
    List.filter_eq_self.2 fun r _ => by simp [Plan.reaches, hs]
  have hp := sortBy_perm (compareRows p.order) (rows.filter p.passes)
  have ht : ∀ xs : List Row, xs.take 1 ≠ [] ↔ ∃ r, r ∈ xs := fun xs => by
    cases xs <;> simp
  simp only [Plan.select, Plan.cut, hl, hr]
  rw [ht]
  simp only [hp.mem_iff, List.mem_filter]

/-- Whether the answer of a predicate permits a row. -/
def Permit.Allows (r : Row) : Option Permit → Prop
  | some (.blanket b) => b = true
  | some (.rows c) => c.holds r = true
  | none => False

/-- Whether the answer of a predicate admits a subject with a key on account of a row. -/
def Permit.Admits (key : List (String × Json)) (r : Row) : Option Permit → Prop
  | some (.blanket b) => b = true
  | some (.rows c) => c.holds r = true ∧ ∀ e ∈ key, (Condition.columnIs e.1 e.2).holds r = true
  | none => False

namespace Gate
variable {g : Gate} {a m : Actor} {w : Where} {s : Subject} {table : String} {t : Table} {T : Tables}

/-- The query for one row that satisfies a condition. -/
def existenceQuery (table : String) (t : Table) (c : Condition) : Query :=
  ((Query.onTable table t.primaryKey).restrict c).one

theorem execute_existenceQuery {schema : Schema} (ht : schema.table? table = some t)
    (c : Condition) : ∃ rows, schema.execute T (existenceQuery table t c) = .ok rows ∧
      (rows ≠ [] ↔ ∃ r ∈ T.rows table, c.holds r = true) := by
  have hr : schema.require table = .ok t := Schema.require_eq_ok_iff.2 ht
  refine ⟨(existenceQuery table t c).completed.select (T.rows table), ?_, ?_⟩
  · simp only [Schema.execute, existenceQuery, Query.table, Query.one, Query.restrict,
      Query.onTable, hr]
  · exact Plan.select_ne_nil_iff rfl rfl _

section Server
variable (override : Option String) (auth : Option Identity)

theorem resolve_of_table (hw : (override <|> w.table) = some table)
    (ht : g.schema.table? table = some t) : g.resolve w override = .ok (table, t) := by
  simp only [resolve, hw, ht]

/-- On the server no predicate is skipped: it is consulted once. -/
theorem compileIn_server (builder : String) (hw : (override <|> w.table) = some table)
    (ht : g.schema.table? table = some t) : g.compileIn a .server auth builder w s override =
      ⟨conditionFor table t s (w.decide a builder auth), [w.label]⟩ := by
  have hk : w.skippedIn .server = false := by simp [Where.skippedIn]
  simp [compileIn, resolve_of_table override hw ht, answer, hk, Where.consult]

theorem existenceIn_server (hw : (override <|> w.table) = some table)
    (ht : g.schema.table? table = some t) : g.existenceIn a .server auth w s override =
      ⟨(conditionFor table t s (w.decide a table auth)).map (existenceQuery table t),
        [w.label]⟩ := by
  have hq : g.schema.query table = .ok (Query.onTable table t.primaryKey) :=
    Schema.query_eq_ok_iff.2 ⟨t, ht, rfl⟩
  simp only [existenceIn, resolve_of_table override hw ht, hq,
    compileIn_server override auth table hw ht, Ruling.map]
  rfl

end Server

/-- The condition of an answer, and what it says of a row. -/
theorem conditionFor_cases (table : String) (t : Table) (s : Subject) (p : Option Permit) :
    (∃ e, conditionFor table t s p = .error e ∧
      ∀ key, s.keyValues t = .ok key → ∀ r, ¬ Permit.Admits key r p) ∨
    ∃ c, conditionFor table t s p = .ok c ∧
      ∀ key, s.keyValues t = .ok key → ∀ r, c.holds r = true ↔ Permit.Admits key r p := by
  match p with
  | none => exact .inl ⟨_, rfl, fun _ _ _ h => h⟩
  | some (.blanket b) =>
    refine .inr ⟨_, rfl, fun key _ r => ?_⟩
    rw [Condition.holds_compareLiterals]
    rfl
  | some (.rows c) =>
    cases hk : s.keyValues t with
    | error e => exact .inl ⟨e, by simp [conditionFor, hk, Except.map], by simp⟩
    | ok key =>
      refine .inr ⟨.all (c :: key.map fun e => .columnIs e.1 e.2),
        by simp [conditionFor, hk, Except.map], fun key' h r => ?_⟩
      obtain rfl := Except.ok.inj h
      simp [Condition.holds_all, Permit.Admits]

theorem subjectKey_eq (ht : g.schema.table? table = some t) : g.subjectKey table s =
    (s.keyValues t).map fun key => table ++ ":" ++ (Json.arr (key.map Prod.snd)).compact := by
  have hr : g.schema.require table = .ok t := Schema.require_eq_ok_iff.2 ht
  simp only [subjectKey, hr, bind, Except.bind]
  cases s.keyValues t <;> rfl

theorem enforce_server (hm : m.environment = .server) (hb : bypasses m.identity = false)
    (hw : w.table = some table) (ht : g.schema.table? table = some t)
    (read : Query → Outcome (List Row)) : (g.enforce a m read table w s).result =
      (conditionFor table t s (w.decide a table m.identity)).bind fun c =>
        g.verdict table m.identity (existenceQuery table t c) (read (existenceQuery table t c)) := by
  simp only [enforce, hb, Bool.false_eq_true, ↓reduceIte, hm, Ruling.andThen,
    existenceIn_server none m.identity hw ht]
  cases conditionFor table t s (w.decide a table m.identity) <;> rfl

/-- For an ordinary identity on the server the gate opens exactly when the subject has a full key and
some row of the table admits it. -/
theorem can_eq_ok_iff (hm : m.environment = .server) (hb : bypasses m.identity = false)
    (hw : w.table = some table) (ht : g.schema.table? table = some t) :
    (∃ k, (g.can a m (g.schema.execute T) w s).result = .ok k) ↔
      ∃ key, s.keyValues t = .ok key ∧
        ∃ r ∈ T.rows table, Permit.Admits key r (w.decide a table m.identity) := by
  have he := enforce_server (g := g) (a := a) (s := s) hm hb hw ht (g.schema.execute T)
  have hc : (g.can a m (g.schema.execute T) w s).result =
      (g.enforce a m (g.schema.execute T) table w s).result.bind fun _ =>
        (g.subjectKey table s).map some := by
    simp only [can, hm, hw, Ruling.andThen]
    cases (g.enforce a m (g.schema.execute T) table w s).result <;> rfl
  rw [hc, he, subjectKey_eq ht]
  rcases conditionFor_cases table t s (w.decide a table m.identity) with
    ⟨e, hce, hno⟩ | ⟨c, hco, hiff⟩
  · rw [hce]
    refine iff_of_false (by rintro ⟨k, hk⟩; cases hk) ?_
    rintro ⟨key, hkey, r, -, hr⟩
    exact hno key hkey r hr
  · obtain ⟨rows, hrows, hne⟩ := execute_existenceQuery (T := T) ht c
    rw [hco]
    simp only [Except.bind, hrows]
    cases hkey : s.keyValues t with
    | error e =>
      refine iff_of_false ?_ (by simp)
      rintro ⟨k, hk⟩
      cases rows <;> cases hk
    | ok key =>
      have hadm : (∃ r ∈ T.rows table, c.holds r = true) ↔
          ∃ r ∈ T.rows table, Permit.Admits key r (w.decide a table m.identity) := by
        simp only [hiff key hkey]
      rw [hadm] at hne
      cases rows with
      | nil =>
        refine iff_of_false (by rintro ⟨k, hk⟩; cases hk) ?_
        rintro ⟨key', hk', hr⟩
        obtain rfl := Except.ok.inj hk'
        exact hne.2 hr rfl
      | cons r rows => exact iff_of_true ⟨_, rfl⟩ ⟨key, rfl, hne.1 (by simp)⟩

end Gate
end RowGuard
