import RowGuard.Proofs.Gate.Decision
import RowGuard.Proofs.Schedule.DirectSite
import RowGuard.Schedule.Segment
import Mathlib.Data.List.Forall2

/-! # Whether the gate checks the row that the store changes

The gate finds a row by conditions on its key columns, which compare numbers as doubles; the store
finds it by structural equality.  A row is confused with a key when only the gate takes it for the
row with that key.  The two agree on a table exactly when no row of it is confused with the key, and
only then does a guarded write that succeeds change none but permitted rows.
-/
namespace RowGuard

namespace Table
variable {t : Table} {key : List Json} {r row : Row}

/-- The key part of a compiled permission: an equation for every key column. -/
def keyPart (t : Table) (key : List Json) : List Condition :=
  (t.primaryKey.zip key).map fun e => .columnIs e.1 e.2

/-- A row that has the key for the gate only: some column holds a numeric twin of the value asked
for, and each other column holds the value itself or a twin. -/
structure Confuses (t : Table) (key : List Json) (r : Row) : Prop where
  close : ∀ e ∈ t.primaryKey.zip key, (r.value e.1).same e.2 = true ∨ (r.value e.1).NumericTwins e.2
  twin : ∃ e ∈ t.primaryKey.zip key, (r.value e.1).NumericTwins e.2

theorem holds_columnIs_iff_close {c : String} {v : Json} (hv : v.isNull = false) :
    (Condition.columnIs c v).holds r = true ↔
      (r.value c).same v = true ∨ (r.value c).NumericTwins v := by
  rw [Condition.holds_columnIs, Json.compareValues_eq_iff]
  refine ⟨fun h => h.2.2, fun h => ⟨?_, hv, h⟩⟩
  rcases h with hs | ⟨m, n, hm, -⟩
  · exact (Json.isNull_eq_of_same hs).trans hv
  · rw [hm]
    rfl

/-- The gate's key part selects the rows with the key, and those that are confused with it. -/
theorem keyPart_holds_iff (hk : ∀ v ∈ key, v.isNull = false) :
    (∀ c ∈ t.keyPart key, c.holds r = true) ↔ t.hasKey key r = true ∨ t.Confuses key r := by
  have hv : ∀ e ∈ t.primaryKey.zip key, e.2.isNull = false := fun e he =>
    hk e.2 (List.of_mem_zip (a := e.1) (b := e.2) he).2
  have hclose : (∀ c ∈ t.keyPart key, c.holds r = true) ↔ ∀ e ∈ t.primaryKey.zip key,
      (r.value e.1).same e.2 = true ∨ (r.value e.1).NumericTwins e.2 := by
    simp only [keyPart, List.forall_mem_map]
    exact forall₂_congr fun e he => holds_columnIs_iff_close (hv e he)
  rw [hclose, hasKey, agrees_iff hk]
  constructor
  · intro h
    by_cases ht : ∃ e ∈ t.primaryKey.zip key, (r.value e.1).NumericTwins e.2
    · exact .inr ⟨h, ht⟩
    · exact .inl fun e he => (h e he).resolve_right fun hn => ht ⟨e, he, hn⟩
  · rintro (h | h)
    · exact fun e he => .inl (h e he)
    · exact h.close

theorem Confuses.not_hasKey (hk : ∀ v ∈ key, v.isNull = false) (hc : t.Confuses key r) :
    t.hasKey key r = false := by
  obtain ⟨e, he, hn⟩ := hc.twin
  refine Bool.eq_false_iff.2 fun hh => ?_
  have hs := (agrees_iff hk).1 hh e he
  simp [hn.not_same] at hs

/-- Joined with the key part of a key, conditions select the same rows as the store's own lookup of
that key exactly when no row is confused with it. -/
theorem selects_same_iff (rows : List Row) (hk : ∀ v ∈ key, v.isNull = false) :
    (∀ c : Condition, rows.filter (fun r => (Condition.all (c :: t.keyPart key)).holds r) =
      rows.filter fun r => c.holds r && t.hasKey key r) ↔ ∀ r ∈ rows, ¬ t.Confuses key r := by
  have hall : ∀ (c : Condition) (r : Row), (Condition.all (c :: t.keyPart key)).holds r = true ↔
      c.holds r = true ∧ (t.hasKey key r = true ∨ t.Confuses key r) := by
    intro c r
    rw [Condition.holds_all, List.all_cons, Bool.and_eq_true, List.all_eq_true,
      keyPart_holds_iff hk]
  constructor
  · intro h r hr hc
    have hm : r ∈ rows.filter fun r => (Condition.all (.alwaysTrue :: t.keyPart key)).holds r :=
      List.mem_filter.2 ⟨hr, (hall _ r).2 ⟨rfl, .inr hc⟩⟩
    rw [h, List.mem_filter] at hm
    simp [hc.not_hasKey hk] at hm
  · intro h c
    refine List.filter_congr fun r hr => Bool.eq_iff_iff.2 ?_
    rw [hall, Bool.and_eq_true, or_iff_left (h r hr)]

end Table

theorem Subject.fst_keyValue {t : Table} {s : Subject} {c : String} {e : String × Json}
    (h : s.keyValue t c = .ok e) : e.1 = c := by
  unfold keyValue at h
  split at h
  · rw [← Except.ok.inj h]
  · split at h
    · rw [← Except.ok.inj h]
    · cases h

/-- The entries of a key are what the subject gives for the columns, one after another. -/
theorem Subject.forall₂_keyValues {t : Table} {s : Subject} {kv : List (String × Json)}
    (h : s.keyValues t = .ok kv) :
    List.Forall₂ (fun c e => s.keyValue t c = .ok e) t.primaryKey kv := by
  have hall : ∀ (columns : List String) (kv : List (String × Json)),
      columns.mapM (s.keyValue t) = .ok kv →
        List.Forall₂ (fun c e => s.keyValue t c = .ok e) columns kv := by
    intro columns
    induction columns with
    | nil =>
      intro kv h
      rw [← Except.ok.inj h]
      exact .nil
    | cons c columns ih =>
      intro kv h
      rw [List.mapM_cons] at h
      cases hv : s.keyValue t c with
      | error e => simp [hv, bind, Except.bind] at h
      | ok e =>
        cases hm : columns.mapM (s.keyValue t) with
        | error e' => simp [hv, hm, bind, Except.bind] at h
        | ok es =>
          simp only [hv, hm, bind, Except.bind, pure, Except.pure, Except.ok.injEq] at h
          exact h ▸ .cons hv (ih es hm)
  exact hall _ kv h

theorem Subject.map_fst_keyValues {t : Table} {s : Subject} {kv : List (String × Json)}
    (h : s.keyValues t = .ok kv) : kv.map Prod.fst = t.primaryKey := by
  have hcolumns := forall₂_keyValues h
  clear h
  generalize t.primaryKey = columns at hcolumns ⊢
  induction hcolumns with
  | nil => rfl
  | cons hv _ ih => rw [List.map_cons, fst_keyValue hv, ih]

theorem Subject.keyValues_row {t : Table} {row : Row} (hf : t.FullKey row) :
    (Subject.row row).keyValues t = .ok (t.primaryKey.map fun c => (c, row.value c)) := by
  have hall : ∀ columns : List String, (∀ c ∈ columns, (row.value c).isNull = false) →
      columns.mapM ((Subject.row row).keyValue t) = .ok (columns.map fun c => (c, row.value c)) := by
    intro columns
    induction columns with
    | nil => exact fun _ => rfl
    | cons c columns ih =>
      intro hn
      have hc : (Subject.row row).keyValue t c = .ok (c, row.value c) := by
        have hv := hn c List.mem_cons_self
        unfold Row.value at hv ⊢
        cases hg : row.get? c with
        | some v => simp [Subject.keyValue, hg]
        | none => simp [hg, Json.isNull] at hv
      rw [List.mapM_cons, hc, ih fun c hc => hn c (List.mem_cons_of_mem _ hc)]
      rfl
  exact hall _ hf

theorem Gate.conditionFor_rows {t : Table} {s : Subject} {kv : List (String × Json)} (table : String)
    (c : Condition) (h : s.keyValues t = .ok kv) :
    conditionFor table t s (some (.rows c)) = .ok (.all (c :: t.keyPart (kv.map Prod.snd))) := by
  have hz : t.primaryKey.zip (kv.map Prod.snd) = kv := by
    rw [← Subject.map_fst_keyValues h, List.zip_map']
    simp
  simp [conditionFor, h, Except.map, Table.keyPart, hz]

section Calls
variable {s : Store} {W W' : Tables} {table : String} {t : Table} {w : Where} {a : Action}
  {i : Invocation} {args : Json} {row : Row}

/-- Nothing counts as checked before the first check. -/
theorem Checked.covers_nil (g : Gate) (table : String) (x : Subject) :
    Checked.covers [] g table x = false := by
  unfold Checked.covers Checked.passed
  cases g.subjectKey table x <;> simp [Except.map, Checked.on]

/-- A write that is checked before it is made. -/
theorem guardedWrite_of_ne_insert (ha : a ≠ .insert) (w : Where) :
    guardedWrite table w a none i args =
      (automaticCheck table w (.ofJson args) i).andThen fun _ => writeRow table a i args := by
  cases a with
  | insert => exact absurd rfl ha
  | _ => rfl

theorem advance_guardedWrite (ha : a ≠ .insert) (hs : i.environment = .server) (app : Application)
    (queues : List Nat) (credit : Nat) (site : Site) :
    (guardedWrite table (w.withTable table) a none i args).advance app queues
        ⟨credit, .ofInvocation i, site⟩ =
      match site.can (.ofInvocation i) i.gate (w.withTable table) (.ofJson args) with
      | (.error e, post, site) => (.finished (.error e), ⟨credit, post, site⟩)
      | (.ok (), post, site) => (writeRow table a i args).advance app queues ⟨credit, post, site⟩ := by
  have hc : Checked.covers [] i.gate table (.ofJson args) = false := Checked.covers_nil ..
  rw [guardedWrite_of_ne_insert ha, automaticCheck, hs]
  simp only [Program.andThen, Program.bind, Program.request, Program.advance, Site.answer,
    Post.ofInvocation, hc, Bool.false_eq_true, ↓reduceIte]
  rcases site.can _ i.gate (w.withTable table) (.ofJson args) with ⟨r, post, site'⟩
  cases r with
  | error e => rfl
  | ok u => simp

/-- An ordinary identity calls a guarded write with its default body on the server, in a transaction
that is open with the tables `W`; the call succeeds and leaves the tables `W'`. -/
structure GuardedCall (s : Store) (W W' : Tables) (table : String) (w : Where) (a : Action)
    (i : Invocation) (args : Json) : Prop where
  server : i.environment = .server
  ordinary : Gate.bypasses i.identity = false
  schema : i.gate.schema = s.schema
  opened : s.Held i.tx.handle W
  run : ∃ (app : Application) (queues : List Nat) (credit : Nat) (site : Site) (turn : Turn)
    (s' : Store), site.databases[i.tx.database]? = some (.direct s) ∧
      (guardedWrite table (w.withTable table) a none i args).advance app queues
        ⟨credit, .ofInvocation i, site⟩ = (.finished (.ok ()), turn) ∧
      turn.site.databases[i.tx.database]? = some (.direct s') ∧ s'.Held i.tx.handle W'

/-- A gate that is asked by the body of a mutation decides for the caller of the mutation. -/
theorem Site.can_of_invocation (site : Site) {p : Post} (hp : p.invocation = some i)
    (hscope : p.scope = i.ambient.scope) (g : Gate) (w : Where) (x : Subject) :
    ∃ r checked journal, site.can p g w x = (r, { p with checked }, { site with journal }) ∧
      (r = .ok () ↔ ∃ k, (g.can i.actor i.actor (site.run i.tx) w x).result = .ok k) := by
  obtain ⟨invocation, scope, checked⟩ := p
  obtain rfl : invocation = some i := hp
  obtain rfl : scope = i.ambient.scope := hscope
  have ha : i.ambient.scope.actor = i.actor := rfl
  simp only [Site.can, ha]
  cases (g.can i.actor i.actor (site.run i.tx) w x).result with
  | error e => exact ⟨_, checked, _, rfl, by simp⟩
  | ok k =>
    cases k with
    | none => exact ⟨_, checked, _, rfl, by simp⟩
    | some key => exact ⟨_, _, _, rfl, by simp⟩

theorem Subject.ofJson_of_toRow? (h : args.toRow? = some row) : Subject.ofJson args = .row row := by
  cases args with
  | obj fields => exact congrArg Subject.row (Option.some.inj h)
  | _ => cases h

/-- Whether the gate opens for a guarded write, in a transaction that is open. -/
theorem can_direct_iff {site : Site} (hst : site.HasStore i.tx.database s)
    (hh : s.Held i.tx.handle W) (hs : i.environment = .server)
    (hb : Gate.bypasses i.identity = false) (hg : i.gate.schema = s.schema)
    (ht : s.schema.table? table = some t) (x : Subject) :
    (∃ k, (i.gate.can i.actor i.actor (site.run i.tx) (w.withTable table) x).result = .ok k) ↔
      ∃ kv, x.keyValues t = .ok kv ∧
        ∃ r ∈ W.rows table, Permit.Admits kv r (w.decide i.actor table i.identity) := by
  have hr : site.run i.tx = i.gate.schema.execute W := by
    rw [hst.run, hg]
    funext q
    exact hh.run q
  rw [hr]
  exact Gate.can_eq_ok_iff hs hb rfl (by rw [hg]; exact ht)

/-- What is behind a guarded write that succeeds: a row that the predicate admits with the key of the
arguments, and a write. -/
theorem GuardedCall.admitted (hc : GuardedCall s W W' table w a i args) (ha : a ≠ .insert)
    (ht : s.schema.table? table = some t) : ∃ row now, args.toRow? = some row ∧
      s.schema.write now W table a row = .ok W' ∧ ∃ kv, (Subject.row row).keyValues t = .ok kv ∧
        ∃ r ∈ W.rows table, Permit.Admits kv r (w.decide i.actor table i.identity) := by
  obtain ⟨app, queues, credit, site, turn, s', hst, hrun, hst', hh'⟩ := hc.run
  rw [advance_guardedWrite ha hc.server] at hrun
  obtain ⟨r, checked, journal, hcan, hok⟩ :=
    site.can_of_invocation (i := i) (p := .ofInvocation i) rfl rfl i.gate (w.withTable table)
      (.ofJson args)
  rw [hcan] at hrun
  cases r with
  | error e => simp at hrun
  | ok u =>
    have hopen := (can_direct_iff (w := w) hst hc.opened hc.server hc.ordinary hc.schema ht _).1
      (hok.1 rfl)
    cases hrow : args.toRow? with
    | none => simp [writeRow, hrow, Program.fail, Program.advance] at hrun
    | some row =>
      rw [Subject.ofJson_of_toRow? hrow] at hopen
      have hj : ({ site with journal } : Site).HasStore i.tx.database s := hst
      simp only [writeRow, hrow, Program.request, Program.advance, hj.answer_mutate,
        hc.opened.mutate, Prod.mk.injEq] at hrun
      cases hw : s.schema.write site.clock W table a row with
      | error e => simp [hw] at hrun
      | ok W₁ =>
        obtain ⟨-, rfl⟩ := hrun
        simp only [hw] at hst'
        obtain rfl := (hj.withStore _).unique hst'
        have hu := (hc.opened.setTables W₁).unique hh'
        exact ⟨row, _, rfl, hu.2 ▸ hw, hopen⟩

/-- A call on the server, in a transaction of the only database. -/
def plainInvocation (schema : Schema) (h : Nat) (auth : Option Identity) : Invocation :=
  ⟨⟨0, h⟩, auth, .server, ⟨.server, schema, false⟩, none⟩

/-- A guarded delete succeeds as soon as the predicate admits some row with the key. -/
theorem GuardedCall.of_admitted {h : Nat} {auth : Option Identity} {r : Row} (hh : s.Held h W)
    (hb : Gate.bypasses auth = false) (ht : s.schema.table? table = some t) (hf : t.FullKey row)
    (hr : r ∈ W.rows table)
    (had : Permit.Admits (t.primaryKey.map fun c => (c, row.value c)) r
      (w.decide (plainInvocation s.schema h auth).actor table auth))
    (hw : s.schema.write 0 W table .delete row = .ok W') :
    GuardedCall s W W' table w .delete (plainInvocation s.schema h auth) (.ofRow row) := by
  have hst : (Site.new 0 [.direct s]).HasStore (plainInvocation s.schema h auth).tx.database s := rfl
  obtain ⟨x, checked, journal, hcan, hok⟩ := (Site.new 0 [.direct s]).can_of_invocation
    (i := plainInvocation s.schema h auth) (p := .ofInvocation (plainInvocation s.schema h auth))
    rfl rfl (plainInvocation s.schema h auth).gate (w.withTable table) (.row row)
  obtain rfl : x = .ok () := hok.2 ((can_direct_iff hst hh rfl hb rfl ht _).2
    ⟨_, Subject.keyValues_row hf, r, hr, had⟩)
  have hj : ({ Site.new 0 [.direct s] with journal } : Site).HasStore
    (plainInvocation s.schema h auth).tx.database s := rfl
  have hm : s.mutate (Site.new 0 [.direct s]).clock (plainInvocation s.schema h auth).tx.handle table
      .delete row = (.ok (), s.setTables h W') := by
    rw [show (plainInvocation s.schema h auth).tx.handle = h from rfl, hh.mutate,
      show (Site.new 0 [.direct s]).clock = 0 from rfl, hw]
  have hrun : (guardedWrite table (w.withTable table) .delete none (plainInvocation s.schema h auth)
      (.ofRow row)).advance ⟨.empty, 0⟩ []
        ⟨0, .ofInvocation (plainInvocation s.schema h auth), Site.new 0 [.direct s]⟩ =
      (.finished (.ok ()), ⟨0, ⟨some (plainInvocation s.schema h auth),
        (plainInvocation s.schema h auth).ambient.scope, checked⟩,
        ({ Site.new 0 [.direct s] with journal } : Site).withStore 0 (s.setTables h W')⟩) := by
    rw [advance_guardedWrite (by simp) rfl, Subject.ofJson_of_toRow? (Json.toRow?_ofRow row), hcan]
    simp only [writeRow, Json.toRow?_ofRow, Program.request, Program.advance, hj.answer_mutate, hm]
    rfl
  exact ⟨rfl, hb, rfl, hh, ⟨.empty, 0⟩, [], 0, _, _, s.setTables h W', hst, hrun,
    hj.withStore _, hh.setTables W'⟩

/-- The predicate that permits the rows with the key of a row, structurally. -/
def Where.onlyKeyOf (t : Table) (r : Row) : Where :=
  .new fun _ _ _ => some (.rows (.all (t.primaryKey.map fun c => .compareColumn c .is (r.value c))))

theorem Where.onlyKeyOf_allows_iff {r x : Row} (a : Actor) (auth : Option Identity) :
    Permit.Allows x ((onlyKeyOf t r).decide a table auth) ↔ t.SameKey x r := by
  have he : (onlyKeyOf t r).decide a table auth =
    some (.rows (.all (t.primaryKey.map fun c => .compareColumn c .is (r.value c)))) := rfl
  have hc : ∀ c, (Condition.compareColumn c .is (r.value c)).holds x =
    (x.value c).same (r.value c) := fun _ => rfl
  rw [he]
  simp [Permit.Allows, Condition.holds_all, Table.SameKey, hc]

theorem Permit.Admits.allows {kv : List (String × Json)} {r : Row} {p : Option Permit}
    (h : Permit.Admits kv r p) : Permit.Allows r p ∧
      ((∀ x, Permit.Allows x p) ∨ ∀ e ∈ kv, (Condition.columnIs e.1 e.2).holds r = true) := by
  match p with
  | some (.blanket b) => exact ⟨h, .inl fun _ => h⟩
  | some (.rows c) => exact ⟨h.1, .inr h.2⟩

/-- The values of the key columns of a row with a full key are not null. -/
theorem Table.FullKey.key (hf : t.FullKey row) :
    ∀ v ∈ t.primaryKey.map row.value, v.isNull = false := List.forall_mem_map.2 hf

theorem Table.mem_keyPart_iff (row r : Row) : (∀ c ∈ t.keyPart (t.primaryKey.map row.value),
    c.holds r = true) ↔ ∀ e ∈ t.primaryKey.map fun c => (c, row.value c),
      (Condition.columnIs e.1 e.2).holds r = true := by
  simp only [keyPart, zip_map_value, List.forall_mem_map]

/-- A row that is not confused with a key is admitted on account of a blanket answer, or it has that
key and is permitted. -/
theorem Permit.Admits.sameKey {p : Option Permit} (hf : t.FullKey row)
    (h : Permit.Admits (t.primaryKey.map fun c => (c, row.value c)) r p)
    (hn : ¬ t.Confuses (t.primaryKey.map row.value) r) :
    (∀ x, Permit.Allows x p) ∨ Permit.Allows r p ∧ t.SameKey r row := by
  obtain ⟨hallow, hall | hkey⟩ := h.allows
  · exact .inl hall
  · have hor := (Table.keyPart_holds_iff hf.key).1 ((Table.mem_keyPart_iff row r).2 hkey)
    exact .inr ⟨hallow, (Table.hasKey_iff hf r).1 (hor.resolve_right hn)⟩

/-- Without confusion, the rows that a guarded write changes are permitted. -/
theorem GuardedCall.permitted (hc : GuardedCall s W W' table w a i args) (ha : a ≠ .insert)
    (ht : s.schema.table? table = some t) (hk : t.Keyed (W.rows table))
    (hrow : args.toRow? = some row)
    (hn : ∀ x ∈ W.rows table, t.SameKey x row →
      ∀ r ∈ W.rows table, ¬ t.Confuses (t.primaryKey.map row.value) r) :
    ∀ x ∈ W.rows table, x ∉ W'.rows table →
      Permit.Allows x (w.decide i.actor table i.identity) := by
  obtain ⟨row', now, hrow', hw, kv, hkv, r, hr, had⟩ := hc.admitted ha ht
  obtain rfl : row' = row := Option.some.inj (hrow'.symm.trans hrow)
  obtain ⟨t', rows', ht', -, hf, hwr, rfl⟩ := Schema.write_written hw
  obtain rfl : t = t' := Option.some.inj (ht.symm.trans ht')
  intro x hx hgone
  have hgone : x ∉ rows' := by simpa [Tables.rows_setRows] using hgone
  have hsx : t.SameKey x row' := hwr.sameKey_of_gone hx hgone
  obtain rfl : kv = _ := Except.ok.inj (hkv.symm.trans (Subject.keyValues_row hf))
  obtain hall | ⟨hallow, hsr⟩ := had.sameKey hf (hn x hx hsx r hr)
  · exact hall x
  · obtain ⟨pre, post, hp⟩ := List.append_of_mem hr
    obtain rfl : x = r := hk.unique hp hx (hsx.trans hsr.symm)
    exact hallow

/-- A confused row lets a predicate pass that does not permit the row to be deleted. -/
theorem GuardedCall.unpermitted {h : Nat} {x r : Row} (hh : s.Held h W)
    (ht : s.schema.table? table = some t) (hk : t.Keyed (W.rows table))
    (hc : t.checkColumns row = .ok ()) (hf : t.FullKey row) (hx : x ∈ W.rows table)
    (hs : t.SameKey x row) (hr : r ∈ W.rows table)
    (hn : t.Confuses (t.primaryKey.map row.value) r) :
    ∃ W', GuardedCall s W W' table (.onlyKeyOf t r) .delete (plainInvocation s.schema h none)
        (.ofRow row) ∧ x ∉ W'.rows table ∧
      ¬ Permit.Allows x ((Where.onlyKeyOf t r).decide (plainInvocation s.schema h none).actor table
        none) := by
  obtain ⟨rows', happ⟩ := Table.applyTo_of_found 0 table (a := .delete) (by simp)
    hc hf ⟨x, hx, hs⟩
  have hw : s.schema.write 0 W table .delete row = .ok (W.setRows table rows') := by
    simp only [Schema.write, Schema.require_eq_ok_iff.2 ht, bind, Except.bind, happ]
    rfl
  have hallow : Permit.Allows r ((Where.onlyKeyOf t r).decide
      (plainInvocation s.schema h none).actor table none) :=
    (Where.onlyKeyOf_allows_iff _ _).2 (.refl t r)
  have hkey := (Table.mem_keyPart_iff row r).1 ((Table.keyPart_holds_iff hf.key).2 (.inr hn))
  refine ⟨_, .of_admitted hh rfl ht hf hr ⟨hallow, hkey⟩ hw, ?_, ?_⟩
  · obtain ⟨-, -, hwr⟩ := Table.applyTo_written happ
    have hgone : x ∉ rows' := by
      cases hwr with
      | @removed pre post r' hp hs' =>
        obtain rfl : x = r' := hk.unique hp hx (hs.trans hs'.symm)
        exact Table.Keyed.not_mem (hp ▸ hk)
      | kept ha hnone => exact absurd hs (hnone x hx)
      | added ha => simp at ha
      | merged ha => simp at ha
    simpa [Tables.rows_setRows] using hgone
  · rw [Where.onlyKeyOf_allows_iff]
    intro hsame
    have hr' : t.hasKey (t.primaryKey.map row.value) r = true :=
      (Table.hasKey_iff hf r).2 (hsame.symm.trans hs)
    simp [hn.not_hasKey hf.key] at hr'

end Calls

/-! Notes whose keys are neighbours beyond the integers that doubles tell apart. -/
namespace TwinNotes

def table : Table :=
  ⟨"note", [⟨"id", .json, false, none⟩, ⟨"author", .string, false, none⟩], ["id"]⟩

def schema : Schema := Schema.empty.addTable table

def mine : Row := .ofList [("id", .ofNat 9007199254740992), ("author", .str "u1")]

def other : Row := .ofList [("id", .ofNat 9007199254740993), ("author", .str "u2")]

def named : Row := .ofList [("id", .str "n"), ("author", .str "u3")]

/-- The notes as a transaction finds them. -/
def tables : Tables := Tables.setRows .empty "note" [mine, other, named]

def ops : List Store.Op := [.seed 0 "note" [mine, other, named], .begin]

def store : Store := (Store.new schema).after ops

/-- The predicate that permits the notes of whoever asks. -/
def own : Where := .new fun _ _ auth => auth.map fun a => .rows (.columnIs "author" (.str a.id))

theorem held : store.Held 0 tables := ⟨rfl, rfl, by decide⟩

theorem fullKey_other : table.FullKey other := fun c hc => by
  obtain rfl := List.mem_singleton.1 hc
  rfl

theorem fullKey_named : table.FullKey named := fun c hc => by
  obtain rfl := List.mem_singleton.1 hc
  rfl

theorem twins : (mine.value "id").NumericTwins (other.value "id") :=
  ⟨.natural 9007199254740992, .natural 9007199254740993, rfl, rfl, by decide +kernel, rfl⟩

theorem confuses_mine : table.Confuses (table.primaryKey.map other.value) mine where
  close e he := by
    obtain rfl := List.mem_singleton.1 he
    exact .inr twins
  twin := ⟨_, List.mem_singleton.2 rfl, twins⟩

theorem not_confuses_named (r : Row) : ¬ table.Confuses (table.primaryKey.map named.value) r := by
  rintro ⟨-, e, he, m, n, -, hn, -⟩
  obtain rfl := List.mem_singleton.1 he
  cases hn

end TwinNotes

/-- In a reachable table the gate and the store find the same rows by a key exactly when no row is
confused with it, and then, and only then, each row that a guarded write of that key changes is
permitted. -/
theorem gate_checks_changed_row_iff {schema : Schema} {s : Store} {h : Nat} {W : Tables}
    {table : String} {t : Table} (hs : s.Reachable schema)
    (hh : s.Held h W) (ht : schema.table? table = some t) :
    (∀ (x : Subject) (kv : List (String × Json)), x.keyValues t = .ok kv →
      (∀ e ∈ kv, e.2.isNull = false) →
        ((∀ c, ∃ d, Gate.conditionFor table t x (some (.rows c)) = .ok d ∧
          (W.rows table).filter (fun r => d.holds r) =
            (W.rows table).filter fun r => c.holds r && t.hasKey (kv.map Prod.snd) r) ↔
        ∀ r ∈ W.rows table, ¬ t.Confuses (kv.map Prod.snd) r)) ∧
    ∀ row, t.checkColumns row = .ok () → t.FullKey row →
      ((∀ W' w a i args, args.toRow? = some row → a ≠ .insert → i.tx.handle = h →
        GuardedCall s W W' table w a i args → ∀ x ∈ W.rows table, x ∉ W'.rows table →
          Permit.Allows x (w.decide i.actor table i.identity)) ↔
      ∀ x ∈ W.rows table, t.SameKey x row →
        ∀ r ∈ W.rows table, ¬ t.Confuses (t.primaryKey.map row.value) r) := by
  have ht' : s.schema.table? table = some t := by rw [hs.schema_eq]; exact ht
  have hk : t.Keyed (W.rows table) := by
    have hkeyed := hs.sound.tables? (h := h) (W := W) (by simp [hh.tables?])
    exact hkeyed table t ht'
  refine ⟨fun x kv hkv hnn => ?_, fun row hc hf => ⟨fun hall x hx hsx r hr hn => ?_,
    fun hn W' w a i args hrow ha _ hcall => hcall.permitted ha ht' hk hrow hn⟩⟩
  · have hkey : ∀ v ∈ kv.map Prod.snd, v.isNull = false := List.forall_mem_map.2 hnn
    rw [← Table.selects_same_iff _ hkey]
    refine forall_congr' fun c => ⟨?_, fun he => ⟨_, Gate.conditionFor_rows table c hkv, he⟩⟩
    rintro ⟨d, hd, he⟩
    rw [Gate.conditionFor_rows table c hkv] at hd
    rw [Except.ok.inj hd]
    exact he
  · obtain ⟨W', hcall, hgone, hnot⟩ := GuardedCall.unpermitted hh ht' hk hc hf hx hsx hr hn
    exact hnot (hall W' _ _ _ _ (Json.toRow?_ofRow row) (by simp) rfl hcall x hx hgone)

open TwinNotes in
theorem gate_checks_changed_row_of_twins :
    (¬ ∀ W' w a i args, Json.toRow? args = some other → a ≠ .insert → i.tx.handle = 0 →
      GuardedCall store tables W' "note" w a i args → ∀ x ∈ tables.rows "note",
        x ∉ W'.rows "note" → Permit.Allows x (w.decide i.actor "note" i.identity)) ∧
    ∀ W' w a i args, Json.toRow? args = some named → a ≠ .insert → i.tx.handle = 0 →
      GuardedCall store tables W' "note" w a i args → ∀ x ∈ tables.rows "note",
        x ∉ W'.rows "note" → Permit.Allows x (w.decide i.actor "note" i.identity) := by
  have hall := (@gate_checks_changed_row_iff schema store 0 tables "note" table ⟨ops, rfl⟩ held rfl).2
  constructor
  · intro h
    exact (hall other rfl fullKey_other).1 h other (List.mem_cons_of_mem _ List.mem_cons_self)
      (.refl table other) mine List.mem_cons_self confuses_mine
  · exact (hall named rfl fullKey_named).2 fun _ _ _ r _ => not_confuses_named r

open TwinNotes in
/-- Numbers that doubles do not tell apart let someone delete the note of someone else. -/
theorem delete_of_unchecked_row : ∃ W',
    GuardedCall store tables W' "note" own .delete
      (plainInvocation store.schema 0 (some (.ofId "u1"))) (.ofRow other) ∧
    other ∈ tables.rows "note" ∧ other ∉ W'.rows "note" ∧
    ¬ Permit.Allows other (own.decide (plainInvocation store.schema 0 (some (.ofId "u1"))).actor
      "note" (some (.ofId "u1"))) := by
  have hw : store.schema.write 0 tables "note" .delete other =
    .ok (tables.setRows "note" [mine, named]) := rfl
  refine ⟨_, .of_admitted (r := mine) held rfl rfl fullKey_other List.mem_cons_self ⟨rfl, ?_⟩ hw,
    List.mem_cons_of_mem _ List.mem_cons_self, ?_, ?_⟩
  · exact (Table.mem_keyPart_iff other mine).1
      ((Table.keyPart_holds_iff fullKey_other.key).2 (.inr confuses_mine))
  · have hauthor : ∀ r ∈ [mine, named], r.value "author" ≠ .str "u2" := by
      simp only [List.forall_mem_cons, List.not_mem_nil, false_implies, implies_true, and_true]
      exact ⟨fun h => absurd (Json.str.inj h) (by decide),
        fun h => absurd (Json.str.inj h) (by decide)⟩
    exact fun hm => hauthor other hm rfl
  · intro h
    cases h

end RowGuard
