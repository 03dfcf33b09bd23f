import RowGuard.Proofs.Store.Writes

/-! # The rows of a store

A row that a table has after a write was there before, or the write has added it with its defaults,
or it is a row that was there with the write merged into it.  So every row has declared columns only
and a full key, and no two rows of a table have the same key, in all tables that a store can reach.
-/
namespace RowGuard

theorem mem_modifyFirst {α : Type} {test : α → Bool} {f : α → α} {xs : List α} {y : α}
    (h : y ∈ modifyFirst test f xs) : y ∈ xs ∨ ∃ x ∈ xs, test x = true ∧ y = f x := by
  induction xs with
  | nil => exact absurd h (List.not_mem_nil)
  | cons x xs ih =>
    unfold modifyFirst at h
    by_cases hx : test x = true
    · rw [if_pos hx] at h
      rcases List.mem_cons.1 h with rfl | h
      · exact .inr ⟨x, List.mem_cons_self, hx, rfl⟩
      · exact .inl (List.mem_cons_of_mem x h)
    · rw [if_neg hx] at h
      rcases List.mem_cons.1 h with rfl | h
      · exact .inl List.mem_cons_self
      · rcases ih h with h | ⟨z, hz, hzt, rfl⟩
        · exact .inl (List.mem_cons_of_mem x h)
        · exact .inr ⟨z, List.mem_cons_of_mem x hz, hzt, rfl⟩

namespace Table
variable {t : Table} {now : Nat} {name : String} {rows rows' : List Row} {a : Action} {row r : Row}

/-- Where a row comes from that a table has after a write. -/
inductive Origin (t : Table) (now : Nat) (rows : List Row) (a : Action) (row : Row) : Row → Prop where
  | stayed {r : Row} (h : r ∈ rows) : Origin t now rows a row r
  | added {r : Row} (ha : a = .insert ∨ a = .upsert) (h : t.withDefaults now row = .ok r) :
      Origin t now rows a row r
  | merged {r : Row} (ha : a = .update ∨ a = .upsert) (h : r ∈ rows) (hs : t.SameKey r row) :
      Origin t now rows a row (merge r row)

theorem origin_of_append (ha : a = .insert ∨ a = .upsert) (h : t.append now rows row = .ok rows')
    (hr : r ∈ rows') : t.Origin now rows a row r := by
  unfold append at h
  cases hd : t.withDefaults now row with
  | error e => simp [hd, Except.map] at h
  | ok new =>
    rw [hd] at h
    obtain rfl : rows ++ [new] = rows' := Except.ok.inj h
    rcases List.mem_append.1 hr with hr | hr
    · exact .stayed hr
    · exact .added ha (List.mem_singleton.1 hr ▸ hd)

theorem origin_of_modifyFirst (hf : t.FullKey row) (ha : a = .update ∨ a = .upsert)
    (hr : r ∈ modifyFirst (t.hasKey (t.primaryKey.map row.value)) (merge · row) rows) :
    t.Origin now rows a row r := by
  rcases mem_modifyFirst hr with hr | ⟨x, hx, hk, rfl⟩
  · exact .stayed hr
  · exact .merged ha hx ((hasKey_iff hf x).1 hk)

theorem origin_of_applyAt (hf : t.FullKey row)
    (h : t.applyAt now name rows a row (t.primaryKey.map row.value) = .ok rows') (hr : r ∈ rows') :
    t.Origin now rows a row r := by
  unfold applyAt at h
  cases hx : rows.any (t.hasKey (t.primaryKey.map row.value)) with
  | false =>
    rw [hx] at h
    cases a with
    | insert => exact origin_of_append (.inl rfl) h hr
    | upsert => exact origin_of_append (.inr rfl) h hr
    | update | delete => exact .stayed (Except.ok.inj h ▸ hr)
  | true =>
    rw [hx] at h
    cases a with
    | insert => cases h
    | upsert => exact origin_of_modifyFirst hf (.inr rfl) (Except.ok.inj h ▸ hr)
    | update => exact origin_of_modifyFirst hf (.inl rfl) (Except.ok.inj h ▸ hr)
    | delete => exact .stayed (List.mem_of_mem_eraseP (Except.ok.inj h ▸ hr))

theorem origin_of_applyTo (h : t.applyTo now name rows a row = .ok rows') (hr : r ∈ rows') :
    t.Origin now rows a row r := by
  unfold applyTo at h
  cases hc : t.checkColumns row with
  | error e => simp [hc, bind, Except.bind] at h
  | ok u =>
    cases hk : t.keyOf row with
    | error e => simp [hc, hk, bind, Except.bind] at h
    | ok key =>
      obtain ⟨hf, rfl⟩ := keyOf_eq_ok_iff.1 hk
      rw [hc, hk] at h
      exact origin_of_applyAt hf h hr

/-- A row has declared columns only. -/
def Declared (t : Table) (r : Row) : Prop := ∀ c, (r.get? c).isSome → t.declares c = true

theorem checkColumns_eq_ok_iff : t.checkColumns row = .ok () ↔ t.Declared row := by
  unfold checkColumns Declared
  simp only [← Dict.mem_keys_iff]
  cases hc : row.keys.find? (fun c => !t.declares c) with
  | none => simpa using hc
  | some c =>
    have hm := List.mem_of_find?_eq_some hc
    have hn := List.find?_some hc
    refine iff_of_false (fun h => nomatch h) fun h => ?_
    simp [h c hm] at hn

theorem declares_of_mem {c : Column} (hc : c ∈ t.columns) : t.declares c.name = true := by
  simp only [declares, column?, List.find?_isSome]
  exact ⟨c, hc, by simp⟩

theorem Declared.insert (hr : t.Declared r) {c : String} (hc : t.declares c = true) (v : Json) :
    t.Declared (r.insert c v) := by
  intro c' h
  rw [Dict.get?_insert] at h
  by_cases he : c = c'
  · exact he ▸ hc
  · rw [if_neg he] at h
    exact hr c' h

theorem Declared.merge (hr : t.Declared r) (hrow : t.Declared row) :
    t.Declared (Table.merge r row) := by
  intro c h
  rw [Table.merge, Dict.get?_insertMany _ row.ascending] at h
  cases hc : findEntry c row.entries with
  | some v => exact hrow c (by rw [Dict.get?, hc]; rfl)
  | none =>
    rw [hc, Option.none_or] at h
    exact hr c h

theorem Declared.fillColumn (hr : t.Declared r) {c : Column} (hc : c ∈ t.columns) {r' : Row}
    (h : t.fillColumn now r c = .ok r') : t.Declared r' := by
  unfold Table.fillColumn at h
  split at h
  · split at h
    · exact Except.ok.inj h ▸ hr.insert (declares_of_mem hc) _
    · split at h
      · exact Except.ok.inj h ▸ hr
      · cases h
  · exact Except.ok.inj h ▸ hr

theorem Declared.withDefaults (hrow : t.Declared row) (h : t.withDefaults now row = .ok r) :
    t.Declared r := by
  -- The columns that are still to be filled are columns of the table.
  have hall : ∀ columns ⊆ t.columns, ∀ row, t.Declared row →
      columns.foldlM (t.fillColumn now) row = .ok r → t.Declared r := by
    intro columns
    induction columns with
    | nil =>
      intro _ row hrow h
      exact Except.ok.inj h ▸ hrow
    | cons c columns ih =>
      intro hsub row hrow h
      rw [List.foldlM_cons] at h
      cases hf : t.fillColumn now row c with
      | error e => simp [hf, bind, Except.bind] at h
      | ok row' =>
        rw [hf] at h
        have hsub' := List.cons_subset.1 hsub
        exact ih hsub'.2 row' (hrow.fillColumn hsub'.1 hf) h
  exact hall t.columns (List.Subset.refl _) row hrow h

theorem Origin.declared (ho : t.Origin now rows a row r) (hrows : ∀ x ∈ rows, t.Declared x)
    (hrow : t.Declared row) : t.Declared r := by
  cases ho with
  | stayed h => exact hrows r h
  | added _ h => exact hrow.withDefaults h
  | merged _ h _ => exact (hrows _ h).merge hrow

end Table

namespace Schema
variable {s : Schema} {now : Nat} {ts ts' : Tables} {table name : String} {a : Action} {row r : Row}

theorem write_eq_ok_iff : s.write now ts table a row = .ok ts' ↔ ∃ t rows',
    s.table? table = some t ∧ t.applyTo now table (ts.rows table) a row = .ok rows' ∧
      ts' = ts.setRows table rows' := by
  unfold write
  constructor
  · intro h
    cases ht : s.require table with
    | error e => simp [ht, bind, Except.bind] at h
    | ok t =>
      cases ha : t.applyTo now table (ts.rows table) a row with
      | error e => simp [ht, ha, bind, Except.bind] at h
      | ok rows' =>
        rw [ht] at h
        simp only [bind, Except.bind, ha] at h
        exact ⟨t, rows', require_eq_ok_iff.1 ht, ha, (Except.ok.inj h).symm⟩
  · rintro ⟨t, rows', ht, ha, rfl⟩
    simp [require_eq_ok_iff.2 ht, ha, bind, Except.bind, pure, Except.pure]

/-- A write concerns the rows of its own table, each of which has its origin. -/
theorem origin_of_write (h : s.write now ts table a row = .ok ts') (hr : r ∈ ts'.rows name) :
    r ∈ ts.rows name ∨ name = table ∧ ∃ t, s.table? table = some t ∧
      t.checkColumns row = .ok () ∧ t.FullKey row ∧ t.Origin now (ts.rows table) a row r := by
  obtain ⟨t, rows', ht, ha, rfl⟩ := write_eq_ok_iff.1 h
  rw [Tables.rows_setRows] at hr
  by_cases hn : table = name
  · rw [if_pos hn] at hr
    obtain ⟨hc, hf, -⟩ := Table.applyTo_written ha
    exact .inr ⟨hn.symm, t, ht, hc, hf, Table.origin_of_applyTo ha hr⟩
  · rw [if_neg hn] at hr
    exact .inl hr

/-- Every row belongs to a declared table and has declared columns only. -/
def Declared (s : Schema) (ts : Tables) : Prop :=
  ∀ name, ∀ r ∈ ts.rows name, ∃ t, s.table? name = some t ∧ t.Declared r

theorem Declared.write (hd : s.Declared ts) (h : s.write now ts table a row = .ok ts') :
    s.Declared ts' := by
  intro name r hr
  rcases origin_of_write h hr with hr | ⟨rfl, t, ht, hc, -, ho⟩
  · exact hd name r hr
  · refine ⟨t, ht, ho.declared (fun x hx => ?_) (Table.checkColumns_eq_ok_iff.1 hc)⟩
    obtain ⟨u, hu, hdx⟩ := hd name x hx
    exact Option.some.inj (ht.symm.trans hu) ▸ hdx

end Schema

namespace Store

/-- The tables are the committed ones, or those of an open transaction. -/
def Shows (s : Store) (ts : Tables) : Prop := ts = s.committed ∨ ∃ h, s.tables? h = some ts

theorem All.of_shows {P : Tables → Prop} {s : Store} (hs : s.All P) {ts : Tables}
    (ht : s.Shows ts) : P ts := by
  rcases ht with rfl | ⟨h, hw⟩
  · exact hs.committed
  · exact hs.tables? hw

/-- What is true of the rows of every table: their columns are declared, their keys are full, and no
two of them have the same key. -/
structure WellKept (schema : Schema) (table : String) (rows : List Row) : Prop where
  declared : ∀ r ∈ rows, ∃ t, schema.table? table = some t ∧ ∀ c ∈ r.keys, t.declares c = true
  keyed : ∀ r ∈ rows, ∃ t, schema.table? table = some t ∧
    ∀ c ∈ t.primaryKey, (r.value c).isNull = false
  distinct : ∀ t, schema.table? table = some t →
    rows.Pairwise fun r r' => ∃ c ∈ t.primaryKey, (r.value c).same (r'.value c) = false
  single : ∀ t, schema.table? table = some t → t.primaryKey = [] → rows.length ≤ 1

theorem wellKept_of_keyed {schema : Schema} {ts : Tables} (hd : schema.Declared ts)
    (hk : schema.Keyed ts) (table : String) : WellKept schema table (ts.rows table) := by
  have hdistinct : ∀ t, schema.table? table = some t → (ts.rows table).Pairwise fun r r' =>
      ∃ c ∈ t.primaryKey, (r.value c).same (r'.value c) = false := by
    intro t ht
    refine (hk table t ht).distinct.imp fun hne => ?_
    simpa [Table.SameKey] using hne
  refine ⟨fun r hr => ?_, fun r hr => ?_, hdistinct, fun t ht hnil => ?_⟩
  · obtain ⟨t, ht, hr⟩ := hd table r hr
    exact ⟨t, ht, fun c hc => hr c (Dict.mem_keys_iff.1 hc)⟩
  · obtain ⟨t, ht, -⟩ := hd table r hr
    exact ⟨t, ht, (hk table t ht).full r hr⟩
  · -- Without key columns any two rows would have the same key.
    have hp := hdistinct t ht
    rw [hnil] at hp
    rcases hrows : ts.rows table with - | ⟨r, - | ⟨r', rest⟩⟩
    · simp
    · simp
    · rw [hrows] at hp
      obtain ⟨c, hc, -⟩ := (List.pairwise_cons.1 hp).1 r' List.mem_cons_self
      cases hc

/-- Whatever the schema and whatever calls a store has had, all its tables are well kept, the
committed ones and those of an open transaction. -/
theorem tables_wellKept {schema : Schema} {s : Store} (hs : s.Reachable schema) {ts : Tables}
    (ht : s.Shows ts) (table : String) : WellKept schema table (ts.rows table) := by
  have hk := hs.all schema.keyed_empty fun _ _ _ _ _ _ h hk => hk.write h
  have hd := hs.all (P := schema.Declared) (fun _ _ h => nomatch h) fun _ _ _ _ _ _ h hd => hd.write h
  exact wellKept_of_keyed (hd.of_shows ht) (hk.of_shows ht) table

/-! A table without key columns, to which a second row is offered in an open transaction, and one with
two key columns, in which the rows of two notes and two languages are told apart. -/
namespace Settings

def settings : Schema := (Schema.empty.addTable
  ⟨"settings", [⟨"theme", .string, false, none⟩, ⟨"size", .number, true, some .nowMillis⟩],
    []⟩).addTable
  ⟨"title", [⟨"note", .string, false, none⟩, ⟨"lang", .string, false, none⟩], ["note", "lang"]⟩

def theme (name : String) : Row := .ofList [("theme", .str name)]

def title (note lang : String) : Row := .ofList [("note", .str note), ("lang", .str lang)]

def ops : List Op := [.seed 1 "settings" [theme "dark"], .seed 1 "title" [title "a" "en"], .begin,
  .mutate 0 ⟨2, "settings", .insert, theme "light"⟩, .mutate 0 ⟨3, "settings", .upsert, theme "grey"⟩,
  .mutate 0 ⟨4, "title", .insert, title "a" "fr"⟩, .mutate 0 ⟨5, "title", .upsert, title "b" "en"⟩,
  .mutate 0 ⟨6, "title", .insert, title "a" "en"⟩]

def store : Store := (new settings).after ops

def strings (ts : Tables) (table c : String) : List (Option String) :=
  (ts.rows table).map fun r => (r.value c).toString?

end Settings

open Settings in
theorem tables_wellKept_of_settings : ∃ ts, store.Reachable settings ∧ store.Shows ts ∧
    strings ts "settings" "theme" = [some "grey"] ∧
    strings ts "title" "note" = [some "a", some "a", some "b"] ∧
    strings ts "title" "lang" = [some "en", some "fr", some "en"] ∧
    WellKept settings "settings" (ts.rows "settings") ∧ WellKept settings "title" (ts.rows "title") := by
  have hr : store.Reachable settings := ⟨ops, rfl⟩
  have hts : store.tables? 0 = some _ := rfl
  have hkept := tables_wellKept hr (.inr ⟨0, hts⟩)
  exact ⟨_, hr, .inr ⟨0, hts⟩, by decide +kernel, by decide +kernel, by decide +kernel,
    hkept "settings", hkept "title"⟩

end Store
end RowGuard
