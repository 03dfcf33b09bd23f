import RowGuard.Proofs.Store.Repetition
import RowGuard.Proofs.Store.Seeding

/-! # Tables as keyed maps

The rows of a table stand for a map from keys to rows, where keys are compared structurally.  A
write is an operation on that map: it is refused for one of five reasons and then changes nothing,
or it changes what stands under the key of its row and nothing else.
-/
namespace RowGuard
namespace Table
variable {t : Table} {now : Nat} {name : String} {rows rows' : List Row} {a : Action} {row r : Row}
  {key : List Json}

/-- The values of a row in the key columns. -/
def tuple (t : Table) (r : Row) : List Json := t.primaryKey.map r.value

/-- The row that has a key. -/
def rowAt (t : Table) (rows : List Row) (key : List Json) : Option Row :=
  rows.find? fun r => sameItems (t.tuple r) key

theorem sameKey_iff (t : Table) (r r' : Row) :
    t.SameKey r r' ↔ sameItems (t.tuple r) (t.tuple r') = true := by
  unfold SameKey tuple
  induction t.primaryKey with
  | nil => simp [sameItems]
  | cons c columns ih => simp [sameItems, ih]

theorem mem_of_rowAt (h : t.rowAt rows key = some r) :
    r ∈ rows ∧ sameItems (t.tuple r) key = true := by
  unfold rowAt at h
  have hs := List.find?_some h
  exact ⟨List.mem_of_find?_eq_some h, hs⟩

/-- Under a key stands the one row that has it. -/
theorem rowAt_eq_some_iff (hk : t.Keyed rows) :
    t.rowAt rows key = some r ↔ r ∈ rows ∧ sameItems (t.tuple r) key = true := by
  refine ⟨mem_of_rowAt, ?_⟩
  rintro ⟨hr, hs⟩
  obtain ⟨x, hx⟩ : ∃ x, t.rowAt rows key = some x :=
    Option.isSome_iff_exists.1 (List.find?_isSome.2 ⟨r, hr, hs⟩)
  obtain ⟨hmem, hxs⟩ := mem_of_rowAt hx
  obtain ⟨pre, post, hp⟩ := List.append_of_mem hmem
  rw [Json.sameItems_comm] at hxs
  have hsame := (t.sameKey_iff r x).2 (Json.sameItems_trans _ _ _ hs hxs)
  rw [hx, hk.unique hp hr hsame]

theorem rowAt_eq_none_iff :
    t.rowAt rows key = none ↔ ∀ r ∈ rows, ¬ sameItems (t.tuple r) key = true :=
  List.find?_eq_none

/-- What a write makes of the row under its key. -/
inductive Entry (t : Table) (now : Nat) (row : Row) : Action → Option Row → Option Row → Prop where
  | created {a : Action} {r : Row} (ha : a = .insert ∨ a = .upsert)
      (hr : Completes t.columns now row r) : Entry t now row a none (some r)
  | overwritten {a : Action} {r r' : Row} (ha : a = .update ∨ a = .upsert)
      (hr : ∀ c, r'.get? c = (row.get? c).or (r.get? c)) : Entry t now row a (some r) (some r')
  | removed {r : Row} : Entry t now row .delete (some r) none
  | absent {a : Action} (ha : a = .update ∨ a = .delete) : Entry t now row a none none

/-- Under the key that the write names stands what the write has made of it. -/
theorem entry_of_applyTo (hk : t.Keyed rows) (h : t.applyTo now name rows a row = .ok rows')
    (hs : sameItems (t.tuple row) key = true) :
    t.Entry now row a (t.rowAt rows key) (t.rowAt rows' key) := by
  obtain ⟨-, hf, hw⟩ := applyTo_written h
  have hk' := hw.keyed hk hf
  have hat : ∀ r, t.SameKey r row → sameItems (t.tuple r) key = true := fun r hr =>
    Json.sameItems_trans _ _ _ ((t.sameKey_iff r row).1 hr) hs
  have hnone : ∀ rows, (∀ x ∈ rows, ¬ t.SameKey x row) → t.rowAt rows key = none := by
    intro rows hn
    refine rowAt_eq_none_iff.2 fun x hx hxs => hn x hx ((t.sameKey_iff x row).2 ?_)
    rw [Json.sameItems_comm] at hs
    exact Json.sameItems_trans _ _ _ hxs hs
  cases hw with
  | @added _ r ha hn hr =>
    have hmem : r ∈ rows ++ [r] := by simp
    rw [hnone rows hn, (rowAt_eq_some_iff hk').2 ⟨hmem, hat r hr⟩]
    cases origin_of_applyTo h hmem with
    | stayed hold => exact absurd hr (hn r hold)
    | added _ hd => exact .created ha (completes_of_withDefaults hd)
    | merged _ hold hs => exact absurd hs (hn _ hold)
  | @merged _ pre post r ha hp hr =>
    subst hp
    have hs' := (sameKey_merge hf hr).trans hr
    rw [(rowAt_eq_some_iff hk).2 ⟨by simp, hat r hr⟩,
      (rowAt_eq_some_iff hk').2 ⟨by simp, hat _ hs'⟩]
    exact .overwritten ha (get?_merge r row)
  | @removed pre post r hp hr =>
    subst hp
    rw [(rowAt_eq_some_iff hk).2 ⟨by simp, hat r hr⟩, hnone (pre ++ post) (hk.others hr)]
    exact .removed
  | kept ha hn =>
    rw [hnone rows hn]
    exact .absent ha

/-- Under every other key stands what stood there. -/
theorem rowAt_of_applyTo (hk : t.Keyed rows) (h : t.applyTo now name rows a row = .ok rows')
    (hs : ¬ sameItems (t.tuple row) key = true) : t.rowAt rows' key = t.rowAt rows key := by
  obtain ⟨-, hf, hw⟩ := applyTo_written h
  have hne : ∀ r, sameItems (t.tuple r) key = true → ¬ t.SameKey r row := fun r hr hrs =>
    hs (Json.sameItems_trans _ _ _ ((t.sameKey_iff row r).1 hrs.symm) hr)
  apply Option.ext
  intro r
  -- A row that has come or gone has the key of the write.
  rw [rowAt_eq_some_iff (hw.keyed hk hf), rowAt_eq_some_iff hk]
  refine and_congr_left fun hr => ⟨fun hmem => ?_, fun hmem => ?_⟩
  · exact Classical.byContradiction fun hn => hne r hr (hw.sameKey_of_new hf hmem hn)
  · exact Classical.byContradiction fun hn => hne r hr (hw.sameKey_of_gone hmem hn)

/-- Why a table refuses a write. -/
inductive Refuses (t : Table) (now : Nat) (a : Action) (row : Row) (old : Option Row) : Prop where
  | undeclared {c : String} (hc : (row.get? c).isSome) (hd : ∀ d ∈ t.columns, d.name ≠ c)
  | keyless {c : String} (hc : c ∈ t.primaryKey) (hn : (row.value c).isNull = true)
  | taken (ha : a = .insert) (ho : old ≠ none)
  | incomplete (ha : a = .insert ∨ a = .upsert) (ho : old = none)
      (hl : LeavesEmpty t.columns now row)

theorem not_declared_iff : ¬ t.Declared row ↔
    ∃ c, (row.get? c).isSome ∧ ∀ d ∈ t.columns, d.name ≠ c := by
  unfold Declared declares column?
  simp

theorem not_fullKey_iff : ¬ t.FullKey row ↔ ∃ c ∈ t.primaryKey, (row.value c).isNull = true := by
  simp [FullKey]

theorem any_hasKey_iff_rowAt (hf : t.FullKey row) :
    rows.any (t.hasKey (t.primaryKey.map row.value)) = true ↔ t.rowAt rows (t.tuple row) ≠ none := by
  simp only [any_hasKey hf, ne_eq, rowAt_eq_none_iff, ← sameKey_iff]
  simp

theorem applyAt_error_iff (hf : t.FullKey row) :
    (∃ e, t.applyAt now name rows a row (t.primaryKey.map row.value) = .error e) ↔
      (a = .insert ∧ t.rowAt rows (t.tuple row) ≠ none) ∨ ((a = .insert ∨ a = .upsert) ∧
        t.rowAt rows (t.tuple row) = none ∧ LeavesEmpty t.columns now row) := by
  have happend : (∃ e, t.append now rows row = .error e) ↔ LeavesEmpty t.columns now row := by
    rw [← withDefaults_error_iff, append]
    cases t.withDefaults now row <;> simp [Except.map]
  by_cases hx : rows.any (t.hasKey (t.primaryKey.map row.value)) = true
  · have ho := (any_hasKey_iff_rowAt hf).1 hx
    cases a <;> simp [applyAt, hx, ho]
  · have ho : t.rowAt rows (t.tuple row) = none :=
      Classical.byContradiction fun ho => hx ((any_hasKey_iff_rowAt hf).2 ho)
    cases a <;> simp [applyAt, hx, ho, happend]

theorem applyTo_error_iff : (∃ e, t.applyTo now name rows a row = .error e) ↔
    t.Refuses now a row (t.rowAt rows (t.tuple row)) := by
  by_cases hd : t.Declared row
  · by_cases hf : t.FullKey row
    · rw [applyTo_eq now name rows a (checkColumns_eq_ok_iff.2 hd) hf, applyAt_error_iff hf]
      constructor
      · rintro (⟨ha, ho⟩ | ⟨ha, ho, hl⟩)
        · exact .taken ha ho
        · exact .incomplete ha ho hl
      · intro h
        cases h with
        | undeclared hc hu => exact absurd hd (not_declared_iff.2 ⟨_, hc, hu⟩)
        | keyless hc hn => exact absurd hf (not_fullKey_iff.2 ⟨_, hc, hn⟩)
        | taken ha ho => exact .inl ⟨ha, ho⟩
        | incomplete ha ho hl => exact .inr ⟨ha, ho, hl⟩
    · obtain ⟨c, hc, hn⟩ := not_fullKey_iff.1 hf
      refine iff_of_true (exists_error_iff.2 fun rows' h => ?_) (.keyless hc hn)
      exact hf (applyTo_written h).2.1
  · obtain ⟨c, hc, hu⟩ := not_declared_iff.1 hd
    refine iff_of_true (exists_error_iff.2 fun rows' h => ?_) (.undeclared hc hu)
    exact hd (checkColumns_eq_ok_iff.1 (applyTo_written h).1)

end Table

/-- A map from the keys of each table to rows. -/
abbrev KeyedTables := String → List Json → Option Row

namespace Schema
variable {s : Schema} {now : Nat} {ts ts' : Tables} {table name : String} {a : Action} {row r : Row}
  {key : List Json}

/-- The map that tables stand for. -/
def keyed (s : Schema) (ts : Tables) : KeyedTables := fun name key =>
  match s.table? name with
  | some t => t.rowAt (ts.rows name) key
  | none => none

/-- The rows of the tables are the rows of the map, each of them once and under its own key. -/
structure Represents (s : Schema) (ts : Tables) (m : KeyedTables) : Prop where
  row_iff : ∀ name key r, m name key = some r ↔ ∃ t, s.table? name = some t ∧
    r ∈ ts.rows name ∧ sameItems (t.tuple r) key = true
  once : ∀ name t, s.table? name = some t →
    (ts.rows name).Pairwise fun r r' => ¬ sameItems (t.tuple r) (t.tuple r') = true
  undeclared : ∀ name, s.table? name = none → ts.rows name = []

theorem represents_keyed (hk : s.Keyed ts) (hd : s.Declared ts) : s.Represents ts (s.keyed ts) := by
  constructor
  · intro name key r
    unfold keyed
    cases ht : s.table? name with
    | none => simp
    | some t => simp [Table.rowAt_eq_some_iff (hk name t ht)]
  · intro name t ht
    refine (hk name t ht).distinct.imp fun hne hs => hne ?_
    exact (t.sameKey_iff _ _).2 hs
  · intro name ht
    refine List.eq_nil_iff_forall_not_mem.2 fun r hr => ?_
    obtain ⟨t, ht', -⟩ := hd name r hr
    simp [ht] at ht'

/-- Why tables refuse a write. -/
inductive Refuses (s : Schema) (now : Nat) (m : KeyedTables) (table : String) (a : Action)
    (row : Row) : Prop where
  | unknown (h : s.table? table = none)
  | refused {t : Table} (ht : s.table? table = some t)
      (h : t.Refuses now a row (m table (t.tuple row)))

theorem write_error_iff :
    (∃ e, s.write now ts table a row = .error e) ↔ s.Refuses now (s.keyed ts) table a row := by
  cases ht : s.table? table with
  | none =>
    refine iff_of_true (exists_error_iff.2 fun ts' h => ?_) (.unknown ht)
    obtain ⟨t, -, ht', -⟩ := write_eq_ok_iff.1 h
    simp [ht] at ht'
  | some t =>
    have hwrite : (∃ e, s.write now ts table a row = .error e) ↔
        ∃ e, t.applyTo now table (ts.rows table) a row = .error e := by
      rw [exists_error_iff, exists_error_iff]
      constructor
      · intro h rows' happ
        exact h _ (write_eq_ok_iff.2 ⟨t, rows', ht, happ, rfl⟩)
      · intro h ts' hok
        obtain ⟨t', rows', ht', happ, -⟩ := write_eq_ok_iff.1 hok
        obtain rfl := Option.some.inj (ht.symm.trans ht')
        exact h rows' happ
    have hkeyed : s.keyed ts table (t.tuple row) = t.rowAt (ts.rows table) (t.tuple row) := by
      simp [keyed, ht]
    rw [hwrite, Table.applyTo_error_iff]
    constructor
    · exact fun h => .refused ht (hkeyed ▸ h)
    · intro h
      cases h with
      | unknown hu => simp [ht] at hu
      | refused hu h =>
        obtain rfl := Option.some.inj (ht.symm.trans hu)
        exact hkeyed ▸ h

/-- The first map becomes the second one by a write: the row under the key of the write is what the
write has made of it, and under all other keys and in all other tables stands what stood there. -/
def Rewrites (s : Schema) (now : Nat) (table : String) (a : Action) (row : Row)
    (m m' : KeyedTables) : Prop :=
  ∃ t, s.table? table = some t ∧ ∀ name key,
    if name = table ∧ sameItems (t.tuple row) key = true then
      t.Entry now row a (m name key) (m' name key)
    else m' name key = m name key

theorem rewrites_of_write (hk : s.Keyed ts) (h : s.write now ts table a row = .ok ts') :
    s.Rewrites now table a row (s.keyed ts) (s.keyed ts') := by
  obtain ⟨t, rows', ht, happ, rfl⟩ := write_eq_ok_iff.1 h
  refine ⟨t, ht, fun name key => ?_⟩
  by_cases hname : table = name
  · subst hname
    have hold : s.keyed ts table key = t.rowAt (ts.rows table) key := by simp [keyed, ht]
    have hnew : s.keyed (ts.setRows table rows') table key = t.rowAt rows' key := by
      simp [keyed, ht, Tables.rows_setRows]
    rw [hold, hnew]
    by_cases hs : sameItems (t.tuple row) key = true
    · rw [if_pos ⟨rfl, hs⟩]
      exact Table.entry_of_applyTo (hk table t ht) happ hs
    · rw [if_neg fun hc => hs hc.2]
      exact Table.rowAt_of_applyTo (hk table t ht) happ hs
  · rw [if_neg fun hc => hname hc.1.symm]
    simp [keyed, Tables.rows_setRows, hname]

end Schema

namespace Store

/-- What it is for a write in a transaction to act on the map that its tables stand for. -/
structure ActsOnMap (s : Store) (h now : Nat) (W : Tables) (table : String) (a : Action)
    (row : Row) : Prop where
  represents : s.schema.Represents W (s.schema.keyed W)
  error_iff : (∃ e, (s.mutate now h table a row).1 = .error e) ↔
    s.schema.Refuses now (s.schema.keyed W) table a row
  error : ∀ e s', s.mutate now h table a row = (.error e, s') → s' = s
  ok : ∀ s', s.mutate now h table a row = (.ok (), s') → ∃ W', s' = s.setTables h W' ∧
    s'.tables? h = some W' ∧ s.schema.Represents W' (s.schema.keyed W') ∧
    (∀ name ≠ table, W'.rows name = W.rows name) ∧
    s.schema.Rewrites now table a row (s.schema.keyed W) (s.schema.keyed W')

/-- Whatever the schema and whatever calls a store has had, a write in an open transaction is an
operation on the map from keys to rows. -/
theorem mutate_acts_on_map {schema : Schema} {s : Store} (hs : s.Reachable schema) {h : Nat}
    {W : Tables} (hW : s.tables? h = some W) (now : Nat) (table : String) (a : Action) (row : Row) :
    s.ActsOnMap h now W table a row := by
  have hdeclared : s.schema.Declared W := by
    rw [hs.schema_eq]
    exact (hs.all (P := schema.Declared) (fun _ _ h => nomatch h)
      fun _ _ _ _ _ _ h hd => hd.write h).tables? hW
  have hkeyed := hs.sound.tables? hW
  have hheld := hs.steady.held_of_tables? hW
  have hrep := Schema.represents_keyed hkeyed hdeclared
  cases hw : s.schema.write now W table a row with
  | error e =>
    have hm : s.mutate now h table a row = (.error e, s) := by rw [hheld.mutate, hw]
    refine ⟨hrep, ?_, ?_, ?_⟩
    · simp [hm, ← Schema.write_error_iff, hw]
    · rw [hm]
      rintro e' s' ⟨⟩
      rfl
    · simp [hm]
  | ok W' =>
    have hm : s.mutate now h table a row = (.ok (), s.setTables h W') := by
      rw [hheld.mutate, hw]
    have hrep' := Schema.represents_keyed (hkeyed.write hw) (hdeclared.write hw)
    refine ⟨hrep, ?_, ?_, ?_⟩
    · simp [hm, ← Schema.write_error_iff, hw]
    · simp [hm]
    · rw [hm]
      rintro s' ⟨⟩
      refine ⟨W', rfl, ?_, hrep', fun name hname => ?_, Schema.rewrites_of_write hkeyed hw⟩
      · rw [(hheld.setTables W').tables?, if_pos rfl]
      · obtain ⟨t, rows', -, -, rfl⟩ := Schema.write_eq_ok_iff.1 hw
        rw [Tables.rows_setRows, if_neg hname.symm]

/-! Notes with a text that is declared once, or twice in ways that do not agree. -/
namespace Redeclared

def required : Column := ⟨"text", .string, false, none⟩

def blank : Column := ⟨"text", .string, true, none⟩

def untitled : Column := ⟨"text", .string, false, some (.value (.str "untitled"))⟩

def note (texts : List Column) : Table := ⟨"note", ⟨"id", .string, false, none⟩ :: texts, ["id"]⟩

def notes (texts : List Column) : Schema := Schema.empty.addTable (note texts)

def started (texts : List Column) : Store := (new (notes texts)).after [.begin]

def bare : Row := .ofList [("id", .str "n1")]

def titled : Row := .ofList [("id", .str "n1"), ("text", .str "about")]

/-- A store whose open transaction has inserted a note without a text. -/
def inserted : Store := (new (notes [untitled])).after [.begin, .mutate 0 ⟨1, "note", .insert, bare⟩]

def texts (ts : Tables) : List (Option String) :=
  (ts.rows "note").map fun r => (r.value "text").toString?

end Redeclared

open Redeclared in
theorem mutate_acts_on_map_of_notes : ∃ W W' s', inserted.Reachable (notes [untitled]) ∧
    inserted.tables? 0 = some W ∧ texts W = [some "untitled"] ∧
    inserted.mutate 2 0 "note" .upsert titled = (.ok (), s') ∧
    s'.tables? 0 = some W' ∧ texts W' = [some "about"] ∧
    inserted.ActsOnMap 0 2 W "note" .upsert titled := by
  have hr : inserted.Reachable (notes [untitled]) := ⟨_, rfl⟩
  have hW : inserted.tables? 0 = some _ := rfl
  exact ⟨_, _, _, hr, hW, by decide +kernel, rfl, rfl, by decide +kernel,
    mutate_acts_on_map hr hW 2 "note" .upsert titled⟩

open Redeclared in
/-- A note without a text may be accepted although some declaration of the column requires a text, and
refused although another one has a default, or although the first one is optional. -/
theorem no_single_declaration_decides :
    (∃ s', (started [untitled, required]).mutate 1 0 "note" .insert bare = (.ok (), s') ∧
      ∃ c ∈ (note [untitled, required]).columns,
        c.default = none ∧ c.optional = false ∧ (bare.value c.name).isNull = true) ∧
    ((∃ e, ((started [required, untitled]).mutate 1 0 "note" .insert bare).1 = .error e) ∧
      ∀ c ∈ (note [required, untitled]).columns, (bare.value c.name).isNull = true →
        ∃ d ∈ (note [required, untitled]).columns, d.name = c.name ∧ d.default.isSome) ∧
    (∃ e, ((started [blank, required]).mutate 1 0 "note" .insert bare).1 = .error e) ∧
      ∀ c ∈ (note [blank, required]).columns, (bare.value c.name).isNull = true →
        ∃ d, (note [blank, required]).column? c.name = some d ∧ d.optional = true := by
  refine ⟨⟨_, rfl, required, by simp [note], rfl, rfl, rfl⟩, ⟨⟨_, rfl⟩, fun c hc hn => ?_⟩, ⟨_, rfl⟩,
    fun c hc hn => ?_⟩
  · refine ⟨untitled, by simp [note], ?_, rfl⟩
    simp only [note, List.mem_cons, List.not_mem_nil, or_false] at hc
    rcases hc with rfl | rfl | rfl
    · exact absurd hn (by decide)
    · rfl
    · rfl
  · refine ⟨blank, ?_, rfl⟩
    simp only [note, List.mem_cons, List.not_mem_nil, or_false] at hc
    rcases hc with rfl | rfl | rfl
    · exact absurd hn (by decide)
    · rfl
    · rfl

end Store
end RowGuard
