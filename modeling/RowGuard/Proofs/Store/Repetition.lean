import RowGuard.Proofs.Store.Defaults

/-! # Writes made twice

An update, an upsert or a delete that succeeds can be made again, and it succeeds again.  It then
changes nothing, but for one case: an upsert that adds a row has the defaults filled in, also where
it names a column and gives no value for it, and the same upsert made again takes these values away.
-/
namespace RowGuard

namespace Table
variable {t : Table} {now : Nat} {name : String} {rows rows' : List Row} {a : Action} {row r : Row}

theorem get?_merge (r row : Row) (c : String) :
    (merge r row).get? c = (row.get? c).or (r.get? c) :=
  Dict.get?_insertMany _ row.ascending c

theorem merge_merge (r row : Row) : merge (merge r row) row = merge r row := by
  apply Dict.ext_get?
  intro c
  rw [get?_merge, get?_merge]
  cases row.get? c <;> simp

/-- The row gives no value for a column that it names and that a default fills. -/
def Withholds (t : Table) (now : Nat) (row : Row) : Prop :=
  ∃ c v, row.get? c = some .null ∧ fallback now c t.columns = some v ∧ v.isNull = false

/-- Merging a row into what its defaults have made of it takes nothing away, unless it withholds a
value. -/
theorem merge_eq_self_iff (h : t.withDefaults now row = .ok r) :
    merge r row = r ↔ ¬ t.Withholds now row := by
  have hr := completes_of_withDefaults h
  constructor
  · rintro hm ⟨c, v, hc, hf, hv⟩
    have hget : (merge r row).get? c = r.get? c := by rw [hm]
    rw [get?_merge, hr c, Row.value, hc, hf] at hget
    simp only [Option.some_or, Option.getD_some, Json.isNull, ↓reduceIte, Option.some.injEq] at hget
    simp [← hget, Json.isNull] at hv
  · intro hw
    apply Dict.ext_get?
    intro c
    rw [get?_merge, hr c, Row.value]
    cases hc : row.get? c with
    | none => simp
    | some w =>
      by_cases hn : w.isNull = true
      · obtain rfl := eq_null_of_isNull hn
        cases hf : fallback now c t.columns with
        | none => simp
        | some v =>
          have hv : v.isNull = true :=
            Bool.of_not_eq_false fun hv => hw ⟨c, v, hc, hf, hv⟩
          simp [eq_null_of_isNull hv]
      · simp [hn]

/-- A row that is there is changed by an upsert or an update unless it has all that these bring. -/
theorem modifyFirst_eq_self_iff (hk : t.Keyed rows) (hf : t.FullKey row) (hr : r ∈ rows)
    (hs : t.SameKey r row) :
    modifyFirst (t.hasKey (t.primaryKey.map row.value)) (merge · row) rows = rows ↔
      merge r row = r := by
  obtain ⟨pre, x, post, hp, hx, he⟩ :=
    modifyFirst_eq (f := (merge · row)) ((any_hasKey hf).2 ⟨r, hr, hs⟩)
  obtain rfl := hk.unique hp hr (hs.trans ((hasKey_iff hf x).1 hx).symm)
  rw [he]
  constructor
  · intro h
    rw [hp] at h
    simpa using h
  · intro h
    rw [h, hp]

theorem applyTo_merge (ha : a = .update ∨ a = .upsert) (hc : t.checkColumns row = .ok ())
    (hf : t.FullKey row) (hx : ∃ x ∈ rows, t.SameKey x row) : t.applyTo now name rows a row =
      .ok (modifyFirst (t.hasKey (t.primaryKey.map row.value)) (merge · row) rows) := by
  have hx := (any_hasKey hf).2 hx
  rw [applyTo_eq now name rows a hc hf]
  rcases ha with rfl | rfl <;> simp [applyAt, hx]

theorem applyTo_of_absent (ha : a = .update ∨ a = .delete) (hc : t.checkColumns row = .ok ())
    (hf : t.FullKey row) (hn : ∀ x ∈ rows, ¬ t.SameKey x row) :
    t.applyTo now name rows a row = .ok rows := by
  have hx : rows.any (t.hasKey (t.primaryKey.map row.value)) = false := by
    rw [← Bool.not_eq_true, any_hasKey hf]
    exact fun ⟨x, hx, hs⟩ => hn x hx hs
  rw [applyTo_eq now name rows a hc hf]
  rcases ha with rfl | rfl <;> simp [applyAt, hx]

/-- The rows beside one that is named do not have the key that is named. -/
theorem Keyed.others {pre post : List Row} (hk : t.Keyed (pre ++ r :: post)) (hr : t.SameKey r row) :
    ∀ x ∈ pre ++ post, ¬ t.SameKey x row := by
  intro x hx hs
  have hsub := (List.Sublist.refl pre).append (List.sublist_cons_self r post)
  have hxr := hk.unique rfl (hsub.subset hx) (hs.trans hr.symm)
  exact hk.not_mem (hxr ▸ hx)

/-- A write made again succeeds again, and changes the rows once more exactly if it has added a row
for which it withholds a value. -/
theorem applyTo_again (hk : t.Keyed rows) (ha : a ≠ .insert)
    (h : t.applyTo now name rows a row = .ok rows') : ∃ rows'',
      t.applyTo now name rows' a row = .ok rows'' ∧ (rows'' = rows' ↔
        ¬ (a = .upsert ∧ (∀ x ∈ rows, ¬ t.SameKey x row) ∧ t.Withholds now row)) := by
  obtain ⟨hc, hf, hw⟩ := applyTo_written h
  have hk' := hw.keyed hk hf
  cases hw with
  | @added _ r ha' hn hr =>
    obtain rfl : a = .upsert := ha'.resolve_left ha
    have hmem : r ∈ rows ++ [r] := by simp
    -- What was added by the upsert is found by it the second time, and merged with the row.
    refine ⟨_, applyTo_merge (.inr rfl) hc hf ⟨r, hmem, hr⟩, ?_⟩
    have hd : t.withDefaults now row = .ok r := by
      cases origin_of_applyTo h hmem with
      | stayed hold => exact absurd hr (hn r hold)
      | added _ hd => exact hd
      | merged _ hold hs => exact absurd hs (hn _ hold)
    rw [modifyFirst_eq_self_iff hk' hf hmem hr, merge_eq_self_iff hd]
    exact not_congr ⟨fun hw => ⟨rfl, hn, hw⟩, fun hw => hw.2.2⟩
  | @merged _ pre post r ha' hp hr =>
    subst hp
    have hmem : merge r row ∈ pre ++ merge r row :: post := by simp
    have hs := (sameKey_merge hf hr).trans hr
    refine ⟨_, applyTo_merge ha' hc hf ⟨_, hmem, hs⟩, iff_of_true ?_ ?_⟩
    · exact (modifyFirst_eq_self_iff hk' hf hmem hs).2 (merge_merge r row)
    · exact fun ⟨_, hn, _⟩ => hn r (by simp) hr
  | @removed pre post r hp hr =>
    subst hp
    have hn := hk.others hr
    exact ⟨_, applyTo_of_absent (.inr rfl) hc hf hn, iff_of_true rfl (by simp)⟩
  | kept ha' _ =>
    refine ⟨_, h, iff_of_true rfl ?_⟩
    rintro ⟨rfl, -⟩
    simp at ha'

end Table

/-- The write is an upsert that adds a row, for which it withholds a value that a default fills. -/
def Schema.Withholds (s : Schema) (now : Nat) (ts : Tables) (table : String) (a : Action)
    (row : Row) : Prop :=
  a = .upsert ∧ ∃ t, s.table? table = some t ∧ (∀ x ∈ ts.rows table, ¬ t.SameKey x row) ∧
    t.Withholds now row

theorem Tables.setRows_setRows (ts : Tables) (table : String) (rs rs' : List Row) :
    (ts.setRows table rs).setRows table rs' = ts.setRows table rs' := by
  apply Dict.ext_get?
  intro name
  simp only [setRows, Dict.get?_insert]
  split <;> rfl

/-- A write made again succeeds again, and changes the tables once more exactly if it withholds. -/
theorem Schema.write_again {s : Schema} {now : Nat} {ts ts' : Tables} {table : String} {a : Action}
    {row : Row} (hk : s.Keyed ts) (ha : a ≠ .insert)
    (h : s.write now ts table a row = .ok ts') : ∃ ts'', s.write now ts' table a row = .ok ts'' ∧
      (ts''.rows table = ts'.rows table ↔ ¬ s.Withholds now ts table a row) ∧
      (¬ s.Withholds now ts table a row → ts'' = ts') := by
  obtain ⟨t, rows', ht, happ, rfl⟩ := write_eq_ok_iff.1 h
  obtain ⟨rows'', hagain, hiff⟩ := Table.applyTo_again (hk table t ht) ha happ
  have hrows : (ts.setRows table rows').rows table = rows' := by simp [Tables.rows_setRows]
  have hw : s.Withholds now ts table a row ↔
      a = .upsert ∧ (∀ x ∈ ts.rows table, ¬ t.SameKey x row) ∧ t.Withholds now row := by
    simp [Withholds, ht]
  refine ⟨ts.setRows table rows'', write_eq_ok_iff.2 ⟨t, rows'', ht, ?_, ?_⟩, ?_, ?_⟩
  · rw [hrows]
    exact hagain
  · rw [Tables.setRows_setRows]
  · rw [hrows, hw, ← hiff]
    simp [Tables.rows_setRows]
  · rw [hw, ← hiff]
    rintro rfl
    rfl

namespace Store

theorem setTables_setTables (s : Store) (h : Nat) (V W : Tables) :
    (s.setTables h V).setTables h W = s.setTables h W := by
  unfold setTables
  simp only [List.map_map]
  congr 1
  apply List.map_congr_left
  intro e _
  by_cases he : e.1 = h <;> simp [he]

theorem Steady.held_of_tables? {s : Store} (hs : s.Steady) {h : Nat} {W : Tables}
    (hW : s.tables? h = some W) : s.Held h W := by
  rcases hs.closed_or_held h with hc | ⟨V, hV⟩
  · simp [hc] at hW
  · rw [hV.tables?, if_pos rfl] at hW
    exact Option.some.inj hW ▸ hV

/-- An update, an upsert or a delete that succeeds can be made again.  It succeeds again and leaves
the store as it is, unless the write has added a row for which it withholds a value. -/
theorem mutate_again {schema : Schema} {s s₁ : Store} (hs : s.Reachable schema) {h now : Nat}
    {W : Tables} (hW : s.tables? h = some W) {table : String} {a : Action} {row : Row}
    (ha : a ≠ .insert) (hok : s.mutate now h table a row = (.ok (), s₁)) :
    ∃ s₂ W₁ W₂, s₁.mutate now h table a row = (.ok (), s₂) ∧
      s₁.tables? h = some W₁ ∧ s₂.tables? h = some W₂ ∧
      (W₂.rows table = W₁.rows table ↔ ¬ schema.Withholds now W table a row) ∧
      (¬ schema.Withholds now W table a row → s₂ = s₁) := by
  have hschema := hs.schema_eq
  have hkeyed : schema.Keyed W := hschema ▸ hs.sound.tables? hW
  have hheld := hs.steady.held_of_tables? hW
  rw [hheld.mutate, hschema] at hok
  cases hw : schema.write now W table a row with
  | error e => simp [hw] at hok
  | ok W₁ =>
    rw [hw] at hok
    obtain rfl : s.setTables h W₁ = s₁ := (Prod.mk.inj hok).2
    have hheld₁ := hheld.setTables W₁
    obtain ⟨W₂, hw₂, hiff, hsame⟩ := Schema.write_again hkeyed ha hw
    have hm : (s.setTables h W₁).mutate now h table a row = (.ok (), s.setTables h W₂) := by
      rw [hheld₁.mutate, setTables_schema, hschema, hw₂]
      exact congrArg (Prod.mk _) (s.setTables_setTables h W₁ W₂)
    refine ⟨s.setTables h W₂, W₁, W₂, hm, ?_, ?_, hiff, fun hn => by rw [hsame hn]⟩
    · rw [hheld₁.tables?, if_pos rfl]
    · rw [(hheld.setTables W₂).tables?, if_pos rfl]

/-! A note without a text gets a default, and keeps it when the note is written again.  A note that
has null for its text gets the default as well, and loses it again. -/
namespace Untitled

def note : Table := ⟨"note", [⟨"id", .string, false, none⟩,
  ⟨"text", .string, false, some (.value (.str "untitled"))⟩], ["id"]⟩

def notes : Schema := Schema.empty.addTable note

def bare : Row := .ofList [("id", .str "n1")]

def blank : Row := .ofList [("id", .str "n1"), ("text", .null)]

def started : Store := (new notes).after [.begin]

def upserted (row : Row) (s : Store) : Store := (s.mutate 1 0 "note" .upsert row).2

/-- The texts of the notes in the transaction. -/
def texts (s : Store) : Option (List (Option String)) :=
  (s.tables? 0).map fun ts => (ts.rows "note").map fun r => (r.value "text").toString?

end Untitled

open Untitled in
theorem mutate_again_of_bare_note : ∃ s₁, started.Reachable notes ∧
    started.mutate 1 0 "note" .upsert bare = (.ok (), s₁) ∧
    texts s₁ = some [some "untitled"] ∧ s₁.mutate 1 0 "note" .upsert bare = (.ok (), s₁) := by
  have hr : started.Reachable notes := ⟨_, rfl⟩
  have hok : started.mutate 1 0 "note" .upsert bare = (.ok (), upserted bare started) := rfl
  obtain ⟨s₂, -, -, hm, -, -, -, hsame⟩ := mutate_again hr (W := .empty) rfl (by decide) hok
  have hw : ¬ notes.Withholds 1 .empty "note" .upsert bare := by
    rintro ⟨-, t, -, -, c, v, hc, -⟩
    rcases Dict.mem_of_get?_insertMany hc with hm | hm <;> simp at hm
  refine ⟨_, hr, hok, by decide +kernel, ?_⟩
  rw [hm, hsame hw]

open Untitled in
theorem default_lost_by_upsert_again : ∃ s₁ s₂, started.Reachable notes ∧
    started.mutate 1 0 "note" .upsert blank = (.ok (), s₁) ∧
    s₁.mutate 1 0 "note" .upsert blank = (.ok (), s₂) ∧
    texts s₁ = some [some "untitled"] ∧ texts s₂ = some [none] :=
  ⟨upserted blank started, upserted blank (upserted blank started), ⟨_, rfl⟩, rfl, rfl,
    by decide +kernel, by decide +kernel⟩

end Store
end RowGuard
