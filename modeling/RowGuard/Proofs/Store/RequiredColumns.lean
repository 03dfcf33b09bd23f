import RowGuard.Proofs.Store.Rows
import Mathlib.Data.List.Induction

/-! # Required columns

A column that is neither optional nor has a default is required.  Whatever creates a row refuses to
leave a required column empty, but a merge into a row that is there writes what it is given, a null
included.  So the required columns of all rows are filled as long as no merge blanks one of them, and
a merge that does is the end of it.
-/
namespace RowGuard
namespace Table
variable {t : Table} {now : Nat} {row r : Row}

/-- Every required column of a row has a value. -/
def Filled (t : Table) (r : Row) : Prop :=
  ∀ c ∈ t.columns, c.mayOmit = false → (r.value c.name).isNull = false

/-- The row names a required column and gives no value for it. -/
def Blanks (t : Table) (row : Row) : Prop :=
  ∃ c ∈ t.columns, c.mayOmit = false ∧ row.get? c.name = some .null

theorem fillColumn_filled {c : Column} (h : t.fillColumn now row c = .ok r)
    (hc : c.mayOmit = false) : (r.value c.name).isNull = false := by
  obtain ⟨ho, hd⟩ : c.optional = false ∧ c.default = none := by simpa [Column.mayOmit] using hc
  unfold fillColumn at h
  rw [hd, ho] at h
  by_cases hn : (row.value c.name).isNull = true
  · rw [if_pos hn] at h
    cases h
  · rw [if_neg hn] at h
    rw [← Except.ok.inj h]
    simpa using hn

theorem fillColumns_filled {columns : List Column}
    (h : columns.foldlM (t.fillColumn now) row = .ok r) :
    ∀ c ∈ columns, c.mayOmit = false → (r.value c.name).isNull = false := by
  induction columns generalizing row with
  | nil => exact fun _ hc => absurd hc List.not_mem_nil
  | cons col columns ih =>
    rw [List.foldlM_cons] at h
    cases hf : t.fillColumn now row col with
    | error e => simp [hf, bind, Except.bind] at h
    | ok row' =>
      rw [hf] at h
      intro c hc hreq
      rcases List.mem_cons.1 hc with rfl | hc
      · have hv := fillColumn_filled hf hreq
        rw [fillColumns_value h hv]
        exact hv
      · exact ih h c hc hreq

theorem filled_of_withDefaults (h : t.withDefaults now row = .ok r) : t.Filled r :=
  fillColumns_filled h

/-- A merge keeps a row filled unless it blanks a required column. -/
theorem filled_merge_iff (hr : t.Filled r) : t.Filled (merge r row) ↔ ¬ t.Blanks row := by
  constructor
  · rintro hm ⟨c, hc, hreq, hnull⟩
    have hv := hm c hc hreq
    rw [value_merge, hnull] at hv
    cases hv
  · intro hb c hc hreq
    rw [value_merge]
    cases hg : row.get? c.name with
    | none => exact hr c hc hreq
    | some v =>
      cases v with
      | null => exact absurd ⟨c, hc, hreq, hg⟩ hb
      | _ => rfl

end Table

namespace Schema
variable {s : Schema} {now : Nat} {ts ts' : Tables} {table : String} {a : Action} {row : Row}

/-- Every row belongs to a declared table and has a value in every required column. -/
def Filled (s : Schema) (ts : Tables) : Prop :=
  ∀ name, ∀ r ∈ ts.rows name, ∃ t, s.table? name = some t ∧ t.Filled r

/-- The write is merged into a row that is there, and blanks a required column of it. -/
def Blanks (s : Schema) (ts : Tables) (table : String) (a : Action) (row : Row) : Prop :=
  (a = .update ∨ a = .upsert) ∧
    ∃ t, s.table? table = some t ∧ (∃ x ∈ ts.rows table, t.SameKey x row) ∧ t.Blanks row

theorem filled_empty (s : Schema) : s.Filled .empty := fun _ _ h => nomatch h

theorem Filled.of_mem (hf : s.Filled ts) {t : Table} (ht : s.table? table = some t) {r : Row}
    (hr : r ∈ ts.rows table) : t.Filled r := by
  obtain ⟨u, hu, hur⟩ := hf table r hr
  obtain rfl : t = u := Option.some.inj (ht.symm.trans hu)
  exact hur

theorem Filled.write (hf : s.Filled ts) (h : s.write now ts table a row = .ok ts')
    (hb : ¬ s.Blanks ts table a row) : s.Filled ts' := by
  intro name r hr
  rcases origin_of_write h hr with hr | ⟨rfl, t, ht, -, -, ho⟩
  · exact hf name r hr
  · refine ⟨t, ht, ?_⟩
    cases ho with
    | stayed hr => exact hf.of_mem ht hr
    | added _ hd => exact Table.filled_of_withDefaults hd
    | merged ha hx hs =>
      refine (Table.filled_merge_iff (hf.of_mem ht hx)).2 fun hblank => ?_
      exact hb ⟨ha, t, ht, ⟨_, hx, hs⟩, hblank⟩

theorem Blanks.not_filled (hb : s.Blanks ts table a row) (hf : s.Filled ts)
    (h : s.write now ts table a row = .ok ts') : ¬ s.Filled ts' := by
  obtain ⟨ha, t, ht, ⟨x, hx, hs⟩, hblank⟩ := hb
  obtain ⟨u, rows', hu, -, -, hw, rfl⟩ := write_written h
  obtain rfl : t = u := Option.some.inj (ht.symm.trans hu)
  intro hf'
  cases hw with
  | added _ hn => exact hn x hx hs
  | @merged _ pre post r _ hp _ =>
    have hm : Table.merge r row ∈
        (ts.setRows table (pre ++ Table.merge r row :: post)).rows table := by
      simp [Tables.rows_setRows]
    have hr : r ∈ ts.rows table := by simp [hp]
    exact (Table.filled_merge_iff (hf.of_mem ht hr)).1 (hf'.of_mem ht hm) hblank
  | removed => simp at ha
  | kept _ hn => exact hn x hx hs

end Schema

namespace Store

/-- The call is a write that succeeds in blanking a required column of a row of its transaction. -/
def Blanks (s : Store) : Op → Prop
  | .mutate h w => ∃ W W', s.tables? h = some W ∧
      s.schema.write w.now W w.table w.action w.row = .ok W' ∧ s.schema.Blanks W w.table w.action w.row
  | _ => False

variable {s : Store}

/-- One call keeps all tables filled exactly if it does not blank a required column. -/
theorem filled_perform_iff (hs : s.All s.schema.Filled) (op : Op) :
    (s.perform op).2.All s.schema.Filled ↔ ¬ s.Blanks op := by
  constructor
  · intro hall hb
    cases op with
    | mutate h w =>
      obtain ⟨W, W', hW, hw, hb⟩ := hb
      have hp : (s.perform (.mutate h w)).2 = s.setTables h W' := by
        simp [perform, mutate, hW, hw]
      rw [hp] at hall
      have hm : (h, W') ∈ (s.setTables h W').working :=
        List.mem_map.2 ⟨(h, W), mem_working_of_tables? hW, by simp⟩
      exact hb.not_filled (hs.tables? hW) hw (hall.working _ hm)
    | _ => exact hb
  · intro hb
    refine hs.perform op (fun _ _ _ _ _ h hf => hf.write h ?_) fun h w W W' he hW hw hf =>
      hf.write hw fun hblank => hb ?_
    · rintro ⟨ha, -⟩
      simp at ha
    · exact he ▸ ⟨W, W', hW, hw, hblank⟩

theorem filled_after_iff (hs : s.All s.schema.Filled) (ops : List Op) :
    (∀ pre post, ops = pre ++ post → (s.after pre).All s.schema.Filled) ↔
      ∀ pre op post, ops = pre ++ op :: post → ¬ (s.after pre).Blanks op := by
  constructor
  · rintro hall pre op post rfl
    have hpre := hall pre (op :: post) rfl
    have hnext := hall (pre ++ [op]) post (by simp)
    rw [after_append] at hnext
    rw [← s.after_schema pre] at hpre hnext
    exact (filled_perform_iff hpre op).1 hnext
  · intro hb pre
    -- the calls made so far, taken from their last one
    induction pre using List.reverseRecOn with
    | nil => exact fun _ _ => hs
    | append_singleton pre op ih =>
      intro post hp
      have hcut : ops = pre ++ op :: post := by simpa using hp
      have hpre := ih (op :: post) hcut
      rw [← s.after_schema pre] at hpre
      have hnext := (filled_perform_iff hpre op).2 (hb pre op post hcut)
      rw [s.after_schema pre] at hnext
      rwa [after_append]

/-- Whatever the schema and whatever calls a store has had: the required columns of all its rows,
committed or not, have been filled all the time exactly if no write has blanked one. -/
theorem required_columns_filled_iff (schema : Schema) (ops : List Op) :
    (∀ pre post, ops = pre ++ post → ((new schema).after pre).All schema.Filled) ↔
      ∀ pre op post, ops = pre ++ op :: post → ¬ ((new schema).after pre).Blanks op :=
  filled_after_iff (s := new schema) ⟨schema.filled_empty, by simp [new]⟩ ops

/-! A note loses its author in an update that is committed. -/
namespace Orphaned

def note : Table :=
  ⟨"note", [⟨"id", .string, false, none⟩, ⟨"authorId", .string, false, none⟩], ["id"]⟩

def notes : Schema := Schema.empty.addTable note

def ops : List Op := [
  .seed 1 "note" [.ofList [("id", .str "n1"), ("authorId", .str "u1")]], .begin,
  .mutate 0 ⟨2, "note", .update, .ofList [("id", .str "n1"), ("authorId", .null)]⟩, .commit 0]

end Orphaned

open Orphaned in
theorem author_blanked_by_update : ∃ s, Reachable notes s ∧ ∃ r ∈ s.committed.rows "note",
    ∃ c ∈ note.columns, c.mayOmit = false ∧ (r.value c.name).isNull = true := by
  have hrow : (((new notes).after ops).committed.rows "note").any (fun r =>
      (r.value "authorId").isNull) = true := by decide +kernel
  obtain ⟨r, hr, hnull⟩ := List.any_eq_true.1 hrow
  exact ⟨_, ⟨ops, rfl⟩, r, hr, ⟨"authorId", .string, false, none⟩, by simp [note], rfl, hnull⟩

end Store
end RowGuard
