import Mathlib.Data.List.Pairwise
import RowGuard.Proofs.Gate.KeyAgreement
import RowGuard.Proofs.Json.SortOrder
import RowGuard.Proofs.Query.Paging
import RowGuard.Proofs.Store.Rows

/-! # Rows that tie in a completed ordering

The store tells keys apart structurally, and an ordering tells numbers apart as doubles.  So two
rows of a table tie in the completed ordering of a query exactly if their keys are confused and the
requested columns do not tell them apart either.  An exclusive cursor at one of them excludes the
other one too, and a query that goes on from there never answers with it.
-/
namespace RowGuard

/-! ## Values and rows that tie -/

/-- Proper values are taken for equal where a condition takes them for equal. -/
theorem Json.sortOrder_eq_iff {a b : Json} (pa : a.Proper) (pb : b.Proper) :
    sortOrder a b = .eq ↔ compareValues a b = some .eq := by
  constructor
  · intro h
    rw [sortOrder] at h
    cases hc : compareValues a b with
    | some o => rw [hc] at h; exact congrArg some h
    | none =>
      -- Values that cannot be compared are told apart by their texts, which are their own.
      simp only [hc, Ordering.then_eq_eq, Std.LawfulEqCmp.compare_eq_iff_eq] at h
      rw [text_injective pa pb (String.ofList_inj.1 h.2)] at hc
      simp [(compareValues_eq_iff b b).2 (.inl (same_refl b))] at hc
  · intro h
    rw [sortOrder, h]

namespace Row
variable {a b r : Row} {order : List (String × Direction)}

/-- Every value of a proper row is proper, and so is the `null` of a missing column. -/
theorem proper_value (h : (Json.ofRow r).Proper) (c : String) : (r.value c).Proper := by
  cases h with
  | obj h =>
    unfold Row.value
    cases hv : r.get? c with
    | none => exact .null
    | some v => exact h (c, v) ((findEntry_eq_some_iff r.ascending).1 hv)

/-- In each of the columns, a condition takes the values of two rows for equal. -/
def TiedOn (columns : List String) (a b : Row) : Prop :=
  ∀ c ∈ columns, Json.compareValues (a.value c) (b.value c) = some .eq

instance (columns : List String) (a b : Row) : Decidable (TiedOn columns a b) :=
  inferInstanceAs (Decidable (∀ c ∈ columns, _))

theorem compareRows_eq_iff (pa : (Json.ofRow a).Proper) (pb : (Json.ofRow b).Proper) :
    compareRows order a b = .eq ↔ TiedOn (order.map Prod.fst) a b := by
  induction order with
  | nil => simp [compareRows, TiedOn]
  | cons e order ih =>
    have happly : ∀ (d : Direction) (o : Ordering), d.apply o = .eq ↔ o = .eq := by
      rintro ⟨⟩ ⟨⟩ <;> decide
    rw [compareRows, Ordering.then_eq_eq, happly, Json.sortOrder_eq_iff (proper_value pa _)
      (proper_value pb _), ih, TiedOn, TiedOn, List.map_cons, List.forall_mem_cons]

theorem compareRows_self (order : List (String × Direction)) (r : Row) :
    compareRows order r r = .eq := by
  induction order with
  | nil => rfl
  | cons e order ih =>
    rw [compareRows, Json.sortOrder_of_same (Json.same_refl _), ih]
    cases e.2 <;> rfl

theorem compareRows_swap (order : List (String × Direction)) (a b : Row) :
    compareRows order b a = (compareRows order a b).swap := by
  induction order with
  | nil => rfl
  | cons e order ih =>
    rw [compareRows, compareRows, Ordering.swap_then, ih, Json.sortOrder_swap]
    cases e.2 <;> rfl

end Row

namespace Table
variable {t : Table} {a b : Row}

/-- Of two rows with different keys, one is confused with the key of the other if a condition takes
the keys for equal. -/
theorem confuses_iff (h : ¬ t.SameKey a b) :
    t.Confuses (t.primaryKey.map b.value) a ↔ a.TiedOn t.primaryKey b := by
  have hzip : ∀ P : String × Json → Prop,
      (∀ e ∈ t.primaryKey.zip (t.primaryKey.map b.value), P e) ↔
        ∀ c ∈ t.primaryKey, P (c, b.value c) := by
    intro P
    rw [zip_map_value, List.forall_mem_map]
  have hclose := hzip fun e => (a.value e.1).same e.2 = true ∨ (a.value e.1).NumericTwins e.2
  simp only [Row.TiedOn, Json.compareValues_eq_iff]
  refine ⟨fun hc => hclose.1 hc.close, fun hc => ⟨hclose.2 hc, ?_⟩⟩
  by_contra hnone
  refine h fun c hmem => (hc c hmem).resolve_right fun htwins => hnone ⟨(c, b.value c), ?_, htwins⟩
  rw [zip_map_value]
  exact List.mem_map_of_mem hmem

end Table

namespace Query
variable {q : Query} {rows : List Row} {r : Row}

/-- The completed ordering has the requested columns and the key columns. -/
theorem mem_fullOrder_iff {c : String} : c ∈ q.fullOrder.map Prod.fst ↔
    c ∈ q.plan.order.map Prod.fst ∨ c ∈ q.primaryKey := by
  have hmap : ∀ columns : List String, (columns.map fun k => (k, Direction.asc)).map Prod.fst =
      columns := fun columns => (List.map_map ..).trans (List.map_id columns)
  rw [fullOrder, completeOrder_eq, List.map_append, hmap, List.mem_append, Clause.missing,
    List.mem_eraseDups, List.mem_filter, decide_eq_true_eq]
  by_cases hc : c ∈ q.plan.order.map Prod.fst <;> simp [hc]

/-- Behind a row, a query reaches the rows that are greater. -/
theorem reaches_start (q : Query) (r r' : Row) :
    (q.start r).completed.reaches r' = (compareRows q.fullOrder r' r == .gt) :=
  Cursor.admits_exclusive r q.fullOrder r'

/-- Behind each row, a query reaches every other row that ties with that row or follows it, and does
not reach the row itself. -/
def GoesOn (q : Query) (rows : List Row) : Prop :=
  ∀ r ∈ rows, (q.start r).completed.reaches r = false ∧ ∀ r' ∈ rows, r' ≠ r →
    compareRows q.fullOrder r r' ≠ .gt → (q.start r).completed.reaches r' = true

section Keyed
variable {t : Table}

/-- Two rows with different keys tie exactly if one is confused with the key of the other and the
requested columns do not tell them apart. -/
theorem ties_iff {a b : Row} (hq : q.primaryKey = t.primaryKey)
    (pa : (Json.ofRow a).Proper) (pb : (Json.ofRow b).Proper) (hab : ¬ t.SameKey a b) :
    compareRows q.fullOrder a b = .eq ↔
      t.Confuses (t.primaryKey.map b.value) a ∧ a.TiedOn (q.plan.order.map Prod.fst) b := by
  rw [Row.compareRows_eq_iff pa pb, Table.confuses_iff hab, ← hq]
  simp only [Row.TiedOn, mem_fullOrder_iff, or_imp, forall_and]
  exact and_comm

theorem separates_iff (hk : t.Keyed rows) (hq : q.primaryKey = t.primaryKey)
    (hp : ∀ r ∈ rows, (Json.ofRow r).Proper) :
    q.Separates rows ↔ rows.Pairwise fun a b =>
      ¬ (t.Confuses (t.primaryKey.map b.value) a ∧ a.TiedOn (q.plan.order.map Prod.fst) b) := by
  constructor
  · intro h
    refine (hk.distinct.and h).imp_of_mem fun ha hb hab => ?_
    exact mt (ties_iff hq (hp _ ha) (hp _ hb) hab.1).2 hab.2
  · intro h
    refine (hk.distinct.and h).imp_of_mem fun ha hb hab => ?_
    exact mt (ties_iff hq (hp _ ha) (hp _ hb) hab.1).1 hab.2

/-- A query goes on behind every row exactly if no two rows tie. -/
theorem separates_iff_goesOn (hk : t.Keyed rows) : q.Separates rows ↔ q.GoesOn rows := by
  constructor
  · intro h r hr
    refine ⟨by rw [reaches_start, Row.compareRows_self]; rfl, fun r' hr' hne hle => ?_⟩
    have hsymm : Std.Symm fun a b : Row => compareRows q.fullOrder a b ≠ .eq := by
      refine ⟨fun a b hab => ?_⟩
      rw [Row.compareRows_swap]
      cases hc : compareRows q.fullOrder a b <;> simp_all
    have hne' : compareRows q.fullOrder r r' ≠ .eq := List.Pairwise.forall h hr hr' hne.symm
    rw [reaches_start, Row.compareRows_swap]
    cases hc : compareRows q.fullOrder r r' <;> simp_all
  · intro h
    refine hk.distinct.imp_of_mem fun {a b} ha hb hab htie => ?_
    have hne : b ≠ a := fun he => hab (he ▸ .refl t a)
    have hreaches := (h a ha).2 b hb hne (by simp [htie])
    rw [reaches_start, Row.compareRows_swap, htie] at hreaches
    cases hreaches

end Keyed

/-- Behind one of the rows that are to come, a query answers with the rows that come after it. -/
theorem Coherent.select_start (hc : q.Coherent (· ∈ rows)) (ht : q.Separates rows)
    {before after : List Row} (h : q.remaining rows none = before ++ r :: after) :
    (q.start r).completed.select rows = q.completed.cut after := by
  have hlast : ((q.remaining rows none).take (before.length + 1)).getLast? = some r := by
    simp [h, List.take_append]
  have hdrop := hc.remaining_eq_drop (fun _ hr => hr) ht (by simp) hlast
  have hreaches : (q.start r).completed.reaches = q.behind (some r) :=
    funext fun r' => reaches_start q r r'
  have hrest : (q.remaining rows none).drop (before.length + 1) = after := by
    simp [h, List.drop_append]
  rw [select_eq, hreaches, ← hrest, ← hdrop]
  rfl

end Query

/-- In every table of proper rows that a reachable store shows, the completed orderings of all
queries separate the rows exactly if no row is confused with the key of another one.  The ordering
of one query separates them exactly if the columns it asks for tell such rows apart, and exactly
then the query goes on behind each row with all others that tie with it or follow it.  If the rows
are compared consistently, too, the answer behind a row is the rest of the answer. -/
theorem Store.orderings_separate_iff {schema : Schema} {s : Store} {ts : Tables} {table : String}
    {t : Table} (hs : s.Reachable schema) (hts : s.Shows ts) (ht : schema.table? table = some t)
    (hp : ∀ r ∈ ts.rows table, (Json.ofRow r).Proper) :
    ((∀ q : Query, q.table = table → q.primaryKey = t.primaryKey → q.Separates (ts.rows table)) ↔
      (ts.rows table).Pairwise fun a b => ¬ t.Confuses (t.primaryKey.map b.value) a) ∧
    ∀ q : Query, q.table = table → q.primaryKey = t.primaryKey →
      (q.Separates (ts.rows table) ↔ (ts.rows table).Pairwise fun a b =>
        ¬ (t.Confuses (t.primaryKey.map b.value) a ∧ a.TiedOn (q.plan.order.map Prod.fst) b)) ∧
      (q.Separates (ts.rows table) ↔ q.GoesOn (ts.rows table)) ∧
      (q.Separates (ts.rows table) → q.Coherent (· ∈ ts.rows table) →
        ∀ before r after, q.remaining (ts.rows table) none = before ++ r :: after →
          schema.execute ts (q.start r) = .ok (q.completed.cut after)) := by
  have hk : t.Keyed (ts.rows table) := by
    have hkeyed := (hs.all schema.keyed_empty fun _ _ _ _ _ _ h hk => hk.write h).of_shows hts
    exact hkeyed table t ht
  refine ⟨⟨fun h => ?_, fun h q _ hq => ?_⟩, fun q htable hq => ⟨Query.separates_iff hk hq hp,
    Query.separates_iff_goesOn hk, fun hsep hc before r after h => ?_⟩⟩
  · -- The query that asks for no column in particular orders by the key alone.
    have hkey := (Query.separates_iff (q := .onTable table t.primaryKey) hk rfl hp).1 (h _ rfl rfl)
    exact hkey.imp fun hab hconfused => hab ⟨hconfused, fun c hc => nomatch hc⟩
  · exact (Query.separates_iff hk hq hp).2 (h.imp fun hab hboth => hab hboth.1)
  · subst htable
    rw [Batch.execute_of_declared (q := q.start r) (Schema.require_eq_ok_iff.2 ht)]
    exact congrArg Except.ok (hc.select_start hsep h)

namespace TwinNotes

def allNotes : Query := .onTable "note" ["id"]

theorem shows : store.Shows tables := .inr ⟨0, by simp [held.tables?]⟩

theorem proper_rows : ∀ r ∈ tables.rows "note", (Json.ofRow r).Proper := by
  have hrow : ∀ (n : Number) (author : String), n.Proper →
      (Json.ofRow (.ofList [("id", .num n), ("author", .str author)])).Proper := fun n author hn =>
    Json.proper_ofRow (by simpa using ⟨.num hn, .str author⟩)
  have hnamed : (Json.ofRow named).Proper :=
    Json.proper_ofRow (by simpa using ⟨.str "n", .str "u3"⟩)
  have hrows : tables.rows "note" = [mine, other, named] := by
    simp [tables, Tables.rows_setRows]
  rw [hrows]
  simp only [List.forall_mem_cons, List.not_mem_nil, false_implies, implies_true, and_true]
  exact ⟨hrow _ _ trivial, hrow _ _ trivial, hnamed⟩

end TwinNotes

open TwinNotes in
/-- Their keys alone do not separate the notes; their authors do, where a query asks for them. -/
theorem Store.orderings_separate_of_twins :
    (¬ ∀ q : Query, q.table = "note" → q.primaryKey = ["id"] → q.Separates (tables.rows "note")) ∧
    (allNotes.orderBy "author" .asc).Separates (tables.rows "note") := by
  obtain ⟨hall, hone⟩ := @Store.orderings_separate_iff TwinNotes.schema store tables "note"
    TwinNotes.table ⟨ops, rfl⟩ shows rfl proper_rows
  constructor
  · refine mt hall.1 fun h => ?_
    exact (List.pairwise_cons.1 h).1 other List.mem_cons_self confuses_mine
  · have hauthors : (tables.rows "note").Pairwise fun a b => ¬ a.TiedOn ["author"] b := by
      decide +kernel
    exact (hone (allNotes.orderBy "author" .asc) rfl rfl).1.2 (hauthors.imp fun h => mt And.right h)

open TwinNotes in
/-- Behind the first of two notes that tie, a query goes on with the note behind them both. -/
theorem Store.cursor_skips_twin : store.Reachable TwinNotes.schema ∧ store.Shows tables ∧
    tables.rows "note" = [mine, other, named] ∧ mine ≠ other ∧
    compareRows allNotes.fullOrder mine other = .eq ∧
    TwinNotes.schema.execute tables allNotes = .ok [mine, other, named] ∧
    TwinNotes.schema.execute tables (allNotes.start mine) = .ok [named] := by
  have hrows : tables.rows "note" = [mine, other, named] := rfl
  have htie : compareRows allNotes.fullOrder other mine = .eq := by decide +kernel
  have hmine : compareRows allNotes.fullOrder named mine = .gt := by decide +kernel
  have hother : compareRows allNotes.fullOrder named other = .gt := by decide +kernel
  have hlisted : allNotes.listed [mine, other, named] = [mine, other, named] := by
    have hall : [mine, other, named].filter allNotes.completed.passes = [mine, other, named] := rfl
    rw [Query.listed, hall]
    simp [sortBy, insertDescending, htie, hother]
  refine ⟨⟨ops, rfl⟩, shows, hrows, fun h => ?_, by decide +kernel, ?_, ?_⟩
  · exact absurd (Json.str.inj (congrArg (Row.value · "author") h)) (by decide)
  · refine (Batch.execute_of_declared (t := TwinNotes.table) rfl tables).trans ?_
    have hselect : allNotes.completed.select (tables.rows "note") = allNotes.listed
        (tables.rows "note") := by
      rw [Query.select_of_no_limit rfl]
      exact List.filter_eq_self.2 fun _ _ => rfl
    exact congrArg Except.ok (hselect.trans hlisted)
  · refine (Batch.execute_of_declared (t := TwinNotes.table) rfl tables).trans ?_
    have hselect : (allNotes.start mine).completed.select (tables.rows "note") =
        (allNotes.listed (tables.rows "note")).filter fun r =>
          compareRows allNotes.fullOrder r mine == .gt :=
      List.filter_congr fun r _ => Query.reaches_start allNotes mine r
    refine congrArg Except.ok (hselect.trans ?_)
    rw [hrows, hlisted]
    simp [htie, hmine, Row.compareRows_self]

end RowGuard
